import Harmost.Admission.Limiter
import Harmost.Classifier
import Harmost.Config.Schema

/-!
# Admission

A request is admitted when it holds its weight on its route's limiter, on its
tier's and on the global one, which it asks for in this order.  Any number of
requests are on their way at once, each at one access to one limiter; they
wait, are refused, go away, and give back what they hold one limiter at a time.
-/

namespace Harmost.Admission

open Harmost.Support
open Harmost.Classifier
open Harmost.Config

/-- The ceilings a request may come under.  A route limiter is known by a
number. -/
inductive Ceiling where
  | route (limiter : ℕ)
  | tier (priority : Priority)
  | global
  deriving DecidableEq, Repr

/-- `tier_ceiling`, with the multiplication saturating at 64 bits. -/
def tierCeiling (globalMax percent : ℕ) : ℕ :=
  max (min (globalMax * percent) (2 ^ 64 - 1) / 100) 1

/-- Why a request was not admitted. -/
inductive ShedReason where
  | queueFull
  | queueTimeout
  deriving DecidableEq, Repr

/-- The arguments of `admit`. -/
structure Request where
  class' : RequestClass
  route : Option ℕ
  priority : Priority
  weight : ℕ

/-- The limiters a request asks, narrowest first. -/
def Request.plan (req : Request) : List Ceiling :=
  (req.route.map Ceiling.route).toList ++ [.tier req.priority, .global]

/-- How a request stopped using origin capacity. -/
inductive Outcome where
  | exempt
  | shed (reason : ShedReason)
  | cancelled
  /-- It was admitted, and its permits were dropped. -/
  | released
  deriving DecidableEq, Repr

/-- Where a request is. -/
inductive Admit where
  | absent
  /-- It holds some permits and is in a call of `acquire`. -/
  | acquiring (req : Request) (held : List Ceiling) (next : Ceiling)
      (todo : List Ceiling)
  | admitted (req : Request)
  /-- It gives back what it holds. -/
  | releasing (req : Request) (held : List Ceiling) (outcome : Outcome)
  | ended (outcome : Outcome)

/-- `AdmissionController` and the requests that have come to it. -/
structure Controller where
  gates : Ceiling → Gate
  admits : ℕ → Admit := fun _ => .absent

namespace Controller

/-- A route limiter is created with its own maximum and queue. -/
def new (globalMax queueMax : ℕ) (priorities : Priorities)
    (routes : ℕ → ℕ × ℕ) : Controller where
  gates
    | .route limiter => .new (routes limiter).1 (routes limiter).2
    | .tier priority =>
        .new (tierCeiling globalMax (priorities.percentFor priority)) queueMax
    | .global => .new globalMax queueMax

inductive Op where
  | admitRequest (id : ℕ) (req : Request)
  /-- The next access of the call of `acquire` the request is in. -/
  | advance (id : ℕ)
  /-- The wait in line takes too long. -/
  | timeout (id : ℕ)
  /-- The request goes away while it waits in line. -/
  | cancel (id : ℕ)
  /-- An admitted request drops its permits. -/
  | drop (id : ℕ)
  /-- The next of the permits that are given back. -/
  | release (id : ℕ)

variable (s : Controller)

/-- A request accesses a limiter and goes on. -/
def access (id : ℕ) (ceiling : Ceiling) (op : Gate.Op) (state : Admit) :
    Controller where
  gates := Function.update s.gates ceiling ((s.gates ceiling).step op)
  admits := Function.update s.admits id state

/-- A request goes on without an access. -/
def goTo (id : ℕ) (state : Admit) : Controller :=
  { s with admits := Function.update s.admits id state }

/-- After a permit is acquired: the next limiter, or admission. -/
def acquired (req : Request) (held : List Ceiling) : List Ceiling → Admit
  | [] => .admitted req
  | next :: todo => .acquiring req held next todo

/-- One access of `admit` on its way through `acquire`. -/
def advance (id : ℕ) (req : Request) (held : List Ceiling) (next : Ceiling)
    (todo : List Ceiling) : Controller :=
  let stay := Admit.acquiring req held next todo
  match (s.gates next).calls.lookup id with
  | none => s.access id next (.tryAcquire id req.weight) stay
  | some (.refused _) =>
      if (s.gates next).limiter.queueMax = 0 then
        s.access id next (.takeSlot id)
          (.releasing req held (.shed .queueFull))
      else s.access id next (.takeSlot id) stay
  | some .overflowed =>
      s.access id next (.shed id) (.releasing req held (.shed .queueFull))
  | some (.slotted _) => s.access id next (.enqueue id) stay
  | some (.queued _) => s.access id next (.poll id) stay
  | some (.holding _) => s.goTo id (acquired req (next :: held) todo)

/-- The wait in line ends without a permit. -/
def giveUp (id : ℕ) (outcome : Outcome) : Controller :=
  match s.admits id with
  | .acquiring req held next _ =>
      match (s.gates next).calls.lookup id with
      | some (.queued _) =>
          s.access id next (.cancel id) (.releasing req held outcome)
      | _ => s
  | _ => s

def step (s : Controller) : Op → Controller
  | .admitRequest id req =>
      match s.admits id with
      | .absent =>
          if !req.class'.consumesOriginPermit then
            s.goTo id (.ended .exempt)
          else s.goTo id (acquired req [] req.plan)
      | _ => s
  | .advance id =>
      match s.admits id with
      | .acquiring req held next todo => s.advance id req held next todo
      | _ => s
  | .timeout id => s.giveUp id (.shed .queueTimeout)
  | .cancel id => s.giveUp id .cancelled
  | .drop id =>
      match s.admits id with
      | .admitted req => s.goTo id (.releasing req req.plan.reverse .released)
      | _ => s
  | .release id =>
      match s.admits id with
      | .releasing _ [] outcome => s.goTo id (.ended outcome)
      | .releasing req (ceiling :: held) outcome =>
          s.access id ceiling (.drop id) (.releasing req held outcome)
      | _ => s

/-! ## What a request holds -/

end Controller

theorem Request.nodup_plan (req : Request) : req.plan.Nodup := by
  cases hroute : req.route <;> simp [Request.plan, hroute]

namespace Admit

/-- The limiters a request has a permit of. -/
def holds : Admit → List Ceiling
  | .acquiring _ held _ _ => held
  | .admitted req => req.plan
  | .releasing _ held _ => held
  | .absent | .ended _ => []

/-- What a request holds on each of them. -/
def units : Admit → ℕ
  | .acquiring req _ _ _ | .admitted req | .releasing req _ _ =>
      max req.weight 1
  | .absent | .ended _ => 0

/-- The limiter a request has a call on. -/
def next? : Admit → Option Ceiling
  | .acquiring _ _ next _ => some next
  | _ => none

/-- A request works through its plan, and gives back each permit once. -/
def Planned : Admit → Prop
  | .acquiring req held next todo => held.reverse ++ next :: todo = req.plan
  | .releasing _ held _ => held.Nodup
  | _ => True

/-- The calls of a request on all limiters are where the request thinks they
are. -/
structure Consistent (a : Admit) (gates : Ceiling → Gate) (id : ℕ) : Prop where
  planned : a.Planned
  held : ∀ c ∈ a.holds,
    (gates c).calls.lookup id = some (.holding a.units)
  asks : ∀ c, a.next? = some c → (gates c).Asks id a.units
  clear : ∀ c, c ∉ a.holds → a.next? ≠ some c →
    (gates c).calls.lookup id = none

variable {gates : Ceiling → Gate} {id : ℕ} {req : Request} {next : Ceiling}
  {held todo : List Ceiling}

theorem next_notMem_held (h : held.reverse ++ next :: todo = req.plan) :
    next ∉ held := by
  intro hmem
  have hnodup := h ▸ req.nodup_plan
  exact (List.nodup_append.mp hnodup).2.2 next (List.mem_reverse.mpr hmem) next
    List.mem_cons_self rfl

theorem nodup_held (h : held.reverse ++ next :: todo = req.plan) :
    held.Nodup := by
  have hnodup := h ▸ req.nodup_plan
  exact List.nodup_reverse.mp (List.nodup_append.mp hnodup).1

/-- Others' accesses do not matter. -/
theorem Consistent.of_lookup_eq {a : Admit} (h : a.Consistent gates id)
    {gates' : Ceiling → Gate}
    (heq : ∀ c, (gates' c).calls.lookup id = (gates c).calls.lookup id) :
    a.Consistent gates' id where
  planned := h.planned
  held := fun c hc => (heq c).symm ▸ h.held c hc
  asks := by
    intro c hc
    simp only [Gate.Asks, heq c]
    exact h.asks c hc
  clear := fun c hc hnext => (heq c).trans (h.clear c hc hnext)

/-- The call of `acquire` may be anywhere, but asks for the weight. -/
theorem Consistent.access_next
    (h : (Admit.acquiring req held next todo).Consistent gates id)
    {gate : Gate} (hgate : gate.Asks id (max req.weight 1)) :
    (Admit.acquiring req held next todo).Consistent
      (Function.update gates next gate) id where
  planned := h.planned
  held := by
    intro c hc
    rw [Function.update_of_ne
      (ne_of_mem_of_not_mem hc (next_notMem_held h.planned))]
    exact h.held c hc
  asks := by
    intro c hc
    cases hc
    rwa [Function.update_self]
  clear := by
    intro c hc hnext
    rw [Function.update_of_ne fun heq : c = next => hnext (heq ▸ rfl)]
    exact h.clear c hc hnext

/-- A call of `acquire` that comes back without a permit leaves only the
permits acquired before. -/
theorem Consistent.leave_next
    (h : (Admit.acquiring req held next todo).Consistent gates id)
    {gate : Gate} (hgate : gate.calls.lookup id = none) (outcome : Outcome) :
    (Admit.releasing req held outcome).Consistent
      (Function.update gates next gate) id where
  planned := nodup_held h.planned
  held := (h.access_next (Gate.asks_of_none _ hgate)).held
  asks := nofun
  clear := by
    intro c hc _
    by_cases hne : c = next
    · subst hne
      rw [Function.update_self, hgate]
    · exact (h.access_next (Gate.asks_of_none _ hgate)).clear c hc
        fun heq => hne (Option.some.inj heq).symm

/-- A call of `acquire` comes back with a permit. -/
theorem Consistent.acquired {units : ℕ}
    (h : (Admit.acquiring req held next todo).Consistent gates id)
    (hnext : (gates next).calls.lookup id = some (.holding units)) :
    (Controller.acquired req (next :: held) todo).Consistent gates id := by
  have hweight : units = max req.weight 1 := by
    have hasks := h.asks next rfl
    simp only [Gate.Asks, hnext] at hasks
    exact hasks
  have hheld : ∀ c ∈ next :: held,
      (gates c).calls.lookup id = some (.holding (max req.weight 1)) := by
    intro c hc
    rcases List.mem_cons.mp hc with rfl | hold
    · rw [hnext, hweight]
    · exact h.held c hold
  have hclear : ∀ c, c ∉ next :: held → (gates c).calls.lookup id = none := by
    intro c hc
    have hne : c ≠ next := fun heq => hc (heq ▸ List.mem_cons_self)
    exact h.clear c (fun hold => hc (List.mem_cons_of_mem _ hold))
      fun heq => hne (Option.some.inj heq).symm
  have hplan : held.reverse ++ next :: todo = req.plan := h.planned
  cases todo with
  | nil =>
      have hmem : ∀ c, c ∈ req.plan ↔ c ∈ next :: held := by
        intro c
        rw [← hplan]
        simp [or_comm]
      exact ⟨trivial, fun c hc => hheld c ((hmem c).mp hc),
        fun c hc => absurd hc (Option.some_ne_none c).symm,
        fun c hc _ => hclear c (fun hin => hc ((hmem c).mpr hin))⟩
  | cons next' todo =>
      refine ⟨?_, hheld, ?_, fun c hc _ => hclear c hc⟩
      · simp only [Controller.acquired, Planned, List.reverse_cons,
          List.append_assoc, List.singleton_append]
        exact hplan
      · intro c hc
        cases hc
        -- The plan has no limiter twice, so there is no call there yet.
        refine Gate.asks_of_none _ (hclear _ fun hmem => ?_)
        have hnodup := hplan ▸ req.nodup_plan
        simp only [List.nodup_append, List.mem_reverse, List.nodup_cons,
          List.mem_cons] at hnodup
        rcases List.mem_cons.mp hmem with rfl | hold
        · exact hnodup.2.1.1 (.inl rfl)
        · exact hnodup.2.2 _ hold _ (.inr (.inl rfl)) rfl

end Admit

namespace Controller

/-! ## Steps -/

structure Inv (s : Controller) (limits : Ceiling → ℕ) : Prop where
  fixed : ∀ c, (s.gates c).Fixed (limits c)
  lined : ∀ c, (s.gates c).Lined
  consistent : ∀ id, (s.admits id).Consistent s.gates id

variable {s : Controller} {limits : Ceiling → ℕ} {id : ℕ} {req : Request}
  {next : Ceiling} {held todo : List Ceiling} {outcome : Outcome}

theorem Inv.of_state (h : s.Inv limits) {state : Admit}
    (hstate : s.admits id = state) : state.Consistent s.gates id :=
  hstate ▸ h.consistent id

theorem Inv.goTo (h : s.Inv limits) {state : Admit}
    (hstate : state.Consistent s.gates id) : (s.goTo id state).Inv limits where
  fixed := h.fixed
  lined := h.lined
  consistent :=
    (Function.forall_update_iff s.admits
      fun id a => a.Consistent s.gates id).mpr
        ⟨hstate, fun id' _ => h.consistent id'⟩

theorem Inv.access (h : s.Inv limits) {ceiling : Ceiling} {op : Gate.Op}
    {state : Admit} (hop : op.call = some id)
    (hstate : state.Consistent
      (Function.update s.gates ceiling ((s.gates ceiling).step op)) id) :
    (s.access id ceiling op state).Inv limits where
  fixed :=
    (Function.forall_update_iff s.gates fun c g => g.Fixed (limits c)).mpr
      ⟨(h.fixed ceiling).step (Gate.ne_resize_of_call hop),
        fun c _ => h.fixed c⟩
  lined :=
    (Function.forall_update_iff s.gates fun _ g => g.Lined).mpr
      ⟨(h.lined ceiling).step op, fun c _ => h.lined c⟩
  consistent := by
    refine (Function.forall_update_iff s.admits
      fun id a => a.Consistent _ id).mpr ⟨hstate, fun id' hid => ?_⟩
    have hne : op.call ≠ some id' :=
      fun heq => hid (Option.some.inj (heq.symm.trans hop))
    exact (h.consistent id').of_lookup_eq
      ((Function.forall_update_iff s.gates fun c g =>
        g.calls.lookup id' = (s.gates c).calls.lookup id').mpr
          ⟨Gate.lookup_step_of_ne _ hne, fun _ _ => rfl⟩)

theorem Inv.advance (h : s.Inv limits)
    (hstate : (Admit.acquiring req held next todo).Consistent s.gates id) :
    (s.advance id req held next todo).Inv limits := by
  have hasks : ∀ op : Gate.Op,
      (∀ n, op = .tryAcquire id n → (Weight.ofNat n : ℕ) = max req.weight 1) →
        ((s.gates next).step op).Asks id (max req.weight 1) :=
    fun op => ((s.gates next).move_step op).asks (h.lined next)
      (hstate.asks next rfl)
  unfold Controller.advance
  split
  · exact h.access rfl (hstate.access_next (hasks _ (by rintro n ⟨⟩; rfl)))
  · rename_i weight hcall
    split_ifs with hqueue
    · exact h.access rfl
        (hstate.leave_next (Gate.lookup_step_takeSlot hcall hqueue) _)
    · exact h.access rfl (hstate.access_next (hasks _ nofun))
  · rename_i hcall
    exact h.access rfl (hstate.leave_next (Gate.lookup_step_shed hcall) _)
  · exact h.access rfl (hstate.access_next (hasks _ nofun))
  · exact h.access rfl (hstate.access_next (hasks _ nofun))
  · rename_i units hcall
    exact h.goTo (hstate.acquired hcall)

theorem Inv.giveUp (h : s.Inv limits) (id : ℕ) (outcome : Outcome) :
    (s.giveUp id outcome).Inv limits := by
  unfold Controller.giveUp
  split
  · rename_i req held next todo hstate
    split
    · rename_i hcall
      exact h.access rfl ((h.of_state hstate).leave_next
        (Gate.lookup_step_cancel hcall) outcome)
    · exact h
  · exact h

theorem Inv.admitRequest (h : s.Inv limits) (habsent : s.admits id = .absent)
    (req : Request) : (s.goTo id (acquired req [] req.plan)).Inv limits := by
  have hclear : ∀ c, (s.gates c).calls.lookup id = none := fun c =>
    (h.of_state habsent).clear c List.not_mem_nil (Option.some_ne_none c).symm
  refine h.goTo ?_
  cases hplan : req.plan with
  | nil => exact ⟨trivial, by simp [acquired, Admit.holds, hplan],
      nofun, fun c _ _ => hclear c⟩
  | cons next todo => exact ⟨hplan.symm, by simp [acquired, Admit.holds],
      fun c _ => Gate.asks_of_none _ (hclear c), fun c _ _ => hclear c⟩

theorem Inv.release (h : s.Inv limits) {ceiling : Ceiling}
    (hstate : s.admits id = .releasing req (ceiling :: held) outcome) :
    (s.access id ceiling (.drop id)
      (.releasing req held outcome)).Inv limits := by
  have hconsistent := h.of_state hstate
  obtain ⟨hnotMem, hnodup⟩ := List.nodup_cons.mp hconsistent.planned
  have hunits := hconsistent.held ceiling List.mem_cons_self
  refine h.access rfl ⟨hnodup, ?_, ?_, ?_⟩
  · intro c hc
    rw [Function.update_of_ne (ne_of_mem_of_not_mem hc hnotMem)]
    exact hconsistent.held c (List.mem_cons_of_mem _ hc)
  · exact nofun
  · intro c hc _
    by_cases hne : c = ceiling
    · subst hne
      rw [Function.update_self, Gate.lookup_step_drop hunits]
    · rw [Function.update_of_ne hne]
      refine hconsistent.clear c (fun hin => ?_) (Option.some_ne_none c).symm
      exact (List.mem_cons.mp hin).elim hne hc

theorem Inv.step (h : s.Inv limits) (op : Op) : (s.step op).Inv limits := by
  cases op with
  | admitRequest id req =>
      simp only [Controller.step]
      split
      · rename_i habsent
        split_ifs
        · have hconsistent := h.of_state habsent
          exact h.goTo ⟨trivial, by simp [Admit.holds],
            hconsistent.asks, hconsistent.clear⟩
        · exact h.admitRequest habsent req
      · exact h
  | advance id =>
      simp only [Controller.step]
      split
      · rename_i req held next todo hstate
        exact h.advance (h.of_state hstate)
      · exact h
  | timeout id | cancel id => exact h.giveUp id _
  | drop id =>
      simp only [Controller.step]
      split
      · rename_i req hstate
        have hconsistent := h.of_state hstate
        exact h.goTo ⟨List.nodup_reverse.mpr req.nodup_plan,
          fun c hc => hconsistent.held c (List.mem_reverse.mp hc),
          hconsistent.asks, fun c hc => hconsistent.clear c fun hin =>
            hc (List.mem_reverse.mpr hin)⟩
      · exact h
  | release id =>
      simp only [Controller.step]
      split
      · rename_i hstate
        have hconsistent := h.of_state hstate
        exact h.goTo ⟨trivial, by simp [Admit.holds], nofun, hconsistent.clear⟩
      · rename_i hstate
        exact h.release hstate
      · exact h

/-! ## Runs -/

/-- The configured maximum of a ceiling. -/
def maximum (globalMax : ℕ) (priorities : Priorities) (routes : ℕ → ℕ × ℕ) :
    Ceiling → ℕ
  | .route limiter => (routes limiter).1
  | .tier priority => tierCeiling globalMax (priorities.percentFor priority)
  | .global => globalMax

theorem inv_new (globalMax queueMax : ℕ) (priorities : Priorities)
    (routes : ℕ → ℕ × ℕ) :
    (new globalMax queueMax priorities routes).Inv
      (maximum globalMax priorities routes) where
  fixed
    | .route _ => Gate.fixed_new _ _
    | .tier _ => Gate.fixed_new _ _
    | .global => Gate.fixed_new _ _
  lined
    | .route _ => Gate.lined_new _ _
    | .tier _ => Gate.lined_new _ _
    | .global => Gate.lined_new _ _
  consistent := by
    refine fun id => ⟨trivial, by simp [new, Admit.holds],
      nofun, fun c _ _ => ?_⟩
    cases c <;> exact AList.lookup_empty _

theorem inv_run (globalMax queueMax : ℕ) (priorities : Priorities)
    (routes : ℕ → ℕ × ℕ) (ops : List Op) :
    (run step (new globalMax queueMax priorities routes) ops).Inv
      (maximum globalMax priorities routes) :=
  run_invariant
    (P := fun s : Controller => s.Inv (maximum globalMax priorities routes))
    (fun _ op h => h.step op)
    (inv_new globalMax queueMax priorities routes) ops

/-- A request that has ended has no call and no permit anywhere. -/
theorem Inv.lookup_of_ended (h : s.Inv limits)
    (hended : s.admits id = .ended outcome) (c : Ceiling) :
    (s.gates c).calls.lookup id = none :=
  (h.of_state hended).clear c List.not_mem_nil (Option.some_ne_none c).symm

/-- A permit is given back whole. -/
theorem Inv.live_release (h : s.Inv limits) {c : Ceiling}
    (hstate : s.admits id = .releasing req (c :: held) outcome) :
    max req.weight 1 + ((s.step (.release id)).gates c).live =
      (s.gates c).live := by
  have hunits := (h.of_state hstate).held c List.mem_cons_self
  simp only [Controller.step, hstate, Controller.access, Function.update_self,
    Gate.step, hunits]
  exact Gate.live_leave hunits _

/-- After an operation and the releases that follow it, a request has ended
with the outcome and has no call anywhere; what it held on some limiters is
held no more, and nothing else has changed hands. -/
structure GivesBack (s : Controller) (op : Op) (id units : ℕ)
    (held : List Ceiling) (outcome : Outcome) : Prop where
  ended : (run step s (op :: List.replicate (held.length + 1)
    (.release id))).admits id = .ended outcome
  clear : ∀ c, ((run step s (op :: List.replicate (held.length + 1)
    (.release id))).gates c).calls.lookup id = none
  live : ∀ c, ((run step s (op :: List.replicate (held.length + 1)
    (.release id))).gates c).live + (if c ∈ held then units else 0) =
      (s.gates c).live

/-- A request gives back one permit after the other. -/
theorem Inv.releases (h : s.Inv limits)
    (hstate : s.admits id = .releasing req held outcome) :
    (run Controller.step s (List.replicate (held.length + 1)
        (.release id))).admits id = .ended outcome ∧
      ∀ c, ((run Controller.step s (List.replicate (held.length + 1)
        (.release id))).gates c).live +
          (if c ∈ held then max req.weight 1 else 0) = (s.gates c).live := by
  induction held generalizing s with
  | nil => simp [Controller.step, hstate, Controller.goTo]
  | cons ceiling held ih =>
      obtain ⟨hnotMem, -⟩ := List.nodup_cons.mp (h.of_state hstate).planned
      have hstep : s.step (.release id) =
          s.access id ceiling (.drop id) (.releasing req held outcome) := by
        simp only [Controller.step, hstate]
      have hlive := h.live_release hstate
      obtain ⟨hended, hrest⟩ := ih (h.step (.release id))
        (by rw [hstep]; exact Function.update_self _ _ _)
      rw [List.length_cons, List.replicate_succ, run_cons]
      refine ⟨hended, fun c => ?_⟩
      have hc := hrest c
      by_cases heq : c = ceiling
      · subst heq
        rw [if_neg hnotMem] at hc
        rw [if_pos List.mem_cons_self]
        omega
      · have hsame : (s.step (.release id)).gates c = s.gates c := by
          rw [hstep]
          exact Function.update_of_ne heq _ _
        rw [hsame] at hc
        simpa only [List.mem_cons, heq, false_or] using hc

theorem Inv.givesBack (h : s.Inv limits) {op : Op}
    (hstate : (s.step op).admits id = .releasing req held outcome)
    (hlive : ∀ c, ((s.step op).gates c).live = (s.gates c).live) :
    GivesBack s op id (max req.weight 1) held outcome := by
  obtain ⟨hended, hback⟩ := (h.step op).releases hstate
  exact {
    ended := hended
    clear := (run_invariant (P := fun s : Controller => s.Inv limits)
      (fun _ op h => h.step op) h _).lookup_of_ended hended
    live := fun c => (hback c).trans (hlive c) }

/-- Leaving the line changes nothing that is held. -/
theorem Inv.givesBack_giveUp (h : s.Inv limits) {op : Op}
    (hop : s.step op = s.giveUp id outcome)
    (hstate : s.admits id = .acquiring req held next todo) {weight : Weight}
    (hcall : (s.gates next).calls.lookup id = some (.queued weight)) :
    GivesBack s op id (max req.weight 1) held outcome := by
  have hgive : s.step op =
      s.access id next (.cancel id) (.releasing req held outcome) := by
    rw [hop]
    simp only [Controller.giveUp, hstate, hcall]
  refine h.givesBack (by rw [hgive]; exact Function.update_self _ _ _)
    fun c => ?_
  rw [hgive]
  by_cases hc : c = next
  · subst hc
    simp only [Controller.access, Function.update_self, Gate.step, hcall]
    exact Gate.live_leave_of_unheld hcall rfl _
  · simp only [Controller.access, Function.update_of_ne hc]

/-- For every interleaving of admissions, refusals, cancellations and drops:
what is held on each limiter is within its maximum; what is not held is free or
collected by somebody in line; a request that has ended, in whatever way, holds
nothing; an admitted one holds its weight on every limiter in its plan, and a
drop and its releases take it off all of them; one whose wait times out or that
goes away gives back what it had; and each permit given back, with whatever in
between, is given back whole. -/
theorem admission_ceilings (globalMax queueMax : ℕ) (priorities : Priorities)
    (routes : ℕ → ℕ × ℕ) (ops : List Op) :
    let s := run step (new globalMax queueMax priorities routes) ops
    ((s.gates .global).live ≤ globalMax ∧
      (∀ priority, (s.gates (.tier priority)).live ≤
        tierCeiling globalMax (priorities.percentFor priority)) ∧
      (∀ limiter, (s.gates (.route limiter)).live ≤ (routes limiter).1)) ∧
    (∀ c, (s.gates c).limiter.sem.available +
      (s.gates c).limiter.sem.collected + (s.gates c).live =
        maximum globalMax priorities routes c) ∧
    (∀ id outcome, s.admits id = .ended outcome →
      ∀ c, (s.gates c).calls.lookup id = none) ∧
    (∀ id req, s.admits id = .admitted req →
      (∀ c ∈ req.plan, (s.gates c).calls.lookup id =
        some (.holding (max req.weight 1))) ∧
      GivesBack s (.drop id) id (max req.weight 1) req.plan.reverse
        .released) ∧
    (∀ id req held next todo weight,
      s.admits id = .acquiring req held next todo →
      (s.gates next).calls.lookup id = some (.queued weight) →
        GivesBack s (.timeout id) id (max req.weight 1) held
            (.shed .queueTimeout) ∧
          GivesBack s (.cancel id) id (max req.weight 1) held .cancelled) ∧
    ∀ id req c held outcome,
      s.admits id = .releasing req (c :: held) outcome →
        (s.step (.release id)).admits id = .releasing req held outcome ∧
        max req.weight 1 + ((s.step (.release id)).gates c).live =
          (s.gates c).live := by
  intro s
  have h : s.Inv (maximum globalMax priorities routes) :=
    inv_run globalMax queueMax priorities routes ops
  refine ⟨⟨(h.fixed .global).live_le, fun priority =>
    (h.fixed (.tier priority)).live_le, fun limiter =>
      (h.fixed (.route limiter)).live_le⟩, fun c => ?_,
    fun id outcome hended => h.lookup_of_ended hended,
    fun id req hadmitted => ⟨?_, ?_⟩,
    fun id req held next todo weight hstate hcall =>
      ⟨h.givesBack_giveUp rfl hstate hcall,
        h.givesBack_giveUp rfl hstate hcall⟩,
    fun id req c held outcome hstate => ⟨?_, h.live_release hstate⟩⟩
  · have hconserved : (s.gates c).limiter.sem.units + (s.gates c).live =
        (s.gates c).limiter.limit + (s.gates c).limiter.debt :=
      (h.fixed c).conserved
    rwa [(h.fixed c).limit_eq, (h.fixed c).debt_eq] at hconserved
  · exact (h.of_state hadmitted).held
  · have hdrop : s.step (.drop id) =
        s.goTo id (.releasing req req.plan.reverse .released) := by
      simp only [Controller.step, hadmitted]
    exact h.givesBack (by rw [hdrop]; exact Function.update_self _ _ _)
      fun c => by rw [hdrop]; rfl
  · simp only [Controller.step, hstate]
    exact Function.update_self _ _ _

/-- One request takes both units of the global ceiling, a second waits in line
there, and a third is refused and gives back what it holds on its tier.  The
first can drop its two units, and the second can go away with its one. -/
theorem admission_ceilings_refusal :
    let ops : List Op :=
      [.admitRequest 0 ⟨.unknown, none, .normal, 2⟩, .advance 0, .advance 0,
        .advance 0, .advance 0,
        .admitRequest 1 ⟨.unknown, none, .low, 0⟩, .advance 1, .advance 1,
        .advance 1, .advance 1, .advance 1,
        .admitRequest 2 ⟨.unknown, none, .high, 1⟩, .advance 2, .advance 2,
        .advance 2, .advance 2, .advance 2, .release 2, .release 2]
    let s := run step (new 2 1 {} fun _ => (1, 0)) ops
    s.admits 2 = .ended (.shed .queueFull) ∧
      (∀ c, (s.gates c).calls.lookup 2 = none) ∧
      (s.gates .global).live = 2 ∧
      GivesBack s (.drop 0) 0 2 [.global, .tier .normal] .released ∧
      GivesBack s (.cancel 1) 1 1 [.tier .low] .cancelled := by
  intro ops s
  obtain ⟨-, -, hended, hadmitted, hwaiting, -⟩ :=
    admission_ceilings 2 1 {} (fun _ => (1, 0)) ops
  exact ⟨rfl, hended 2 (.shed .queueFull) rfl, by decide,
    (hadmitted 0 ⟨.unknown, none, .normal, 2⟩ rfl).2,
    (hwaiting 1 ⟨.unknown, none, .low, 0⟩ [.tier .low] .global []
      (Weight.ofNat 0) rfl rfl).2⟩

/-! ## Room on every limiter -/

/-- A request can have its weight at once. -/
structure Room (g : Gate) (id weight : ℕ) : Prop where
  fresh : g.calls.lookup id = none
  le_available : (Weight.ofNat weight : ℕ) ≤ g.limiter.sem.available

theorem lookup_tryAcquire_of_room {g : Gate} {weight : ℕ}
    (h : Room g id weight) :
    (g.step (.tryAcquire id weight)).calls.lookup id =
      some (.holding (Weight.ofNat weight)) := by
  have hsem : g.limiter.sem.tryAcquire (Weight.ofNat weight) =
      some { g.limiter.sem with
        available := g.limiter.sem.available - (Weight.ofNat weight : ℕ) } :=
    if_pos h.le_available
  simp only [Gate.step, h.fresh, hsem, Gate.keep, AList.lookup_insert]

/-- Two accesses take a request past a limiter with room. -/
theorem advance_of_room
    (hstate : s.admits id = .acquiring req held next todo)
    (hroom : Room (s.gates next) id req.weight) :
    (s.step (.advance id)).step (.advance id) =
      (s.access id next (.tryAcquire id req.weight)
        (.acquiring req held next todo)).goTo id
          (acquired req (next :: held) todo) := by
  have hfirst : s.step (.advance id) =
      s.access id next (.tryAcquire id req.weight)
        (.acquiring req held next todo) := by
    simp only [Controller.step, hstate, Controller.advance, hroom.fresh]
  rw [hfirst]
  have hheld := lookup_tryAcquire_of_room hroom
  simp only [Controller.step, Controller.access, Function.update_self,
    Controller.advance, hheld]

/-- The accesses to the limiters that are left, one after the other. -/
theorem admits_of_room (hnodup : (next :: todo).Nodup)
    (hstate : s.admits id = .acquiring req held next todo)
    (hroom : ∀ c ∈ next :: todo, Room (s.gates c) id req.weight) :
    (run step s (List.replicate (2 * (next :: todo).length)
      (.advance id))).admits id = .admitted req := by
  induction todo generalizing s held next with
  | nil =>
      rw [List.length_singleton, List.replicate_succ, List.replicate_one,
        run_cons, run_cons, run_nil,
        advance_of_room hstate (hroom next List.mem_cons_self)]
      exact Function.update_self _ _ _
  | cons next' todo ih =>
      have hlength : 2 * (next :: next' :: todo).length =
          2 * (next' :: todo).length + 1 + 1 := by
        simp only [List.length_cons]
        omega
      rw [hlength, List.replicate_succ, List.replicate_succ, run_cons,
        run_cons, advance_of_room hstate (hroom next List.mem_cons_self)]
      obtain ⟨hnotMem, hrest⟩ := List.nodup_cons.mp hnodup
      refine ih hrest (Function.update_self _ _ _) fun c hc => ?_
      have hne : c ≠ next := fun heq => hnotMem (heq ▸ hc)
      simp only [Controller.goTo, Controller.access, Function.update_of_ne hne]
      exact hroom c (List.mem_cons_of_mem next hc)

/-- A request that finds room on every limiter of its plan is admitted without
a wait. -/
theorem admitted_of_room (habsent : s.admits id = .absent)
    (hclass : req.class'.consumesOriginPermit = true)
    (hroom : ∀ c ∈ req.plan, Room (s.gates c) id req.weight) :
    (run step s (.admitRequest id req ::
      List.replicate (2 * req.plan.length) (.advance id))).admits id =
        .admitted req := by
  have hstart : s.step (.admitRequest id req) =
      s.goTo id (acquired req [] req.plan) := by
    simp [Controller.step, habsent, hclass]
  rw [run_cons, hstart]
  have hnodup := req.nodup_plan
  cases hplan : req.plan with
  | nil => simp [Controller.goTo, acquired]
  | cons next todo =>
      rw [hplan] at hroom hnodup
      exact admits_of_room hnodup (Function.update_self _ _ _) hroom

end Controller

end Harmost.Admission
