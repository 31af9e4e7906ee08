import Harmost.Admission.Limiter
import Harmost.Support.Text
import Mathlib.Algebra.BigOperators.Group.Finset.Basic
import Mathlib.Algebra.Order.BigOperators.Group.Finset

/-!
# Route limiters across reloads

The controller keeps one limiter for each route id, and requests keep the one
they were given.  A reload resizes the limiters of the routes it lists, creates
those that are missing and drops the others from the registry; a dropped
limiter lives on in the hands of the requests that use it.
-/

namespace Harmost.Admission

open Harmost.Support

/-- A route of a reloaded configuration: its id, maximum and queue bound. -/
structure RouteLimits where
  id : Str
  max : ℕ
  queueMax : ℕ

/-- The route limiters of a controller. -/
structure Registry where
  /-- How many limiters were ever created. -/
  count : ℕ := 0
  gates : ℕ → Gate := fun _ => .new 0 0
  /-- The route each was created for. -/
  owner : ℕ → Str := fun _ => []
  routes : AssocMap Str ℕ := ∅
  /-- The limiter that a request was given and still has. -/
  handles : AssocMap ℕ ℕ := ∅
  /-- The maximum last configured for a route. -/
  configured : Str → ℕ := fun _ => 0

namespace Registry

inductive Op where
  | applyLimits (routes : List RouteLimits)
  | routeLimiter (request : ℕ) (route : RouteLimits)
  /-- A request accesses the limiter it was given. -/
  | access (op : Gate.Op)
  /-- A request that has neither a call nor a permit drops its limiter. -/
  | letGo (request : ℕ)

variable (s : Registry)

def create (route : RouteLimits) : Registry :=
  { s with
    count := s.count + 1
    gates := Function.update s.gates s.count (.new route.max route.queueMax)
    owner := Function.update s.owner s.count route.id
    routes := s.routes.insert route.id s.count
    configured := Function.update s.configured route.id route.max }

/-- One turn of the loop of `apply_limits`. -/
def applyRoute (route : RouteLimits) : Registry :=
  match s.routes.lookup route.id with
  | some existing =>
      { s with
        gates := Function.update s.gates existing
          (((s.gates existing).step (.resize route.max)).step
            (.setQueue route.queueMax))
        configured := Function.update s.configured route.id route.max }
  | none => s.create route

def applyLimits (routes : List RouteLimits) : Registry :=
  let s := run applyRoute s routes
  { s with
    routes := s.routes.retain fun id =>
      (routes.map RouteLimits.id).contains id }

/-- Get or create the limiter of a route. -/
def routeLimiter (request : ℕ) (route : RouteLimits) : Registry :=
  match s.routes.lookup route.id with
  | some existing => { s with handles := s.handles.insert request existing }
  | none =>
      let s' := s.create route
      { s' with handles := s'.handles.insert request s.count }

def step (s : Registry) : Op → Registry
  | .applyLimits routes => s.applyLimits routes
  | .routeLimiter request route =>
      match s.handles.lookup request with
      | some _ => s
      | none => s.routeLimiter request route
  | .access op =>
      match op.call.bind s.handles.lookup with
      | some o =>
          { s with gates := Function.update s.gates o ((s.gates o).step op) }
      | none => s
  | .letGo request =>
      match s.handles.lookup request with
      | some o =>
          if (s.gates o).calls.lookup request = none then
            { s with handles := s.handles.erase request }
          else s
      | none => s

/-- What an operation can do, and when. -/
inductive Effect : Op → Registry → Prop
  /-- It is not possible now. -/
  | idle {op : Op} : Effect op s
  | reloaded {routes : List RouteLimits} :
      Effect (.applyLimits routes) (s.applyLimits routes)
  | given {request : ℕ} {route : RouteLimits}
      (hfree : s.handles.lookup request = none) :
      Effect (.routeLimiter request route) (s.routeLimiter request route)
  | accessed {op : Gate.Op} {request o : ℕ} (hop : op.call = some request)
      (hhandle : s.handles.lookup request = some o) :
      Effect (.access op)
        { s with gates := Function.update s.gates o ((s.gates o).step op) }
  | gone {request o : ℕ} (hhandle : s.handles.lookup request = some o)
      (hidle : (s.gates o).calls.lookup request = none) :
      Effect (.letGo request) { s with handles := s.handles.erase request }

theorem effect_step (op : Op) : Effect s op (s.step op) := by
  cases op with
  | applyLimits routes => exact .reloaded
  | routeLimiter request route =>
      simp only [step]
      split
      · exact .idle
      · exact .given ‹_›
  | access op =>
      simp only [step]
      split
      · rename_i o hbind
        obtain ⟨request, hop, hhandle⟩ := Option.bind_eq_some_iff.mp hbind
        exact .accessed hop hhandle
      · exact .idle
  | letGo request =>
      simp only [step]
      split
      · split_ifs with hidle
        · exact .gone ‹_› hidle
        · exact .idle
      · exact .idle

/-- The weight held for a route, on every limiter ever created for it. -/
def held (id : Str) : ℕ :=
  ∑ o ∈ Finset.range s.count with s.owner o = id, (s.gates o).live

/-! ## Reloads that leave nobody behind -/

/-- A resize of a route's limiter is orderly. -/
def SteadyRoute (s : Registry) (route : RouteLimits) : Prop :=
  ∀ o, s.routes.lookup route.id = some o →
    (s.gates o).Orderly (.resize route.max)

/-- A reload lists the route of every limiter in use, and limiters are used in
an orderly way. -/
def Steady (s : Registry) : Op → Prop
  | .applyLimits routes =>
      Guarded applyRoute SteadyRoute s routes ∧
        ∀ request o, s.handles.lookup request = some o →
          s.owner o ∈ routes.map RouteLimits.id
  | .access op => ∀ o, op.call.bind s.handles.lookup = some o →
      (s.gates o).Orderly op
  | .routeLimiter _ _ | .letGo _ => True

structure Inv (s : Registry) : Prop where
  conserved : ∀ o, (s.gates o).Conserved
  debtFirst : ∀ o, (s.gates o).limiter.DebtFirst
  registered : ∀ id o, s.routes.lookup id = some o →
    o < s.count ∧ s.owner o = id ∧ (s.gates o).limiter.limit = s.configured id
  /-- The limiters in use are those of the registry. -/
  current : ∀ request o, s.handles.lookup request = some o →
    o < s.count ∧ s.routes.lookup (s.owner o) = some o
  /-- Only who has a limiter calls it. -/
  calls : ∀ o request, (s.gates o).calls.lookup request ≠ none →
    s.handles.lookup request = some o

theorem inv_empty : ({} : Registry).Inv where
  conserved := fun _ => Gate.conserved_new 0 0
  debtFirst := fun _ howed => absurd howed (Nat.lt_irrefl 0)
  registered := fun id o h => by simp at h
  current := fun request o h => by simp at h
  calls := fun o request h => absurd (AList.lookup_empty request) h

/-! ## Steps -/

variable {s : Registry}

/-- What holds of all limiters still does when one of them is replaced. -/
theorem forall_update {P : Gate → Prop} {gates : ℕ → Gate} {o : ℕ}
    {gate : Gate} (hgate : P gate) (h : ∀ o, P (gates o)) :
    ∀ o', P (Function.update gates o gate o') :=
  (Function.forall_update_iff gates fun _ => P).mpr ⟨hgate, fun o' _ => h o'⟩

variable {routes : List RouteLimits} {route : RouteLimits} {request : ℕ}

theorem Inv.create (h : s.Inv) (hnew : s.routes.lookup route.id = none) :
    (s.create route).Inv where
  conserved := forall_update (Gate.conserved_new _ _) h.conserved
  debtFirst := forall_update (P := fun gate => gate.limiter.DebtFirst)
    (fun howed => absurd howed (Nat.lt_irrefl 0)) h.debtFirst
  registered := by
    intro id o hid
    by_cases heq : id = route.id
    · subst heq
      rw [Registry.create, AList.lookup_insert] at hid
      cases hid
      exact ⟨Nat.lt_succ_self _, by simp [Registry.create],
        by simp [Registry.create, Gate.new, Limiter.new]⟩
    · rw [Registry.create, AList.lookup_insert_ne heq] at hid
      obtain ⟨hlt, howner, hlimit⟩ := h.registered id o hid
      exact ⟨Nat.lt_succ_of_lt hlt, by simpa [Registry.create, hlt.ne],
        by simpa [Registry.create, hlt.ne, heq]⟩
  current := by
    intro request o hhandle
    obtain ⟨hlt, hroute⟩ := h.current request o hhandle
    have hne : s.owner o ≠ route.id := by
      intro heq
      rw [heq, hnew] at hroute
      cases hroute
    have howner : (s.create route).owner o = s.owner o :=
      Function.update_of_ne hlt.ne _ _
    rw [howner]
    exact ⟨Nat.lt_succ_of_lt hlt, (AList.lookup_insert_ne hne).trans hroute⟩
  calls := by
    refine (Function.forall_update_iff s.gates fun o gate => ∀ request,
      gate.calls.lookup request ≠ none →
        s.handles.lookup request = some o).mpr ?_
    exact ⟨fun request hcall => absurd (AList.lookup_empty request) hcall,
      fun o _ => h.calls o⟩

/-- One limiter changes, and perhaps the maximum configured for its route. -/
theorem Inv.replace (h : s.Inv) {o : ℕ} {gate : Gate} {configured : Str → ℕ}
    (hconserved : gate.Conserved) (hdebtFirst : gate.limiter.DebtFirst)
    (hcalls : ∀ request, gate.calls.lookup request ≠ none →
      s.handles.lookup request = some o)
    (hlimit : ∀ id, s.routes.lookup id = some o →
      gate.limiter.limit = configured id)
    (hothers : ∀ id, s.routes.lookup id ≠ some o →
      configured id = s.configured id) :
    Inv { s with
      gates := Function.update s.gates o gate
      configured := configured } where
  conserved := forall_update hconserved h.conserved
  debtFirst := forall_update (P := fun gate => gate.limiter.DebtFirst)
    hdebtFirst h.debtFirst
  registered := by
    intro id o' hid
    obtain ⟨hlt, howner, hold⟩ := h.registered id o' hid
    refine ⟨hlt, howner, ?_⟩
    by_cases ho : o' = o
    · subst ho
      simpa using hlimit id hid
    · have hne : s.routes.lookup id ≠ some o :=
        fun heq => ho (Option.some.inj (hid.symm.trans heq))
      simpa [ho, hothers id hne] using hold
  current := h.current
  calls := by
    refine (Function.forall_update_iff s.gates fun o' gate => ∀ request,
      gate.calls.lookup request ≠ none →
        s.handles.lookup request = some o').mpr ?_
    exact ⟨hcalls, fun o' _ => h.calls o'⟩

theorem Inv.resize (h : s.Inv) {o : ℕ}
    (hroute : s.routes.lookup route.id = some o)
    (horderly : (s.gates o).Orderly (.resize route.max)) :
    (s.applyRoute route).Inv := by
  have hresized := (s.gates o).effect_step (.resize route.max)
  have hqueue := ((s.gates o).step (.resize route.max)).effect_step
    (.setQueue route.queueMax)
  have hquiet : ((s.gates o).step (.resize route.max)).Orderly
      (.setQueue route.queueMax) := trivial
  obtain ⟨-, howner, -⟩ := h.registered route.id o hroute
  simp only [Registry.applyRoute, hroute]
  refine h.replace (((h.conserved o).of_effect hresized).of_effect hqueue)
    (Gate.debtFirst_of_effect hquiet (Gate.debtFirst_of_effect horderly
      (h.debtFirst o) hresized) hqueue) (fun request => h.calls o request) ?_ ?_
  · intro id hid
    have heq : id = route.id := (h.registered id o hid).2.1.symm.trans howner
    rw [heq, Function.update_self]
    exact Limiter.limit_resize _ _
  · intro id hid
    have hne : id ≠ route.id := by
      rintro rfl
      exact hid hroute
    exact Function.update_of_ne hne _ _

theorem Inv.applyRoute (h : s.Inv) (hsteady : s.SteadyRoute route) :
    (s.applyRoute route).Inv := by
  cases hroute : s.routes.lookup route.id with
  | some o => exact h.resize hroute (hsteady o hroute)
  | none =>
      simp only [Registry.applyRoute, hroute]
      exact h.create hroute

/-- What a reload leaves as it is before it drops limiters. -/
structure Extends (s s' : Registry) : Prop where
  handles : s'.handles = s.handles
  count : s.count ≤ s'.count
  owner : ∀ o < s.count, s'.owner o = s.owner o
  live : ∀ o < s.count, (s'.gates o).live = (s.gates o).live

theorem Extends.refl (s : Registry) : s.Extends s :=
  ⟨rfl, le_rfl, fun _ _ => rfl, fun _ _ => rfl⟩

theorem extends_create (s : Registry) (route : RouteLimits) :
    s.Extends (s.create route) where
  handles := rfl
  count := Nat.le_succ _
  owner := fun _ ho => Function.update_of_ne ho.ne _ _
  live := fun _ ho => by simp [Registry.create, ho.ne]

theorem extends_applyRoute (s : Registry) (route : RouteLimits) :
    s.Extends (s.applyRoute route) := by
  unfold Registry.applyRoute
  split
  · rename_i existing _
    refine ⟨rfl, le_rfl, fun _ _ => rfl, fun o _ => ?_⟩
    by_cases ho : o = existing
    · subst ho
      simp only [Function.update_self]
      rfl
    · simp only [Function.update_of_ne ho]
  · exact extends_create s route

theorem Extends.trans {s s' s'' : Registry} (h : s.Extends s')
    (h' : s'.Extends s'') : s.Extends s'' where
  handles := h'.handles.trans h.handles
  count := h.count.trans h'.count
  owner := fun o ho =>
    (h'.owner o (ho.trans_le h.count)).trans (h.owner o ho)
  live := fun o ho => (h'.live o (ho.trans_le h.count)).trans (h.live o ho)

theorem Inv.applyRoutes (h : s.Inv)
    (hsteady : Guarded Registry.applyRoute SteadyRoute s routes) :
    (run Registry.applyRoute s routes).Inv :=
  run_invariant_of_guarded (fun _ _ hok hinv => hinv.applyRoute hok) h hsteady

theorem extends_applyRoutes (s : Registry) (routes : List RouteLimits) :
    s.Extends (run applyRoute s routes) :=
  run_invariant (fun s' route hext => hext.trans (extends_applyRoute s' route))
    (Extends.refl s) routes

theorem Inv.applyLimits (h : s.Inv) (hsteady : s.Steady (.applyLimits routes)) :
    (s.applyLimits routes).Inv := by
  have hrun := h.applyRoutes hsteady.1
  have hext := extends_applyRoutes s routes
  refine ⟨hrun.conserved, hrun.debtFirst, ?_, ?_, hrun.calls⟩
  · intro id o hid
    exact hrun.registered id o (AssocMap.lookup_retain_eq_some.mp hid).1
  · intro request o hhandle
    obtain ⟨hlt, hroute⟩ := hrun.current request o hhandle
    refine ⟨hlt, AssocMap.lookup_retain_eq_some.mpr ⟨hroute, ?_⟩⟩
    have hold : s.handles.lookup request = some o := hext.handles ▸ hhandle
    have howner : (s.applyLimits routes).owner o = s.owner o :=
      hext.owner o (h.current request o hold).1
    rw [howner]
    exact List.contains_iff_mem.mpr (hsteady.2 request o hold)

/-- A request is given a limiter of the registry. -/
theorem Inv.handOut (h : s.Inv) {o : ℕ} {id : Str}
    (hfree : s.handles.lookup request = none)
    (hroute : s.routes.lookup id = some o) :
    Inv { s with handles := s.handles.insert request o } where
  conserved := h.conserved
  debtFirst := h.debtFirst
  registered := h.registered
  current := by
    intro request' o' hhandle
    rcases AssocMap.lookup_insert_cases hhandle with ⟨-, rfl⟩ | ⟨-, hold⟩
    · obtain ⟨hlt, howner, -⟩ := h.registered id o' hroute
      exact ⟨hlt, howner.symm ▸ hroute⟩
    · exact h.current request' o' hold
  calls := by
    intro o' request' hcall
    have hold := h.calls o' request' hcall
    have hne : request' ≠ request := by
      rintro rfl
      rw [hfree] at hold
      cases hold
    exact (AList.lookup_insert_ne hne).trans hold

theorem Inv.routeLimiter (h : s.Inv) (hfree : s.handles.lookup request = none)
    (route : RouteLimits) : (s.routeLimiter request route).Inv := by
  unfold Registry.routeLimiter
  split
  · rename_i existing hroute
    exact h.handOut hfree hroute
  · rename_i hroute
    exact (h.create hroute).handOut hfree
      (AList.lookup_insert (s := s.routes) (a := route.id) (b := s.count))

theorem Inv.access (h : s.Inv) {op : Gate.Op} {o : ℕ}
    (hop : op.call = some request) (hhandle : s.handles.lookup request = some o)
    (horderly : (s.gates o).Orderly op) :
    Inv { s with
      gates := Function.update s.gates o ((s.gates o).step op) } := by
  have heffect := (s.gates o).effect_step op
  refine h.replace ((h.conserved o).of_effect heffect)
    (Gate.debtFirst_of_effect horderly (h.debtFirst o) heffect) ?_ ?_
    (fun _ _ => rfl)
  · intro request' hcall
    by_cases heq : request' = request
    · exact heq ▸ hhandle
    · have hne : op.call ≠ some request' := by
        rw [hop]
        exact fun hsome => heq (Option.some.inj hsome).symm
      rw [Gate.lookup_step_of_ne _ hne] at hcall
      exact h.calls o request' hcall
  · intro id hid
    rw [Gate.limit_of_effect (Gate.ne_resize_of_call hop) heffect]
    exact (h.registered id o hid).2.2

theorem Inv.letGo (h : s.Inv) {o : ℕ}
    (hhandle : s.handles.lookup request = some o)
    (hidle : (s.gates o).calls.lookup request = none) :
    Inv { s with handles := s.handles.erase request } where
  conserved := h.conserved
  debtFirst := h.debtFirst
  registered := h.registered
  current := by
    intro request' o' hhandle'
    have hne : request' ≠ request := by
      rintro rfl
      simp at hhandle'
    rw [AList.lookup_erase_ne hne] at hhandle'
    exact h.current request' o' hhandle'
  calls := by
    intro o' request' hcall
    have hold := h.calls o' request' hcall
    have hne : request' ≠ request := by
      rintro rfl
      obtain rfl := Option.some.inj (hhandle.symm.trans hold)
      exact hcall hidle
    exact (AList.lookup_erase_ne hne).trans hold

theorem Inv.step (h : s.Inv) {op : Op} (hsteady : s.Steady op) :
    (s.step op).Inv := by
  have heffect := s.effect_step op
  generalize s.step op = s' at heffect ⊢
  cases heffect with
  | idle => exact h
  | reloaded => exact h.applyLimits hsteady
  | given hfree => exact h.routeLimiter hfree _
  | accessed hop hhandle =>
      exact h.access hop hhandle (hsteady _ (by rw [hop]; exact hhandle))
  | gone hhandle hidle => exact h.letGo hhandle hidle

/-! ## What is held for a route -/

/-- A limiter that is no longer registered holds nothing. -/
theorem Inv.live_eq_zero (h : s.Inv) {o : ℕ}
    (hroute : s.routes.lookup (s.owner o) ≠ some o) : (s.gates o).live = 0 := by
  refine Gate.live_eq_zero fun request => ?_
  by_contra hcall
  obtain ⟨-, hcurrent⟩ := h.current request o (h.calls o request hcall)
  exact hroute hcurrent

theorem Inv.held_eq (h : s.Inv) {id : Str} {o : ℕ}
    (hroute : s.routes.lookup id = some o) : s.held id = (s.gates o).live := by
  obtain ⟨hlt, howner, -⟩ := h.registered id o hroute
  refine Finset.sum_eq_single_of_mem o
    (Finset.mem_filter.mpr ⟨Finset.mem_range.mpr hlt, howner⟩) ?_
  intro o' ho' hne
  refine h.live_eq_zero fun heq => hne ?_
  rw [(Finset.mem_filter.mp ho').2, hroute] at heq
  exact (Option.some.inj heq).symm

theorem Inv.held_eq_zero (h : s.Inv) {id : Str}
    (hroute : s.routes.lookup id = none) : s.held id = 0 := by
  refine Finset.sum_eq_zero fun o ho => h.live_eq_zero fun heq => ?_
  rw [(Finset.mem_filter.mp ho).2, hroute] at heq
  cases heq

theorem live_le_held (s : Registry) {o : ℕ} (ho : o < s.count) :
    (s.gates o).live ≤ s.held (s.owner o) :=
  Finset.single_le_sum (f := fun o => (s.gates o).live)
    (fun _ _ => Nat.zero_le _)
    (Finset.mem_filter.mpr ⟨Finset.mem_range.mpr ho, rfl⟩)

/-- What neither adds units to an old limiter nor gives any to a new one raises
nothing. -/
theorem held_le_of_extends {s' : Registry} (h' : s'.Inv)
    (howner : ∀ o < s.count, s'.owner o = s.owner o)
    (hlive : ∀ o < s.count, (s'.gates o).live = (s.gates o).live)
    (hnew : ∀ o, s.count ≤ o → (s'.gates o).live = 0) (id : Str) :
    s'.held id ≤ s.held id := by
  cases hroute : s'.routes.lookup id with
  | none =>
      rw [h'.held_eq_zero hroute]
      exact Nat.zero_le _
  | some o =>
      rw [h'.held_eq hroute]
      by_cases ho : o < s.count
      · have hid : s.owner o = id :=
          (howner o ho).symm.trans (h'.registered id o hroute).2.1
        rw [hlive o ho, ← hid]
        exact s.live_le_held ho
      · rw [hnew o (Nat.not_lt.mp ho)]
        exact Nat.zero_le _

/-- Nobody has a limiter that is yet to be created. -/
theorem Inv.live_eq_zero_of_le (h : s.Inv) {o : ℕ} (ho : s.count ≤ o) :
    (s.gates o).live = 0 := by
  refine Gate.live_eq_zero fun request => ?_
  by_contra hcall
  exact (h.current request o (h.calls o request hcall)).1.not_ge ho

theorem Inv.held_applyLimits (h : s.Inv)
    (hsteady : s.Steady (.applyLimits routes)) (id : Str) :
    (s.applyLimits routes).held id ≤ s.held id := by
  have h' := h.applyLimits hsteady
  have hext := extends_applyRoutes s routes
  refine held_le_of_extends h' hext.owner hext.live (fun o ho => ?_) id
  refine Gate.live_eq_zero fun request => ?_
  by_contra hcall
  have hhandle : s.handles.lookup request = some o :=
    hext.handles ▸ h'.calls o request hcall
  exact (h.current request o hhandle).1.not_ge ho

theorem Inv.held_routeLimiter (h : s.Inv)
    (hfree : s.handles.lookup request = none) (route : RouteLimits) (id : Str) :
    (s.routeLimiter request route).held id ≤ s.held id := by
  have h' := h.routeLimiter hfree route
  unfold Registry.routeLimiter at h' ⊢
  split at h'
  · exact le_rfl
  · have hext := extends_create s route
    refine held_le_of_extends h' hext.owner hext.live (fun o ho => ?_) id
    by_cases heq : o = s.count
    · subst heq
      simp only [Registry.create, Function.update_self]
      rfl
    · simp only [Registry.create, Function.update_of_ne heq]
      exact h.live_eq_zero_of_le ho

theorem Inv.held_access (h : s.Inv) {op : Gate.Op} {o : ℕ} {id : Str}
    (hop : op.call = some request) (hhandle : s.handles.lookup request = some o)
    (horderly : (s.gates o).Orderly op) {s' : Registry} (hs' : { s with
      gates := Function.update s.gates o ((s.gates o).step op) } = s')
    (hgrant : s.held id < s'.held id) : s'.held id ≤ s'.configured id := by
  subst hs'
  have h' := h.access hop hhandle horderly
  cases hroute : s.routes.lookup id with
  | none =>
      rw [h'.held_eq_zero hroute] at hgrant
      exact absurd hgrant (Nat.not_lt_zero _)
  | some o' =>
      rw [h.held_eq hroute, h'.held_eq hroute] at hgrant
      rw [h'.held_eq hroute, ← (h'.registered id o' hroute).2.2]
      by_cases ho : o' = o
      · subst ho
        simp only [Function.update_self] at hgrant ⊢
        exact Gate.live_le_limit_of_effect (h.conserved o') (h.debtFirst o')
          ((s.gates o').effect_step op) hgrant
      · simp only [Function.update_of_ne ho] at hgrant
        exact absurd hgrant (Nat.lt_irrefl _)

theorem Inv.held_le_configured (h : s.Inv) {op : Op} (hsteady : s.Steady op)
    {id : Str} (hgrant : s.held id < (s.step op).held id) :
    (s.step op).held id ≤ (s.step op).configured id := by
  have heffect := s.effect_step op
  generalize s.step op = s' at hgrant heffect ⊢
  cases heffect with
  | idle | gone => exact absurd hgrant (Nat.lt_irrefl _)
  | reloaded => exact absurd hgrant (h.held_applyLimits hsteady id).not_gt
  | given hfree => exact absurd hgrant (h.held_routeLimiter hfree _ id).not_gt
  | accessed hop hhandle =>
      exact h.held_access hop hhandle
        (hsteady _ (by rw [hop]; exact hhandle)) rfl hgrant

/-! ## Runs -/

/-- As long as every reload lists the routes whose limiters are in use, and
limiters are used in an orderly way: when a request is admitted on a route, all
that is held for the route, on every limiter ever created for it, is within the
maximum now configured. -/
theorem route_ceiling_across_reloads (ops : List Op) (op : Op) (id : Str)
    (hsteady : Guarded step Steady {} (ops ++ [op]))
    (hgrant : (run step {} ops).held id <
      (step (run step {} ops) op).held id) :
    (step (run step {} ops) op).held id ≤
      (step (run step {} ops) op).configured id := by
  obtain ⟨hops, hop, -⟩ := guarded_append.mp hsteady
  have h : (run step {} ops).Inv :=
    run_invariant_of_guarded (fun _ _ hok hinv => hinv.step hok) inv_empty hops
  exact h.held_le_configured hop hgrant

/-- A reload keeps a route in use and raises its maximum to two, and the next
request is admitted within it. -/
theorem route_ceiling_across_reloads_kept :
    let ops : List Op :=
      [.routeLimiter 0 ⟨['r'], 1, 0⟩, .access (.tryAcquire 0 1),
        .applyLimits [⟨['r'], 2, 0⟩], .routeLimiter 1 ⟨['r'], 2, 0⟩]
    let op : Op := .access (.tryAcquire 1 1)
    Guarded step Steady {} (ops ++ [op]) ∧
      (run step {} ops).held ['r'] < (step (run step {} ops) op).held ['r'] ∧
      (step (run step {} ops) op).held ['r'] ≤
        (step (run step {} ops) op).configured ['r'] := by
  intro ops op
  have hresize : Guarded applyRoute SteadyRoute
      (run step {} (ops.take 2)) [⟨['r'], 2, 0⟩] := by
    refine ⟨fun o ho hshrink => ?_, trivial⟩
    obtain rfl : 0 = o := Option.some.inj ho
    exact absurd hshrink (by decide)
  have hlisted : ∀ request o,
      (run step {} (ops.take 2)).handles.lookup request = some o →
        (run step {} (ops.take 2)).owner o ∈ [['r']] := by
    intro request o ho
    have hmem : (⟨request, o⟩ : Σ _ : ℕ, ℕ) ∈ [(⟨0, 0⟩ : Σ _ : ℕ, ℕ)] :=
      AList.mem_lookup_iff.mp ho
    obtain ⟨rfl, ho'⟩ := Sigma.mk.inj (List.mem_singleton.mp hmem)
    obtain rfl := eq_of_heq ho'
    exact List.mem_singleton_self _
  have hsteady : Guarded step Steady {} (ops ++ [op]) :=
    ⟨trivial, fun _ _ => trivial, ⟨hresize, hlisted⟩, trivial,
      fun _ _ => trivial, trivial⟩
  have hgrant : (run step {} ops).held ['r'] <
      (step (run step {} ops) op).held ['r'] := by decide
  exact ⟨hsteady, hgrant,
    route_ceiling_across_reloads ops op ['r'] hsteady hgrant⟩

/-- The route has a maximum of one in every configuration that has it.  It is
taken out while a request is in flight and put back, and two are admitted. -/
theorem readded_route_over_admits :
    let s := run step {}
      [.applyLimits [⟨['r'], 1, 0⟩], .routeLimiter 0 ⟨['r'], 1, 0⟩,
        .access (.tryAcquire 0 1), .applyLimits [],
        .applyLimits [⟨['r'], 1, 0⟩], .routeLimiter 1 ⟨['r'], 1, 0⟩]
    s.held ['r'] = 1 ∧ (step s (.access (.tryAcquire 1 1))).held ['r'] = 2 ∧
      (step s (.access (.tryAcquire 1 1))).configured ['r'] = 1 := by
  decide

/-! ## Reloads of any kind -/

/-- The ceilings that an operation sets. -/
def Op.limits : Op → List RouteLimits
  | .applyLimits routes => routes
  | .routeLimiter _ route => [route]
  | .access _ | .letGo _ => []

variable (s) in
/-- Asking for a limiter creates one at most. -/
theorem gates_routeLimiter (request : ℕ) (route : RouteLimits) (o : ℕ) :
    (s.routeLimiter request route).gates o = s.gates o ∨
      (s.routeLimiter request route).gates o =
        .new route.max route.queueMax := by
  unfold Registry.routeLimiter
  split
  · exact .inl rfl
  · by_cases heq : o = s.count
    · subst heq
      exact .inr (Function.update_self _ _ _)
    · exact .inl (Function.update_of_ne heq _ _)

variable (s) in
/-- A request is given the limiter of the registry. -/
theorem exists_handle_routeLimiter (request : ℕ) (route : RouteLimits) :
    ∃ o, (s.routeLimiter request route).handles.lookup request = some o ∧
      (s.routeLimiter request route).routes.lookup route.id = some o := by
  unfold Registry.routeLimiter
  split
  · rename_i existing hroute
    exact ⟨existing, AList.lookup_insert _, hroute⟩
  · exact ⟨s.count, AList.lookup_insert _, AList.lookup_insert _⟩

/-- What is left of the invariant whoever a reload leaves behind, with a bound
on the units of every limiter. -/
structure Sound (s : Registry) (bound : ℕ) : Prop where
  within : ∀ o, (s.gates o).Within bound
  registered : ∀ id o, s.routes.lookup id = some o →
    o < s.count ∧ s.owner o = id

variable {bound : ℕ}

theorem sound_empty (bound : ℕ) : ({} : Registry).Sound bound where
  within := fun _ => Gate.within_new (Nat.zero_le bound) 0
  registered := fun id o h => by simp at h

theorem Sound.create (h : s.Sound bound) (hmax : route.max ≤ bound) :
    (s.create route).Sound bound where
  within := forall_update (P := (Gate.Within · bound))
    (Gate.within_new hmax _) h.within
  registered := by
    intro id o hid
    rcases AssocMap.lookup_insert_cases hid with ⟨rfl, rfl⟩ | ⟨-, hold⟩
    · exact ⟨Nat.lt_succ_self _, by simp [Registry.create]⟩
    · obtain ⟨hlt, howner⟩ := h.registered id o hold
      exact ⟨Nat.lt_succ_of_lt hlt, by simpa [Registry.create, hlt.ne]⟩

theorem Sound.replace (h : s.Sound bound) {o : ℕ} {gate : Gate}
    (hgate : gate.Within bound) (configured : Str → ℕ) :
    Sound { s with
      gates := Function.update s.gates o gate
      configured := configured } bound where
  within := forall_update (P := (Gate.Within · bound)) hgate h.within
  registered := h.registered

theorem Sound.applyRoute (h : s.Sound bound) (hmax : route.max ≤ bound) :
    (s.applyRoute route).Sound bound := by
  unfold Registry.applyRoute
  split
  · rename_i existing _
    exact h.replace ((h.within existing).resize hmax _) _
  · exact h.create hmax

theorem Sound.applyRoutes (h : s.Sound bound)
    (hmax : ∀ route ∈ routes, route.max ≤ bound) :
    (run Registry.applyRoute s routes).Sound bound := by
  induction routes generalizing s with
  | nil => exact h
  | cons route routes ih =>
      rw [List.forall_mem_cons] at hmax
      exact ih (h.applyRoute hmax.1) hmax.2

theorem Sound.applyLimits (h : s.Sound bound)
    (hmax : ∀ route ∈ routes, route.max ≤ bound) :
    (s.applyLimits routes).Sound bound where
  within := (h.applyRoutes hmax).within
  registered := fun id o hid => (h.applyRoutes hmax).registered id o
    (AssocMap.lookup_retain_eq_some.mp hid).1

theorem Sound.routeLimiter (h : s.Sound bound) (request : ℕ)
    (hmax : route.max ≤ bound) :
    (s.routeLimiter request route).Sound bound := by
  unfold Registry.routeLimiter
  split
  · exact ⟨h.within, h.registered⟩
  · exact ⟨(h.create hmax).within, (h.create hmax).registered⟩

theorem Sound.step (h : s.Sound bound) {op : Op}
    (hmax : ∀ route ∈ op.limits, route.max ≤ bound) :
    (s.step op).Sound bound := by
  have heffect := s.effect_step op
  generalize s.step op = s' at heffect ⊢
  cases heffect with
  | idle => exact h
  | reloaded => exact h.applyLimits hmax
  | given => exact h.routeLimiter _ (hmax _ List.mem_cons_self)
  | accessed hop => exact h.replace ((h.within _).call hop) _
  | gone => exact ⟨h.within, h.registered⟩

/-- A route has a limiter with this ceiling. -/
def HasLimit (s : Registry) (id : Str) (max : ℕ) : Prop :=
  ∃ o, s.routes.lookup id = some o ∧ (s.gates o).limiter.limit = max

theorem hasLimit_create (s : Registry) (route : RouteLimits) :
    (s.create route).HasLimit route.id route.max := by
  refine ⟨s.count, AList.lookup_insert _, ?_⟩
  simp only [Registry.create, Function.update_self]
  rfl

variable {id : Str} {max : ℕ}

theorem Sound.hasLimit_create_of_ne (h : s.Sound bound)
    (hid : s.HasLimit id max) (hne : id ≠ route.id) :
    (s.create route).HasLimit id max := by
  obtain ⟨o, ho, hlimit⟩ := hid
  refine ⟨o, (AList.lookup_insert_ne hne).trans ho, ?_⟩
  have hlt := (h.registered id o ho).1
  simpa only [Registry.create, Function.update_of_ne hlt.ne] using hlimit

theorem hasLimit_applyRoute (s : Registry) (route : RouteLimits) :
    (s.applyRoute route).HasLimit route.id route.max := by
  cases hroute : s.routes.lookup route.id with
  | none =>
      simp only [Registry.applyRoute, hroute]
      exact s.hasLimit_create route
  | some o =>
      simp only [Registry.applyRoute, hroute]
      refine ⟨o, hroute, ?_⟩
      simp only [Function.update_self]
      exact Limiter.limit_resize _ _

theorem Sound.hasLimit_applyRoute_of_ne (h : s.Sound bound)
    (hid : s.HasLimit id max) (hne : id ≠ route.id) :
    (s.applyRoute route).HasLimit id max := by
  cases hroute : s.routes.lookup route.id with
  | none =>
      simp only [Registry.applyRoute, hroute]
      exact h.hasLimit_create_of_ne hid hne
  | some existing =>
      simp only [Registry.applyRoute, hroute]
      obtain ⟨o, ho, hlimit⟩ := hid
      have hother : o ≠ existing := by
        rintro rfl
        exact hne ((h.registered id o ho).2.symm.trans
          (h.registered route.id o hroute).2)
      exact ⟨o, ho, by simpa only [Function.update_of_ne hother] using hlimit⟩

theorem Sound.hasLimit_applyRoutes_of_notMem (h : s.Sound bound)
    (hid : s.HasLimit id max) (hmax : ∀ route ∈ routes, route.max ≤ bound)
    (hnotMem : id ∉ routes.map RouteLimits.id) :
    (run Registry.applyRoute s routes).HasLimit id max := by
  induction routes generalizing s with
  | nil => exact hid
  | cons route routes ih =>
      rw [List.map_cons, List.mem_cons, not_or] at hnotMem
      rw [List.forall_mem_cons] at hmax
      exact ih (h.applyRoute hmax.1)
        (h.hasLimit_applyRoute_of_ne hid hnotMem.1) hmax.2 hnotMem.2

theorem Sound.hasLimit_applyRoutes (h : s.Sound bound)
    (hmax : ∀ route ∈ routes, route.max ≤ bound)
    (hnodup : (routes.map RouteLimits.id).Nodup) (hroute : route ∈ routes) :
    (run Registry.applyRoute s routes).HasLimit route.id route.max := by
  induction routes generalizing s with
  | nil => cases hroute
  | cons first routes ih =>
      rw [List.map_cons, List.nodup_cons] at hnodup
      rw [List.forall_mem_cons] at hmax
      rcases List.mem_cons.mp hroute with rfl | hrest
      · exact (h.applyRoute hmax.1).hasLimit_applyRoutes_of_notMem
          (s.hasLimit_applyRoute route) hmax.2 hnodup.1
      · exact ih (h.applyRoute hmax.1) hmax.2 hnodup.2 hrest

/-- After a reload every route it lists has the ceiling it says. -/
theorem Sound.hasLimit_applyLimits (h : s.Sound bound)
    (hmax : ∀ route ∈ routes, route.max ≤ bound)
    (hnodup : (routes.map RouteLimits.id).Nodup) (hroute : route ∈ routes) :
    (s.applyLimits routes).HasLimit route.id route.max := by
  obtain ⟨o, ho, hlimit⟩ := h.hasLimit_applyRoutes hmax hnodup hroute
  have hlisted : route.id ∈ routes.map RouteLimits.id :=
    List.mem_map_of_mem hroute
  exact ⟨o, AssocMap.lookup_retain_eq_some.mpr
    ⟨ho, List.contains_iff_mem.mpr hlisted⟩, hlimit⟩

theorem Sound.hasLimit_routeLimiter (h : s.Sound bound)
    (hid : s.HasLimit id max) (request : ℕ) (route : RouteLimits) :
    (s.routeLimiter request route).HasLimit id max := by
  unfold Registry.routeLimiter
  split
  · exact hid
  · rename_i hnew
    have hne : id ≠ route.id := by
      rintro rfl
      obtain ⟨o, ho, -⟩ := hid
      rw [hnew] at ho
      cases ho
    exact h.hasLimit_create_of_ne hid hne

/-- Only a reload moves a ceiling. -/
theorem Sound.hasLimit_step (h : s.Sound bound) (hid : s.HasLimit id max)
    {op : Op} (hop : ∀ routes, op ≠ .applyLimits routes) :
    (s.step op).HasLimit id max := by
  have heffect := s.effect_step op
  generalize s.step op = s' at heffect ⊢
  cases heffect with
  | idle | gone => exact hid
  | reloaded => exact absurd rfl (hop _)
  | given => exact h.hasLimit_routeLimiter hid _ _
  | @accessed op request o hcall =>
      obtain ⟨o', ho', hlimit⟩ := hid
      refine ⟨o', ho', ?_⟩
      by_cases heq : o' = o
      · subst heq
        simp only [Function.update_self]
        rw [Gate.limit_of_effect (Gate.ne_resize_of_call hcall)
          (Gate.effect_step _ op), hlimit]
      · simpa only [Function.update_of_ne heq] using hlimit

/-- A route without a limiter has none, or gets one with the ceiling it is
asked for with. -/
theorem hasLimit_step_of_none (hid : s.routes.lookup id = none) {op : Op}
    (hop : ∀ routes, op ≠ .applyLimits routes)
    (hmax : ∀ route ∈ op.limits, route.id = id → route.max = max) :
    (s.step op).HasLimit id max ∨ (s.step op).routes.lookup id = none := by
  have heffect := s.effect_step op
  generalize s.step op = s' at heffect ⊢
  cases heffect with
  | idle | gone | accessed => exact .inr hid
  | reloaded => exact absurd rfl (hop _)
  | @given request route =>
      unfold Registry.routeLimiter
      split
      · exact .inr hid
      · by_cases heq : route.id = id
        · have hlimit := hmax route List.mem_cons_self heq
          subst heq hlimit
          exact .inl (s.hasLimit_create route)
        · exact .inr ((AList.lookup_insert_ne (Ne.symm heq)).trans hid)

end Registry

end Harmost.Admission
