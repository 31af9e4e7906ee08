import Harmost.Support.AssocMap
import Harmost.Support.Run
import Harmost.Support.Semaphore

/-!
# A limiter whose ceiling moves

The semaphore of a limiter holds the units that nobody uses.  A shrink takes
out of it what it can and remembers the rest as debt, which returning permits
pay.  A call of `acquire` takes units at once or waits in line for them; here
it moves from one atomic access to the next, and so does everybody else.
-/

namespace Harmost.Admission

open Harmost.Support

structure Limiter where
  sem : Semaphore
  /-- The configured ceiling. -/
  limit : ℕ
  /-- Units that a shrink still owes. -/
  debt : ℕ := 0
  queueDepth : ℕ := 0
  queueMax : ℕ

namespace Limiter

def new (limit queueMax : ℕ) : Limiter where
  sem := { available := limit }
  limit := limit
  queueMax := queueMax

variable (l : Limiter)

/-- `Permit::drop`: what returns pays the debt first. -/
def dropPermit (units : ℕ) : Limiter :=
  let absorbed := min l.debt units
  let l := { l with debt := l.debt - absorbed }
  if absorbed = units then l
  else { l with sem := l.sem.addPermits (units - absorbed) }

/-- Move the ceiling without disturbing what is in flight. -/
def resize (newLimit : ℕ) : Limiter :=
  if l.limit < newLimit then
    let grant := newLimit - l.limit
    let cancelled := min l.debt grant
    let l := { l with limit := newLimit, debt := l.debt - cancelled }
    if 0 < grant - cancelled then
      { l with sem := l.sem.addPermits (grant - cancelled) }
    else l
  else if newLimit < l.limit then
    let owed := l.limit - newLimit
    match l.sem.forgetPermits owed with
    | (sem, forgotten) =>
        let l := { l with limit := newLimit, sem := sem }
        if forgotten < owed then { l with debt := l.debt + (owed - forgotten) }
        else l
  else l

def setQueue (max : ℕ) : Limiter :=
  { l with queueMax := max }

/-! ## Units and debt -/

@[simp] theorem limit_dropPermit (units : ℕ) :
    (l.dropPermit units).limit = l.limit := by
  simp only [dropPermit]
  split_ifs <;> rfl

theorem debt_dropPermit_le (units : ℕ) :
    (l.dropPermit units).debt ≤ l.debt := by
  simp only [dropPermit]
  split_ifs <;> exact Nat.sub_le _ _

/-- What returns goes to the semaphore or pays debt. -/
theorem units_dropPermit (units : ℕ) :
    (l.dropPermit units).sem.units + l.debt =
      l.sem.units + units + (l.dropPermit units).debt := by
  have hdebt : min l.debt units ≤ l.debt := Nat.min_le_left _ _
  have hunits : min l.debt units ≤ units := Nat.min_le_right _ _
  simp only [dropPermit]
  split_ifs
  · dsimp only
    omega
  · simp only [Semaphore.units_addPermits]
    omega

@[simp] theorem limit_resize (newLimit : ℕ) :
    (l.resize newLimit).limit = newLimit := by
  simp only [resize]
  split_ifs
  · rfl
  · rfl
  · rfl
  · rfl
  · omega

/-- A new ceiling is made up by units and debt. -/
theorem units_resize (newLimit : ℕ) :
    (l.resize newLimit).sem.units + (l.limit + l.debt) =
      l.sem.units + (newLimit + (l.resize newLimit).debt) := by
  have hdebt : min l.debt (newLimit - l.limit) ≤ l.debt := Nat.min_le_left _ _
  have hgrant : min l.debt (newLimit - l.limit) ≤ newLimit - l.limit :=
    Nat.min_le_right _ _
  have hforgotten := l.sem.units_forgetPermits (l.limit - newLimit)
  have howed : (l.sem.forgetPermits (l.limit - newLimit)).2 ≤
      l.limit - newLimit := Nat.min_le_right _ _
  simp only [resize]
  split_ifs
  · simp only [Semaphore.units_addPermits]
    omega
  · dsimp only
    omega
  · dsimp only
    omega
  · dsimp only
    omega
  · omega

/-- A resize leaves no more units than there were, or as many as it asks for. -/
theorem total_resize_le (newLimit : ℕ) :
    (l.resize newLimit).limit + (l.resize newLimit).debt ≤
      max newLimit (l.limit + l.debt) := by
  simp only [resize]
  split_ifs
  · dsimp only
    omega
  · dsimp only
    omega
  · dsimp only
    omega
  · dsimp only
    omega
  · exact Nat.le_max_right _ _

@[simp] theorem asked_dropPermit (units : ℕ) :
    (l.dropPermit units).sem.asked = l.sem.asked := by
  simp only [dropPermit]
  split_ifs
  · rfl
  · exact Semaphore.asked_addPermits _ _

@[simp] theorem asked_resize (newLimit : ℕ) :
    (l.resize newLimit).sem.asked = l.sem.asked := by
  simp only [resize]
  split_ifs
  · exact Semaphore.asked_addPermits _ _
  · rfl
  · rfl
  · rfl
  · rfl

/-- As long as a shrink is owed units, nothing can be granted. -/
def DebtFirst : Prop :=
  0 < l.debt → l.sem.Short

variable {l}

theorem DebtFirst.dropPermit (h : l.DebtFirst) (units : ℕ) :
    (l.dropPermit units).DebtFirst := by
  unfold DebtFirst
  simp only [Limiter.dropPermit]
  split_ifs with hall
  · intro howed
    dsimp only at howed
    exact h (by omega)
  · intro howed
    -- What is left over has paid all debt.
    dsimp only at howed
    omega

theorem DebtFirst.resize (h : l.DebtFirst) {newLimit : ℕ}
    (hready : newLimit + l.sem.available < l.limit →
      ∀ w ∈ l.sem.waiters, w.got < w.need) : (l.resize newLimit).DebtFirst := by
  unfold DebtFirst
  simp only [Limiter.resize]
  split_ifs with hgrow hgrant hshrink hforgotten
  · intro howed
    dsimp only at howed
    omega
  · intro howed
    exact h (by dsimp only at howed; omega)
  · intro _
    have hle : newLimit + l.sem.available < l.limit := by
      simp only [Semaphore.forgetPermits] at hforgotten
      omega
    exact ⟨by simp only [Semaphore.forgetPermits]; omega, hready hle⟩
  · intro howed
    dsimp only at howed
    have hshort := h howed
    exact ⟨by simp [Semaphore.forgetPermits, hshort.available_eq],
      hshort.got_lt⟩
  · exact h

end Limiter

/-- How many units a request asks for. -/
abbrev Weight := { n : ℕ // 0 < n }

/-- `weight.max(1)`. -/
def Weight.ofNat (weight : ℕ) : Weight :=
  ⟨max weight 1, Nat.lt_of_lt_of_le Nat.one_pos (Nat.le_max_right _ _)⟩

/-- Where a call of `acquire` is, or the permit it came back with. -/
inductive Call where
  /-- There was not enough at once. -/
  | refused (weight : Weight)
  /-- It counted itself as waiting, and there were too many already. -/
  | overflowed
  /-- It has a slot in the queue. -/
  | slotted (weight : Weight)
  /-- It waits in line. -/
  | queued (weight : Weight)
  | holding (units : ℕ)
  deriving DecidableEq

/-- The units a call holds. -/
def Call.units : Call → ℕ
  | .holding units => units
  | _ => 0

/-- A limiter and the calls that have come to it. -/
structure Gate where
  limiter : Limiter
  calls : AssocMap ℕ Call := ∅

namespace Gate

/-- One access to the limiter. -/
inductive Op where
  | tryAcquire (call weight : ℕ)
  | takeSlot (call : ℕ)
  | shed (call : ℕ)
  | enqueue (call : ℕ)
  | poll (call : ℕ)
  /-- The wait times out, or the request goes away. -/
  | cancel (call : ℕ)
  | drop (call : ℕ)
  | resize (limit : ℕ)
  | setQueue (max : ℕ)

def new (limit queueMax : ℕ) : Gate where
  limiter := .new limit queueMax

variable (g : Gate)

/-- A call goes on. -/
def keep (call : ℕ) (state : Call) (limiter : Limiter) : Gate :=
  { limiter := limiter, calls := g.calls.insert call state }

/-- A call is over. -/
def leave (call : ℕ) (limiter : Limiter) : Gate :=
  { limiter := limiter, calls := g.calls.erase call }

/-- One access.  An access that is not the next one of its call does
nothing. -/
def step (g : Gate) : Op → Gate
  | .tryAcquire call weight =>
      match g.calls.lookup call with
      | some _ => g
      | none =>
          let weight := Weight.ofNat weight
          match g.limiter.sem.tryAcquire weight with
          | some sem =>
              g.keep call (.holding weight) { g.limiter with sem := sem }
          | none => g.keep call (.refused weight) g.limiter
  | .takeSlot call =>
      match g.calls.lookup call with
      | some (.refused weight) =>
          if g.limiter.queueMax = 0 then g.leave call g.limiter
          else
            let depth := g.limiter.queueDepth
            let limiter := { g.limiter with queueDepth := depth + 1 }
            if g.limiter.queueMax ≤ depth then g.keep call .overflowed limiter
            else g.keep call (.slotted weight) limiter
      | _ => g
  | .shed call =>
      match g.calls.lookup call with
      | some .overflowed =>
          g.leave call
            { g.limiter with queueDepth := g.limiter.queueDepth - 1 }
      | _ => g
  | .enqueue call =>
      match g.calls.lookup call with
      | some (.slotted weight) =>
          g.keep call (.queued weight)
            { g.limiter with sem := g.limiter.sem.enqueue call weight }
      | _ => g
  | .poll call =>
      match g.calls.lookup call with
      | some (.queued _) =>
          match g.limiter.sem.poll call with
          | some (sem, units) =>
              g.keep call (.holding units)
                { g.limiter with
                  sem := sem
                  queueDepth := g.limiter.queueDepth - 1 }
          | none => g
      | _ => g
  | .cancel call =>
      match g.calls.lookup call with
      | some (.slotted _) =>
          g.leave call
            { g.limiter with queueDepth := g.limiter.queueDepth - 1 }
      | some (.queued _) =>
          g.leave call
            { g.limiter with
              sem := g.limiter.sem.cancel call
              queueDepth := g.limiter.queueDepth - 1 }
      | _ => g
  | .drop call =>
      match g.calls.lookup call with
      | some (.holding units) => g.leave call (g.limiter.dropPermit units)
      | _ => g
  | .resize limit => { g with limiter := g.limiter.resize limit }
  | .setQueue max => { g with limiter := g.limiter.setQueue max }

/-- The units of all live permits. -/
def live : ℕ :=
  AssocMap.total (fun _ call => call.units) g.calls

/-! ## Calls -/

/-- The call that an access belongs to. -/
def Op.call : Op → Option ℕ
  | .tryAcquire call _ | .takeSlot call | .shed call | .enqueue call
  | .poll call | .cancel call | .drop call => some call
  | .resize _ | .setQueue _ => none

theorem lookup_keep_of_ne {g : Gate} {call call' : ℕ} (hne : call' ≠ call)
    (state : Call) (limiter : Limiter) :
    (g.keep call state limiter).calls.lookup call' = g.calls.lookup call' :=
  AList.lookup_insert_ne hne

theorem lookup_leave_of_ne {g : Gate} {call call' : ℕ} (hne : call' ≠ call)
    (limiter : Limiter) :
    (g.leave call limiter).calls.lookup call' = g.calls.lookup call' :=
  AList.lookup_erase_ne hne

theorem lookup_leave (g : Gate) (call : ℕ) (limiter : Limiter) :
    (g.leave call limiter).calls.lookup call = none :=
  AList.lookup_erase _ _

/-- What an access can do, and when. -/
inductive Move (g : Gate) : Op → Gate → Prop
  /-- It is not the next access of its call, or the call is still in line. -/
  | idle {op : Op} : Move g op g
  | taken {call n : ℕ} {sem : Semaphore} (hnew : g.calls.lookup call = none)
      (hsem : g.limiter.sem.tryAcquire (Weight.ofNat n) = some sem) :
      Move g (.tryAcquire call n)
        (g.keep call (.holding (Weight.ofNat n)) { g.limiter with sem := sem })
  | refused {call n : ℕ} (hnew : g.calls.lookup call = none)
      (hsem : g.limiter.sem.tryAcquire (Weight.ofNat n) = none) :
      Move g (.tryAcquire call n)
        (g.keep call (.refused (Weight.ofNat n)) g.limiter)
  | unqueued {call : ℕ} {weight : Weight}
      (hcall : g.calls.lookup call = some (.refused weight))
      (hmax : g.limiter.queueMax = 0) :
      Move g (.takeSlot call) (g.leave call g.limiter)
  | overflowed {call : ℕ} {weight : Weight}
      (hcall : g.calls.lookup call = some (.refused weight))
      (hmax : g.limiter.queueMax ≠ 0)
      (hfull : g.limiter.queueMax ≤ g.limiter.queueDepth) :
      Move g (.takeSlot call)
        (g.keep call .overflowed
          { g.limiter with queueDepth := g.limiter.queueDepth + 1 })
  | slotted {call : ℕ} {weight : Weight}
      (hcall : g.calls.lookup call = some (.refused weight))
      (hmax : g.limiter.queueMax ≠ 0)
      (hroom : ¬ g.limiter.queueMax ≤ g.limiter.queueDepth) :
      Move g (.takeSlot call)
        (g.keep call (.slotted weight)
          { g.limiter with queueDepth := g.limiter.queueDepth + 1 })
  | shed {call : ℕ} (hcall : g.calls.lookup call = some .overflowed) :
      Move g (.shed call)
        (g.leave call
          { g.limiter with queueDepth := g.limiter.queueDepth - 1 })
  | enqueued {call : ℕ} {weight : Weight}
      (hcall : g.calls.lookup call = some (.slotted weight)) :
      Move g (.enqueue call)
        (g.keep call (.queued weight)
          { g.limiter with sem := g.limiter.sem.enqueue call weight })
  | polled {call units : ℕ} {weight : Weight} {sem : Semaphore}
      (hcall : g.calls.lookup call = some (.queued weight))
      (hsem : g.limiter.sem.poll call = some (sem, units)) :
      Move g (.poll call)
        (g.keep call (.holding units)
          { g.limiter with
            sem := sem
            queueDepth := g.limiter.queueDepth - 1 })
  | unslotted {call : ℕ} {weight : Weight}
      (hcall : g.calls.lookup call = some (.slotted weight)) :
      Move g (.cancel call)
        (g.leave call
          { g.limiter with queueDepth := g.limiter.queueDepth - 1 })
  | cancelled {call : ℕ} {weight : Weight}
      (hcall : g.calls.lookup call = some (.queued weight)) :
      Move g (.cancel call)
        (g.leave call
          { g.limiter with
            sem := g.limiter.sem.cancel call
            queueDepth := g.limiter.queueDepth - 1 })
  | dropped {call units : ℕ}
      (hcall : g.calls.lookup call = some (.holding units)) :
      Move g (.drop call) (g.leave call (g.limiter.dropPermit units))
  | resized {limit : ℕ} :
      Move g (.resize limit) { g with limiter := g.limiter.resize limit }
  | requeued {max : ℕ} :
      Move g (.setQueue max) { g with limiter := g.limiter.setQueue max }

theorem move_step (g : Gate) (op : Op) : Move g op (g.step op) := by
  cases op with
  | tryAcquire call n =>
      simp only [step]
      split
      · exact .idle
      · split
        · exact .taken ‹_› ‹_›
        · exact .refused ‹_› ‹_›
  | takeSlot call =>
      simp only [step]
      split
      · split_ifs
        · exact .unqueued ‹_› ‹_›
        · exact .overflowed ‹_› ‹_› ‹_›
        · exact .slotted ‹_› ‹_› ‹_›
      · exact .idle
  | shed call =>
      simp only [step]
      split
      · exact .shed ‹_›
      · exact .idle
  | enqueue call =>
      simp only [step]
      split
      · exact .enqueued ‹_›
      · exact .idle
  | poll call =>
      simp only [step]
      split
      · split
        · exact .polled ‹_› ‹_›
        · exact .idle
      · exact .idle
  | cancel call =>
      simp only [step]
      split
      · exact .unslotted ‹_›
      · exact .cancelled ‹_›
      · exact .idle
  | drop call =>
      simp only [step]
      split
      · exact .dropped ‹_›
      · exact .idle
  | resize limit => exact .resized
  | setQueue max => exact .requeued

/-- An access of one call leaves the others where they are. -/
theorem Move.lookup_of_ne {g g' : Gate} {op : Op} (h : Move g op g')
    {call : ℕ} (hop : op.call ≠ some call) :
    g'.calls.lookup call = g.calls.lookup call := by
  have hne : ∀ call', op.call = some call' → call ≠ call' :=
    fun call' hcall heq => hop (hcall.trans (congrArg some heq.symm))
  cases h with
  | idle | resized | requeued => rfl
  | taken | refused | overflowed | slotted | enqueued | polled =>
      exact lookup_keep_of_ne (hne _ rfl) _ _
  | unqueued | shed | unslotted | cancelled | dropped =>
      exact lookup_leave_of_ne (hne _ rfl) _

theorem lookup_step_of_ne (g : Gate) {op : Op} {call : ℕ}
    (hop : op.call ≠ some call) :
    (g.step op).calls.lookup call = g.calls.lookup call :=
  (g.move_step op).lookup_of_ne hop

theorem ne_resize_of_call {op : Op} {call : ℕ} (hop : op.call = some call)
    (n : ℕ) : op ≠ .resize n := by
  rintro rfl
  cases hop

theorem lookup_step_takeSlot {g : Gate} {call : ℕ} {weight : Weight}
    (hcall : g.calls.lookup call = some (.refused weight))
    (hqueue : g.limiter.queueMax = 0) :
    (g.step (.takeSlot call)).calls.lookup call = none := by
  simp only [step, hcall, if_pos hqueue, lookup_leave]

theorem lookup_step_shed {g : Gate} {call : ℕ}
    (hcall : g.calls.lookup call = some .overflowed) :
    (g.step (.shed call)).calls.lookup call = none := by
  simp only [step, hcall, lookup_leave]

theorem lookup_step_cancel {g : Gate} {call : ℕ} {weight : Weight}
    (hcall : g.calls.lookup call = some (.queued weight)) :
    (g.step (.cancel call)).calls.lookup call = none := by
  simp only [step, hcall, lookup_leave]

theorem lookup_step_drop {g : Gate} {call units : ℕ}
    (hcall : g.calls.lookup call = some (.holding units)) :
    (g.step (.drop call)).calls.lookup call = none := by
  simp only [step, hcall, lookup_leave]

/-! ## Conservation -/

theorem live_keep_of_new {g : Gate} {call : ℕ}
    (hnew : g.calls.lookup call = none) (state : Call) (limiter : Limiter) :
    (g.keep call state limiter).live = state.units + g.live :=
  AssocMap.total_insert_of_notMem _ (AList.lookup_eq_none.mp hnew) state

section

variable {g : Gate} {call : ℕ} {state : Call}
  (hcall : g.calls.lookup call = some state)
include hcall

theorem live_keep (state' : Call) (limiter : Limiter) :
    state.units + (g.keep call state' limiter).live =
      state'.units + g.live :=
  AssocMap.total_insert (fun (_ : ℕ) (c : Call) => c.units) hcall state'

theorem live_leave (limiter : Limiter) :
    state.units + (g.leave call limiter).live = g.live :=
  AssocMap.total_erase (fun (_ : ℕ) (c : Call) => c.units) hcall

/-- A call that held nothing goes on. -/
theorem live_keep_of_unheld (hstate : state.units = 0) (state' : Call)
    (limiter : Limiter) :
    (g.keep call state' limiter).live = state'.units + g.live := by
  rw [← live_keep hcall state' limiter, hstate, Nat.zero_add]

theorem live_leave_of_unheld (hstate : state.units = 0) (limiter : Limiter) :
    (g.leave call limiter).live = g.live := by
  rw [← live_leave hcall limiter, hstate, Nat.zero_add]

end

theorem live_eq_zero {g : Gate} (h : ∀ call, g.calls.lookup call = none) :
    g.live = 0 := by
  have hempty : g.calls.entries = [] := by
    refine List.eq_nil_iff_forall_not_mem.mpr ?_
    rintro ⟨call, state⟩ hmem
    rw [AssocMap.mem_entries_iff, h call] at hmem
    cases hmem
  rw [live, AssocMap.total, hempty]
  rfl

/-- What an access does to the units. -/
inductive Effect (g g' : Gate) : Op → Prop
  /-- No unit moves. -/
  | unmoved {op : Op} (hsem : g'.limiter.sem = g.limiter.sem)
      (hlimit : g'.limiter.limit = g.limiter.limit)
      (hdebt : g'.limiter.debt = g.limiter.debt) (hlive : g'.live = g.live) :
      Effect g g' op
  /-- A permit is granted at once. -/
  | taken {call n : ℕ} (weight : Weight)
      (hsem : g.limiter.sem.tryAcquire weight = some g'.limiter.sem)
      (hlimit : g'.limiter.limit = g.limiter.limit)
      (hdebt : g'.limiter.debt = g.limiter.debt)
      (hlive : g'.live = weight + g.live) : Effect g g' (.tryAcquire call n)
  /-- A call takes its place in line. -/
  | enqueued {call : ℕ} (weight : Weight)
      (hsem : g'.limiter.sem = g.limiter.sem.enqueue call weight)
      (hlimit : g'.limiter.limit = g.limiter.limit)
      (hdebt : g'.limiter.debt = g.limiter.debt) (hlive : g'.live = g.live) :
      Effect g g' (.enqueue call)
  /-- A permit is granted to a call in line. -/
  | polled {call units : ℕ}
      (hsem : g.limiter.sem.poll call = some (g'.limiter.sem, units))
      (hlimit : g'.limiter.limit = g.limiter.limit)
      (hdebt : g'.limiter.debt = g.limiter.debt)
      (hlive : g'.live = units + g.live) : Effect g g' (.poll call)
  /-- A call leaves the line. -/
  | cancelled {call : ℕ}
      (hsem : g'.limiter.sem = g.limiter.sem.cancel call)
      (hlimit : g'.limiter.limit = g.limiter.limit)
      (hdebt : g'.limiter.debt = g.limiter.debt) (hlive : g'.live = g.live) :
      Effect g g' (.cancel call)
  /-- A permit returns. -/
  | dropped {call units : ℕ}
      (hlimiter : g'.limiter = g.limiter.dropPermit units)
      (hlive : units + g'.live = g.live) : Effect g g' (.drop call)
  | resized {limit : ℕ} (hlimiter : g'.limiter = g.limiter.resize limit)
      (hlive : g'.live = g.live) : Effect g g' (.resize limit)

theorem Move.effect {g g' : Gate} {op : Op} (h : Move g op g') :
    Effect g g' op := by
  cases h with
  | idle | requeued => exact .unmoved rfl rfl rfl rfl
  | taken hnew hsem => exact .taken _ hsem rfl rfl (live_keep_of_new hnew _ _)
  | refused hnew hsem =>
      exact .unmoved rfl rfl rfl
        ((live_keep_of_new hnew _ _).trans (Nat.zero_add _))
  | unqueued hcall | shed hcall | unslotted hcall =>
      exact .unmoved rfl rfl rfl (live_leave_of_unheld hcall rfl _)
  | overflowed hcall | slotted hcall =>
      exact .unmoved rfl rfl rfl
        ((live_keep_of_unheld hcall rfl _ _).trans (Nat.zero_add _))
  | enqueued hcall =>
      exact .enqueued _ rfl rfl rfl
        ((live_keep_of_unheld hcall rfl _ _).trans (Nat.zero_add _))
  | polled hcall hsem =>
      exact .polled hsem rfl rfl (live_keep_of_unheld hcall rfl _ _)
  | cancelled hcall =>
      exact .cancelled rfl rfl rfl (live_leave_of_unheld hcall rfl _)
  | dropped hcall => exact .dropped rfl (live_leave hcall _)
  | resized => exact .resized rfl rfl

theorem effect_step (g : Gate) (op : Op) : Effect g (g.step op) op :=
  (g.move_step op).effect

/-- Every unit is in the semaphore or in a live permit, and there are as many
as the ceiling and the debt say. -/
def Conserved (g : Gate) : Prop :=
  g.limiter.sem.units + g.live = g.limiter.limit + g.limiter.debt

theorem Conserved.of_effect {g g' : Gate} {op : Op} (h : g.Conserved)
    (heffect : Effect g g' op) : g'.Conserved := by
  unfold Conserved at h ⊢
  cases heffect with
  | unmoved hsem hlimit hdebt hlive => rw [hsem, hlimit, hdebt, hlive, h]
  | taken weight hsem hlimit hdebt hlive =>
      have hunits := Semaphore.units_of_tryAcquire hsem
      omega
  | enqueued weight hsem hlimit hdebt hlive =>
      rw [hsem, Semaphore.units_enqueue, hlimit, hdebt, hlive, h]
  | polled hsem hlimit hdebt hlive =>
      have hunits := Semaphore.units_of_poll hsem
      omega
  | cancelled hsem hlimit hdebt hlive =>
      rw [hsem, Semaphore.units_cancel, hlimit, hdebt, hlive, h]
  | dropped hlimiter hlive =>
      rename_i units
      have hunits := g.limiter.units_dropPermit units
      rw [hlimiter, Limiter.limit_dropPermit]
      omega
  | resized hlimiter hlive =>
      rename_i limit
      have hunits := g.limiter.units_resize limit
      rw [hlimiter, Limiter.limit_resize]
      omega

theorem conserved_new (limit queueMax : ℕ) :
    (Gate.new limit queueMax).Conserved :=
  rfl

theorem conserved_run (limit queueMax : ℕ) (ops : List Op) :
    (run step (.new limit queueMax) ops).Conserved :=
  run_invariant (P := Conserved)
    (fun g op h => h.of_effect (g.effect_step op))
    (conserved_new limit queueMax) ops

/-- Whatever calls, cancellations, returns and changes of the ceiling there
have been: what is available, what those in line have collected and what is in
live permits add up to the ceiling and the debt. -/
theorem run_conservation (limit queueMax : ℕ) (ops : List Op) :
    (run step (.new limit queueMax) ops).limiter.sem.available +
        (run step (.new limit queueMax) ops).limiter.sem.collected +
        (run step (.new limit queueMax) ops).live =
      (run step (.new limit queueMax) ops).limiter.limit +
        (run step (.new limit queueMax) ops).limiter.debt :=
  conserved_run limit queueMax ops

/-- All units are available at a limiter that nobody uses. -/
theorem Conserved.limit_le_available {g : Gate} (h : g.Conserved)
    (hlive : g.live = 0) (hline : g.limiter.sem.waiters = []) :
    g.limiter.limit ≤ g.limiter.sem.available := by
  have hconserved : g.limiter.sem.available + g.limiter.sem.collected +
      g.live = g.limiter.limit + g.limiter.debt := h
  have hcollected : g.limiter.sem.collected = 0 := by
    rw [Semaphore.collected, hline]
    rfl
  omega

/-! ## What a call asked for -/

/-- A call in line waits for its own weight, and stands there once. -/
structure Lined (g : Gate) : Prop where
  nodup : g.limiter.sem.tickets.Nodup
  queued : ∀ p ∈ g.limiter.sem.asked, ∃ weight : Weight,
    g.calls.lookup p.1 = some (.queued weight) ∧ (weight : ℕ) = p.2

theorem lined_new (limit queueMax : ℕ) : (Gate.new limit queueMax).Lined :=
  ⟨List.nodup_nil, nofun⟩

/-- A call that is not in line moves. -/
theorem Lined.of_outside {g g' : Gate} {call : ℕ} (h : g.Lined)
    (houtside : ∀ weight, g.calls.lookup call ≠ some (.queued weight))
    (hasked : g'.limiter.sem.asked = g.limiter.sem.asked)
    (hothers : ∀ other, other ≠ call →
      g'.calls.lookup other = g.calls.lookup other) : g'.Lined where
  nodup := by
    rw [Semaphore.tickets_eq_asked, hasked, ← Semaphore.tickets_eq_asked]
    exact h.nodup
  queued := by
    intro p hp
    obtain ⟨weight, hcall, hneed⟩ := h.queued p (hasked ▸ hp)
    have hne : p.1 ≠ call := fun heq => houtside weight (heq ▸ hcall)
    exact ⟨weight, (hothers p.1 hne).trans hcall, hneed⟩

/-- A call leaves the line. -/
theorem Lined.of_erase {g g' : Gate} {call : ℕ} (h : g.Lined)
    (hasked : g'.limiter.sem.asked ⊆ g.limiter.sem.asked)
    (htickets : g'.limiter.sem.tickets = g.limiter.sem.tickets.erase call)
    (hothers : ∀ other, other ≠ call →
      g'.calls.lookup other = g.calls.lookup other) : g'.Lined where
  nodup := htickets ▸ h.nodup.erase call
  queued := by
    intro p hp
    have hticket : p.1 ∈ g'.limiter.sem.tickets := by
      rw [Semaphore.tickets_eq_asked]
      exact List.mem_map_of_mem hp
    rw [htickets, h.nodup.mem_erase_iff] at hticket
    rw [hothers p.1 hticket.1]
    exact h.queued p (hasked hp)

theorem Lined.enqueue {g : Gate} {call : ℕ} {weight : Weight} (h : g.Lined)
    (hcall : g.calls.lookup call = some (.slotted weight)) :
    (g.keep call (.queued weight)
      { g.limiter with
        sem := g.limiter.sem.enqueue call weight }).Lined where
  nodup := by
    have hnotMem : call ∉ g.limiter.sem.tickets := by
      rw [Semaphore.tickets_eq_asked]
      intro hmem
      obtain ⟨p, hp, rfl⟩ := List.mem_map.mp hmem
      obtain ⟨weight', hqueued, -⟩ := h.queued p hp
      simp [hcall] at hqueued
    simp only [keep, Semaphore.tickets_enqueue]
    exact List.nodup_append.mpr ⟨h.nodup, List.nodup_singleton call,
      fun a ha b hb => by
        rw [List.mem_singleton.mp hb]
        exact fun heq => hnotMem (heq ▸ ha)⟩
  queued := by
    intro p hp
    simp only [keep, Semaphore.asked_enqueue, List.mem_append,
      List.mem_singleton] at hp
    rcases hp with hold | rfl
    · obtain ⟨weight', hqueued, hneed⟩ := h.queued p hold
      have hne : p.1 ≠ call := by
        rintro rfl
        simp [hcall] at hqueued
      exact ⟨weight', (lookup_keep_of_ne hne _ _).trans hqueued, hneed⟩
    · exact ⟨weight, AList.lookup_insert _, rfl⟩

theorem Move.lined {g g' : Gate} {op : Op} (hmove : Move g op g')
    (h : g.Lined) : g'.Lined := by
  cases hmove with
  | idle => exact h
  | taken hnew hsem =>
      exact h.of_outside (by simp [hnew]) (Semaphore.asked_of_tryAcquire hsem)
        fun _ hne => lookup_keep_of_ne hne _ _
  | refused hnew hsem =>
      exact h.of_outside (by simp [hnew]) rfl
        fun _ hne => lookup_keep_of_ne hne _ _
  | unqueued hcall | shed hcall | unslotted hcall =>
      exact h.of_outside (by simp [hcall]) rfl
        fun _ hne => lookup_leave_of_ne hne _
  | overflowed hcall | slotted hcall =>
      exact h.of_outside (by simp [hcall]) rfl
        fun _ hne => lookup_keep_of_ne hne _ _
  | enqueued hcall => exact h.enqueue hcall
  | polled hcall hsem =>
      exact h.of_erase (Semaphore.asked_of_poll hsem).2
        (Semaphore.tickets_of_poll hsem)
        fun _ hne => lookup_keep_of_ne hne _ _
  | cancelled hcall =>
      exact h.of_erase (Semaphore.asked_cancel_subset _ _)
        (Semaphore.tickets_cancel _ _)
        fun _ hne => lookup_leave_of_ne hne _
  | dropped hcall =>
      exact h.of_outside (by simp [hcall]) (Limiter.asked_dropPermit _ _)
        fun _ hne => lookup_leave_of_ne hne _
  | resized =>
      exact ⟨by
        rw [Semaphore.tickets_eq_asked, Limiter.asked_resize,
          ← Semaphore.tickets_eq_asked]
        exact h.nodup, fun p hp => h.queued p (Limiter.asked_resize _ _ ▸ hp)⟩
  | requeued => exact ⟨h.nodup, h.queued⟩

theorem Lined.step {g : Gate} (h : g.Lined) (op : Op) : (g.step op).Lined :=
  (g.move_step op).lined h

/-- What a call asked for, as long as it is to be seen. -/
def Asks (g : Gate) (call units : ℕ) : Prop :=
  match g.calls.lookup call with
  | some (.refused weight) | some (.slotted weight) | some (.queued weight) =>
      (weight : ℕ) = units
  | some (.holding held) => held = units
  | some .overflowed | none => True

theorem asks_of_none {g : Gate} {call : ℕ} (units : ℕ)
    (hcall : g.calls.lookup call = none) : g.Asks call units := by
  simp only [Asks, hcall]

theorem asks_keep {g : Gate} {call : ℕ} {state : Call} {units : ℕ}
    (limiter : Limiter)
    (hstate : match state with
      | .refused weight | .slotted weight | .queued weight =>
          (weight : ℕ) = units
      | .holding held => held = units
      | .overflowed => True) : (g.keep call state limiter).Asks call units := by
  simp only [Asks, keep, AList.lookup_insert]
  cases state <;> exact hstate

/-- A call goes on asking for the same, and is granted no less and no more. -/
theorem Move.asks {g g' : Gate} {op : Op} (hmove : Move g op g') (h : g.Lined)
    {call units : ℕ} (hasks : g.Asks call units)
    (hop : ∀ n, op = .tryAcquire call n → (Weight.ofNat n : ℕ) = units) :
    g'.Asks call units := by
  by_cases hown : op.call = some call
  · cases hmove with
    | idle | resized | requeued => exact hasks
    | taken | refused =>
        cases hown
        exact asks_keep _ (hop _ rfl)
    | overflowed hcall hmax hfull =>
        cases hown
        exact asks_keep _ trivial
    | slotted hcall | enqueued hcall =>
        cases hown
        simp only [Asks, hcall] at hasks
        exact asks_keep _ hasks
    | polled hcall hsem =>
        cases hown
        obtain ⟨weight, hqueued, hneed⟩ :=
          h.queued _ (Semaphore.asked_of_poll hsem).1
        simp only [Asks, hqueued] at hasks
        exact asks_keep _ (hneed.symm.trans hasks)
    | unqueued | shed | unslotted | cancelled | dropped =>
        cases hown
        exact asks_of_none _ (lookup_leave _ _ _)
  · simp only [Asks, hmove.lookup_of_ne hown]
    exact hasks

/-! ## A ceiling that stays -/

/-- A limiter that was never resized. -/
structure Fixed (g : Gate) (limit : ℕ) : Prop where
  conserved : g.Conserved
  limit_eq : g.limiter.limit = limit
  debt_eq : g.limiter.debt = 0

theorem fixed_new (limit queueMax : ℕ) :
    (Gate.new limit queueMax).Fixed limit :=
  ⟨conserved_new limit queueMax, rfl, rfl⟩

theorem limit_of_effect {g g' : Gate} {op : Op} (hop : ∀ n, op ≠ .resize n)
    (heffect : Effect g g' op) : g'.limiter.limit = g.limiter.limit := by
  cases heffect with
  | unmoved _ hlimit | taken _ _ hlimit | enqueued _ _ hlimit | polled _ hlimit
  | cancelled _ hlimit => exact hlimit
  | dropped hlimiter _ => rw [hlimiter, Limiter.limit_dropPermit]
  | resized _ _ => exact absurd rfl (hop _)

theorem debt_le_of_effect {g g' : Gate} {op : Op} (hop : ∀ n, op ≠ .resize n)
    (heffect : Effect g g' op) : g'.limiter.debt ≤ g.limiter.debt := by
  cases heffect with
  | unmoved _ _ hdebt | taken _ _ _ hdebt | enqueued _ _ _ hdebt
  | polled _ _ hdebt | cancelled _ _ hdebt => exact hdebt.le
  | dropped hlimiter _ =>
      rw [hlimiter]
      exact Limiter.debt_dropPermit_le _ _
  | resized _ _ => exact absurd rfl (hop _)

theorem Fixed.step {g : Gate} {limit : ℕ} (h : g.Fixed limit) {op : Op}
    (hop : ∀ n, op ≠ .resize n) : (g.step op).Fixed limit := by
  have heffect := g.effect_step op
  have hdebt := debt_le_of_effect hop heffect
  rw [h.debt_eq] at hdebt
  exact ⟨h.conserved.of_effect heffect,
    (limit_of_effect hop heffect).trans h.limit_eq, Nat.le_zero.mp hdebt⟩

theorem Fixed.live_le {g : Gate} {limit : ℕ} (h : g.Fixed limit) :
    g.live ≤ limit := by
  have hconserved : g.limiter.sem.units + g.live =
      g.limiter.limit + g.limiter.debt := h.conserved
  rw [h.limit_eq, h.debt_eq] at hconserved
  omega

/-! ## How many units there can be -/

/-- There are never more units than this, wherever they are. -/
structure Within (g : Gate) (bound : ℕ) : Prop where
  conserved : g.Conserved
  total_le : g.limiter.limit + g.limiter.debt ≤ bound

theorem within_new {limit bound : ℕ} (h : limit ≤ bound) (queueMax : ℕ) :
    (Gate.new limit queueMax).Within bound :=
  ⟨conserved_new limit queueMax, h⟩

theorem Within.call {g : Gate} {bound call : ℕ} {op : Op}
    (h : g.Within bound) (hop : op.call = some call) :
    (g.step op).Within bound := by
  have heffect := g.effect_step op
  have hlimit := limit_of_effect (ne_resize_of_call hop) heffect
  have hdebt := debt_le_of_effect (ne_resize_of_call hop) heffect
  have htotal := h.total_le
  refine ⟨h.conserved.of_effect heffect, ?_⟩
  omega

/-- What a reload does to one limiter. -/
theorem Within.resize {g : Gate} {bound limit : ℕ} (h : g.Within bound)
    (hlimit : limit ≤ bound) (queueMax : ℕ) :
    ((g.step (.resize limit)).step (.setQueue queueMax)).Within bound where
  conserved :=
    (h.conserved.of_effect (g.effect_step _)).of_effect (effect_step _ _)
  total_le :=
    (g.limiter.total_resize_le limit).trans
      (Nat.max_le.mpr ⟨hlimit, h.total_le⟩)

/-! ## Grants while the ceiling comes down -/

/-- While debt is owed, no call that has collected units leaves the line; and a
shrink by more than what is available finds nobody in line who has collected
everything. -/
def Orderly (g : Gate) : Op → Prop
  | .cancel call => 0 < g.limiter.debt →
      ∀ w, g.limiter.sem.waiter? call = some w → w.got = 0
  | .resize limit => limit + g.limiter.sem.available < g.limiter.limit →
      ∀ w ∈ g.limiter.sem.waiters, w.got < w.need
  | _ => True

theorem debtFirst_of_effect {g g' : Gate} {op : Op} (horderly : g.Orderly op)
    (h : g.limiter.DebtFirst) (heffect : Effect g g' op) :
    g'.limiter.DebtFirst := by
  cases heffect with
  | unmoved hsem hlimit hdebt hlive => rwa [Limiter.DebtFirst, hdebt, hsem]
  | taken weight hsem hlimit hdebt hlive =>
      intro howed
      rw [(h (hdebt ▸ howed)).tryAcquire_eq_none weight.2] at hsem
      cases hsem
  | enqueued weight hsem hlimit hdebt hlive =>
      intro howed
      rw [hsem]
      exact (h (hdebt ▸ howed)).enqueue _ weight.2
  | polled hsem hlimit hdebt hlive =>
      intro howed
      rw [(h (hdebt ▸ howed)).poll_eq_none] at hsem
      cases hsem
  | cancelled hsem hlimit hdebt hlive =>
      intro howed
      rw [hsem]
      exact (h (hdebt ▸ howed)).cancel (horderly (hdebt ▸ howed))
  | dropped hlimiter hlive =>
      rw [hlimiter]
      exact h.dropPermit _
  | resized hlimiter hlive =>
      rw [hlimiter]
      exact h.resize horderly

/-- Where debt comes first, whatever is granted fits under the ceiling. -/
theorem live_le_limit_of_effect {g g' : Gate} {op : Op} (h : g.Conserved)
    (hdebtFirst : g.limiter.DebtFirst) (heffect : Effect g g' op)
    (hgrant : g.live < g'.live) : g'.live ≤ g'.limiter.limit := by
  have hconserved : g'.limiter.sem.units + g'.live =
      g'.limiter.limit + g'.limiter.debt := h.of_effect heffect
  have hpaid : g'.limiter.debt = 0 := by
    cases heffect with
    | taken weight hsem hlimit hdebt hlive =>
        rw [hdebt]
        by_contra howed
        rw [(hdebtFirst (Nat.pos_of_ne_zero howed)).tryAcquire_eq_none
          weight.2] at hsem
        cases hsem
    | polled hsem hlimit hdebt hlive =>
        rw [hdebt]
        by_contra howed
        rw [(hdebtFirst (Nat.pos_of_ne_zero howed)).poll_eq_none] at hsem
        cases hsem
    | unmoved _ _ _ hlive | enqueued _ _ _ _ hlive | cancelled _ _ _ hlive
    | resized _ hlive => exact absurd hlive hgrant.ne'
    | dropped hlimiter hlive => omega
  omega

theorem debtFirst_run {limit queueMax : ℕ} {ops : List Op}
    (horderly : Guarded step Orderly (.new limit queueMax) ops) :
    (run step (.new limit queueMax) ops).limiter.DebtFirst :=
  run_invariant_of_guarded (P := fun g : Gate => g.limiter.DebtFirst)
    (fun g op hok h => debtFirst_of_effect hok h (g.effect_step op))
    (fun howed => absurd howed (Nat.lt_irrefl 0)) horderly

/-- In every orderly run, a step that grants units to live permits leaves them
within the ceiling in force. -/
theorem grant_within_limit (limit queueMax : ℕ) (ops : List Op) (op : Op)
    (horderly : Guarded step Orderly (.new limit queueMax) ops)
    (hgrant : (run step (.new limit queueMax) ops).live <
      (step (run step (.new limit queueMax) ops) op).live) :
    (step (run step (.new limit queueMax) ops) op).live ≤
      (step (run step (.new limit queueMax) ops) op).limiter.limit :=
  live_le_limit_of_effect (conserved_run limit queueMax ops)
    (debtFirst_run horderly) (effect_step _ op) hgrant

/-- The ceiling comes down from two to one; the permit that was out pays, and
the next one is granted within the new ceiling. -/
theorem grant_within_limit_after_shrink :
    Guarded step Orderly (.new 2 5) [.tryAcquire 0 2, .resize 1, .drop 0] ∧
      (step (run step (.new 2 5) [.tryAcquire 0 2, .resize 1, .drop 0])
        (.tryAcquire 1 1)).live ≤
          (step (run step (.new 2 5) [.tryAcquire 0 2, .resize 1, .drop 0])
            (.tryAcquire 1 1)).limiter.limit := by
  have horderly : Guarded step Orderly (.new 2 5)
      [.tryAcquire 0 2, .resize 1, .drop 0] :=
    ⟨trivial, fun _ w hw => absurd hw List.not_mem_nil, trivial, trivial⟩
  exact ⟨horderly, grant_within_limit 2 5 _ _ horderly (by decide)⟩

/-- The ceiling comes down from four to one while three units are out and one
is with a call in line.  The call goes away, and its unit is granted anew: four
units are out. -/
theorem shrink_over_admits :
    let g := run step (.new 4 5)
      [.tryAcquire 0 3, .tryAcquire 1 4, .takeSlot 1, .enqueue 1, .resize 1,
        .cancel 1]
    g.live = 3 ∧ (step g (.tryAcquire 2 1)).live = 4 ∧
      (step g (.tryAcquire 2 1)).limiter.limit = 1 := by
  decide

end Gate

end Harmost.Admission
