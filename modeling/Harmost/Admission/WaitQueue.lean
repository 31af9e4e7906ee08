import Harmost.Admission.Limiter

/-!
# The queue in front of a limiter

A call of `acquire` that finds too few units reserves a slot in the queue
before it waits in line, and gives the slot back when the wait is over, however
it ends.  The counter of slots and the semaphore are moved by accesses of their
own, and other calls come between any two of them.  `Gate` takes the end of a
wait and the return of its slot as one access; here each is one, and every run
of a gate whose bound stays is a run of the finer machine.
-/

namespace Harmost.Admission

open Harmost.Support

namespace Limiter

/-- `fetch_sub` on `queue_depth`, which wraps round at zero. -/
def decrementDepth (l : Limiter) : Limiter :=
  { l with
    queueDepth :=
      if l.queueDepth = 0 then 2 ^ 64 - 1 else l.queueDepth - 1 }

theorem decrementDepth_of_pos {l : Limiter} (h : 0 < l.queueDepth) :
    l.decrementDepth = { l with queueDepth := l.queueDepth - 1 } := by
  rw [decrementDepth, if_neg (Nat.pos_iff_ne_zero.mp h)]

theorem queueDepth_decrementDepth {l : Limiter} (h : 0 < l.queueDepth) :
    l.decrementDepth.queueDepth + 1 = l.queueDepth := by
  rw [decrementDepth_of_pos h]
  exact Nat.sub_add_cancel h

/-- The queue of a limiter is left as it is. -/
structure SameQueue (l l' : Limiter) : Prop where
  depth_eq : l'.queueDepth = l.queueDepth
  max_eq : l'.queueMax = l.queueMax
  tickets_eq : l'.sem.tickets = l.sem.tickets

theorem sameQueue_dropPermit (l : Limiter) (units : ℕ) :
    l.SameQueue (l.dropPermit units) := by
  simp only [dropPermit]
  split_ifs
  · exact ⟨rfl, rfl, rfl⟩
  · exact ⟨rfl, rfl, Semaphore.tickets_addPermits _ _⟩

theorem sameQueue_resize (l : Limiter) (newLimit : ℕ) :
    l.SameQueue (l.resize newLimit) := by
  simp only [resize]
  split_ifs
  · exact ⟨rfl, rfl, Semaphore.tickets_addPermits _ _⟩
  · exact ⟨rfl, rfl, rfl⟩
  · exact ⟨rfl, rfl, rfl⟩
  · exact ⟨rfl, rfl, rfl⟩
  · exact ⟨rfl, rfl, rfl⟩

end Limiter

/-- Where a call of `acquire` is between two of its accesses, or the permit it
came back with. -/
inductive Stage where
  /-- There was not enough at once. -/
  | refused (weight : Weight)
  /-- It has read the bound of the queue. -/
  | bounded (weight : Weight) (queueMax : ℕ)
  /-- It counted itself as waiting, and there were too many already. -/
  | overflowed
  /-- It has a slot in the queue. -/
  | slotted (weight : Weight)
  /-- It waits in line. -/
  | queued
  /-- The wait is over, with a permit or without; the slot is still taken. -/
  | settled (units : Option ℕ)
  | holding (units : ℕ)
  deriving DecidableEq

namespace Stage

/-- One if the call is counted in `queue_depth`. -/
def counted : Stage → ℕ
  | .overflowed | .slotted _ | .queued | .settled _ => 1
  | _ => 0

/-- One if the call has a slot in the queue. -/
def slots : Stage → ℕ
  | .slotted _ | .queued | .settled _ => 1
  | _ => 0

/-- One if the call waits in line. -/
def waiting : Stage → ℕ
  | .queued => 1
  | _ => 0

/-- The call has not come back yet. -/
def InProgress : Stage → Prop
  | .holding _ => False
  | _ => True

theorem slots_le_counted (s : Stage) : s.slots ≤ s.counted := by
  cases s <;> simp [slots, counted]

theorem waiting_le_slots (s : Stage) : s.waiting ≤ s.slots := by
  cases s <;> simp [waiting, slots]

theorem waiting_le_counted (s : Stage) : s.waiting ≤ s.counted :=
  s.waiting_le_slots.trans s.slots_le_counted

theorem counted_of_not_inProgress {s : Stage} (h : ¬ s.InProgress) :
    s.counted = 0 := by
  cases s with
  | holding units => rfl
  | _ => exact absurd trivial h

end Stage

/-- What a call of `acquire`, or the permit it came back with, does next to
the limiter. -/
inductive Access where
  | tryAcquire (weight : ℕ)
  | loadQueueMax
  | takeSlot
  | shed
  | enqueue
  | poll
  /-- The wait times out, or the request goes away. -/
  | cancel
  | dropSlot
  | drop

/-- The limiter and the stage after an access, if it is the next one of the
call. -/
def Access.apply (l : Limiter) (call : ℕ) :
    Access → Option Stage → Option (Limiter × Option Stage)
  | .tryAcquire weight, none =>
      let weight := Weight.ofNat weight
      match l.sem.tryAcquire weight with
      | some sem => some ({ l with sem := sem }, some (.holding weight))
      | none => some (l, some (.refused weight))
  | .loadQueueMax, some (.refused weight) =>
      if l.queueMax = 0 then some (l, none)
      else some (l, some (.bounded weight l.queueMax))
  | .takeSlot, some (.bounded weight queueMax) =>
      let depth := l.queueDepth
      let l := { l with queueDepth := depth + 1 }
      if queueMax ≤ depth then some (l, some .overflowed)
      else some (l, some (.slotted weight))
  | .shed, some .overflowed => some (l.decrementDepth, none)
  | .enqueue, some (.slotted weight) =>
      some ({ l with sem := l.sem.enqueue call weight }, some .queued)
  | .poll, some .queued =>
      match l.sem.poll call with
      | some (sem, units) =>
          some ({ l with sem := sem }, some (.settled (some units)))
      | none => none
  -- A call that unwinds before it waits returns its slot as well.
  | .cancel, some (.slotted _) => some (l, some (.settled none))
  | .cancel, some .queued =>
      some ({ l with sem := l.sem.cancel call }, some (.settled none))
  | .dropSlot, some (.settled units) =>
      some (l.decrementDepth, units.map .holding)
  | .drop, some (.holding units) => some (l.dropPermit units, none)
  | _, _ => none

/-- A limiter and the calls that have come to it. -/
structure WaitQueue where
  limiter : Limiter
  calls : AssocMap ℕ Stage := ∅

namespace WaitQueue

/-- One access of a call, or a change of the ceiling. -/
inductive Op where
  | access (call : ℕ) (access : Access)
  | resize (limit : ℕ)

def new (limit queueMax : ℕ) : WaitQueue where
  limiter := .new limit queueMax

/-- One access.  An access that is not the next one of its call does
nothing. -/
def step (q : WaitQueue) : Op → WaitQueue
  | .access call access =>
      match access.apply q.limiter call (q.calls.lookup call) with
      | some (limiter, stage) =>
          { limiter := limiter, calls := AssocMap.set q.calls call stage }
      | none => q
  | .resize limit => { q with limiter := q.limiter.resize limit }

variable (q : WaitQueue)

/-- The calls that wait in line. -/
def waiting : ℕ :=
  AssocMap.total (fun _ => Stage.waiting) q.calls

/-- The calls with a slot in the queue. -/
def slots : ℕ :=
  AssocMap.total (fun _ => Stage.slots) q.calls

/-- The calls that `queue_depth` counts. -/
def counted : ℕ :=
  AssocMap.total (fun _ => Stage.counted) q.calls

theorem waiting_le_slots : q.waiting ≤ q.slots :=
  AssocMap.total_le_total (fun _ => Stage.waiting_le_slots) q.calls

theorem slots_le_counted : q.slots ≤ q.counted :=
  AssocMap.total_le_total (fun _ => Stage.slots_le_counted) q.calls

end WaitQueue

/-! ## What an access does to the queue -/

/-- What an access does to the queue of the limiter, from one stage of its call
to the next. -/
inductive Access.Effect (l l' : Limiter) (call : ℕ) :
    Option Stage → Option Stage → Prop
  /-- The call is outside the queue. -/
  | outside {s s' : Option Stage} (hsame : l.SameQueue l')
      (hs : s.elim 0 Stage.counted = 0) (hs' : s'.elim 0 Stage.counted = 0)
      (hload : ∀ weight queueMax, s' = some (.bounded weight queueMax) →
        queueMax = l.queueMax) : Effect l l' call s s'
  /-- The call counts itself, and there are too many already. -/
  | overflows {weight : Weight} {queueMax : ℕ}
      (hdepth : l'.queueDepth = l.queueDepth + 1)
      (hmax : l'.queueMax = l.queueMax)
      (htickets : l'.sem.tickets = l.sem.tickets) :
      Effect l l' call (some (.bounded weight queueMax)) (some .overflowed)
  /-- The call counts itself and gets a slot. -/
  | takes {weight : Weight} {queueMax : ℕ} (hroom : l.queueDepth < queueMax)
      (hdepth : l'.queueDepth = l.queueDepth + 1)
      (hmax : l'.queueMax = l.queueMax)
      (htickets : l'.sem.tickets = l.sem.tickets) :
      Effect l l' call (some (.bounded weight queueMax))
        (some (.slotted weight))
  | joins {weight : Weight} (hdepth : l'.queueDepth = l.queueDepth)
      (hmax : l'.queueMax = l.queueMax)
      (htickets : l'.sem.tickets = l.sem.tickets ++ [call]) :
      Effect l l' call (some (.slotted weight)) (some .queued)
  | leaves {units : Option ℕ} (hdepth : l'.queueDepth = l.queueDepth)
      (hmax : l'.queueMax = l.queueMax)
      (htickets : l'.sem.tickets = l.sem.tickets.erase call) :
      Effect l l' call (some .queued) (some (.settled units))
  | unwinds {weight : Weight} (hsame : l.SameQueue l') :
      Effect l l' call (some (.slotted weight)) (some (.settled none))
  /-- The call is counted no longer. -/
  | returns {s : Stage} {s' : Option Stage} (hlimiter : l' = l.decrementDepth)
      (hs : s.counted = 1) (hwaiting : s.waiting = 0)
      (hs' : s'.elim 0 Stage.counted = 0)
      (hload : ∀ weight queueMax, s' ≠ some (.bounded weight queueMax)) :
      Effect l l' call (some s) s'

theorem Access.effect_apply {l l' : Limiter} {call : ℕ} {access : Access}
    {s s' : Option Stage} (h : access.apply l call s = some (l', s')) :
    Effect l l' call s s' := by
  unfold Access.apply at h
  split at h
  · rename_i weight
    dsimp only at h
    split at h
    · rename_i sem hsem
      cases h
      exact .outside ⟨rfl, rfl, Semaphore.tickets_of_tryAcquire hsem⟩ rfl rfl
        (by simp)
    · cases h
      exact .outside ⟨rfl, rfl, rfl⟩ rfl rfl (by simp)
  · split_ifs at h <;> cases h <;>
      exact .outside ⟨rfl, rfl, rfl⟩ rfl rfl (by simp)
  · dsimp only at h
    split_ifs at h with hfull
    · cases h
      exact .overflows rfl rfl rfl
    · cases h
      exact .takes (Nat.lt_of_not_le hfull) rfl rfl rfl
  · cases h
    exact .returns rfl rfl rfl rfl (by simp)
  · cases h
    exact .joins rfl rfl (Semaphore.tickets_enqueue _ _ _)
  · split at h
    · rename_i sem units hpoll
      cases h
      exact .leaves rfl rfl (Semaphore.tickets_of_poll hpoll)
    · cases h
  · cases h
    exact .unwinds ⟨rfl, rfl, rfl⟩
  · cases h
    exact .leaves rfl rfl (Semaphore.tickets_cancel _ _)
  · rename_i units
    cases h
    refine .returns rfl rfl rfl ?_ ?_
    · cases units <;> rfl
    · cases units <;> simp
  · cases h
    exact .outside (l.sameQueue_dropPermit _) rfl rfl (by simp)
  · cases h

namespace Access.Effect

variable {l l' : Limiter} {call : ℕ} {s s' : Option Stage}

theorem elim_eq_zero {f : Stage → ℕ} (hf : ∀ s, f s ≤ s.counted)
    (h : s.elim 0 Stage.counted = 0) : s.elim 0 f = 0 := by
  cases s with
  | none => rfl
  | some s => exact Nat.le_zero.mp ((hf s).trans (Nat.le_of_eq h))

section

variable (h : Effect l l' call s s')
include h

theorem max_eq : l'.queueMax = l.queueMax := by
  cases h with
  | outside hsame | unwinds hsame => exact hsame.max_eq
  | overflows _ hmax | takes _ _ hmax | joins _ hmax | leaves _ hmax =>
      exact hmax
  | returns hlimiter => rw [hlimiter, Limiter.decrementDepth]

/-- A bound that is read is the one of the limiter. -/
theorem loaded_eq {weight : Weight} {queueMax : ℕ}
    (hs' : s' = some (.bounded weight queueMax)) : queueMax = l.queueMax := by
  cases h with
  | outside hsame _ _ hload => exact hload weight queueMax hs'
  | returns hlimiter hs hwaiting _ hload =>
      exact absurd hs' (hload weight queueMax)
  | _ => simp at hs'

/-- The counter moves with what it counts. -/
theorem depth_eq (hcounted : s.elim 0 Stage.counted ≤ l.queueDepth) :
    l'.queueDepth + s.elim 0 Stage.counted =
      l.queueDepth + s'.elim 0 Stage.counted := by
  cases h with
  | outside hsame hs hs' => rw [hsame.depth_eq, hs, hs']
  | overflows hdepth | takes _ hdepth | joins hdepth | leaves hdepth =>
      rw [hdepth]; rfl
  | unwinds hsame => rw [hsame.depth_eq]; rfl
  | returns hlimiter hs hwaiting hs' =>
      have hpos : 0 < l.queueDepth := by
        rwa [Option.elim_some, hs] at hcounted
      rw [hlimiter, Option.elim_some, hs, hs',
        Limiter.queueDepth_decrementDepth hpos, Nat.add_zero]

/-- A slot is taken only where the counter has not reached the bound that the
call has read. -/
theorem slots_cases :
    s'.elim 0 Stage.slots ≤ s.elim 0 Stage.slots ∨
      s'.elim 0 Stage.slots = 1 ∧
        ∃ weight queueMax, s = some (.bounded weight queueMax) ∧
          l.queueDepth < queueMax := by
  cases h with
  | outside _ _ hs' | returns _ _ _ hs' =>
      rw [elim_eq_zero Stage.slots_le_counted hs']
      exact .inl (Nat.zero_le _)
  | overflows => exact .inl (Nat.zero_le _)
  | takes hroom => exact .inr ⟨rfl, _, _, rfl, hroom⟩
  | joins | leaves | unwinds => exact .inl (Nat.le_refl _)

/-- What an access does to the line. -/
theorem tickets_cases :
    (l'.sem.tickets = l.sem.tickets ∧
        s'.elim 0 Stage.waiting = s.elim 0 Stage.waiting) ∨
      (l'.sem.tickets = l.sem.tickets ++ [call] ∧
        s.elim 0 Stage.waiting = 0 ∧ s'.elim 0 Stage.waiting = 1) ∨
      l'.sem.tickets = l.sem.tickets.erase call ∧
        s.elim 0 Stage.waiting = 1 ∧ s'.elim 0 Stage.waiting = 0 := by
  cases h with
  | outside hsame hs hs' =>
      rw [elim_eq_zero Stage.waiting_le_counted hs,
        elim_eq_zero Stage.waiting_le_counted hs']
      exact .inl ⟨hsame.tickets_eq, rfl⟩
  | overflows _ _ htickets | takes _ _ _ htickets => exact .inl ⟨htickets, rfl⟩
  | joins hdepth hmax htickets => exact .inr (.inl ⟨htickets, rfl, rfl⟩)
  | leaves hdepth hmax htickets => exact .inr (.inr ⟨htickets, rfl, rfl⟩)
  | unwinds hsame => exact .inl ⟨hsame.tickets_eq, rfl⟩
  | returns hlimiter hs hwaiting hs' =>
      rw [elim_eq_zero Stage.waiting_le_counted hs', hlimiter]
      exact .inl ⟨rfl, hwaiting.symm⟩

theorem count_of_ne {other : ℕ} (hne : other ≠ call) :
    l'.sem.tickets.count other = l.sem.tickets.count other := by
  rcases h.tickets_cases with ⟨htickets, -⟩ | ⟨htickets, -⟩ | ⟨htickets, -⟩
  · rw [htickets]
  · rw [htickets, List.count_append, List.count_singleton,
      if_neg (by simpa using hne.symm), Nat.add_zero]
  · rw [htickets, List.count_erase_of_ne hne]

/-- A call stands in line as often as its stage says. -/
theorem count_eq (hcount : l.sem.tickets.count call = s.elim 0 Stage.waiting) :
    l'.sem.tickets.count call = s'.elim 0 Stage.waiting := by
  rcases h.tickets_cases with ⟨htickets, hstage⟩ | ⟨htickets, hs, hs'⟩ |
    ⟨htickets, hs, hs'⟩
  · rw [htickets, hcount, hstage]
  · rw [htickets, List.count_append, hcount, hs, hs', List.count_singleton_self]
  · rw [htickets, List.count_erase_self, hcount, hs, hs']

theorem length_eq (hcount : l.sem.tickets.count call = s.elim 0 Stage.waiting) :
    l'.sem.tickets.length + s.elim 0 Stage.waiting =
      l.sem.tickets.length + s'.elim 0 Stage.waiting := by
  rcases h.tickets_cases with ⟨htickets, hstage⟩ | ⟨htickets, hs, hs'⟩ |
    ⟨htickets, hs, hs'⟩
  · rw [htickets, hstage]
  · rw [htickets, hs, hs', List.length_append, List.length_singleton]
  · have hmem : call ∈ l.sem.tickets :=
      List.count_pos_iff.mp (by rw [hcount, hs]; exact Nat.one_pos)
    rw [htickets, hs, hs', List.length_erase_add_one hmem, Nat.add_zero]

end

end Access.Effect

/-! ## Every run of a limiter whose bound stays -/

namespace WaitQueue

/-- The counter counts what it should, and the slots are within the bound. -/
structure Counts (q : WaitQueue) (queueMax : ℕ) : Prop where
  max_eq : q.limiter.queueMax = queueMax
  /-- Whoever has read a bound has read this one. -/
  loaded_eq : ∀ call weight max,
    q.calls.lookup call = some (.bounded weight max) → max = queueMax
  depth_eq : q.limiter.queueDepth = q.counted
  slots_le : q.slots ≤ queueMax
  /-- Those in line are the calls that wait. -/
  count_eq : ∀ call, q.limiter.sem.tickets.count call =
    (q.calls.lookup call).elim 0 Stage.waiting
  length_eq : q.limiter.sem.tickets.length = q.waiting

theorem counts_new (limit queueMax : ℕ) :
    (new limit queueMax).Counts queueMax where
  max_eq := rfl
  loaded_eq := by
    intro call weight max hcall
    cases hcall
  depth_eq := rfl
  slots_le := Nat.zero_le _
  count_eq _ := rfl
  length_eq := rfl

variable {q : WaitQueue} {queueMax : ℕ}

theorem Counts.elim_le_depth (h : q.Counts queueMax) (call : ℕ) :
    (q.calls.lookup call).elim 0 Stage.counted ≤ q.limiter.queueDepth := by
  rw [h.depth_eq]
  cases hcall : q.calls.lookup call with
  | none => exact Nat.zero_le _
  | some s => exact AssocMap.le_total (fun _ => Stage.counted) hcall

theorem Counts.of_effect (h : q.Counts queueMax) {l' : Limiter} {call : ℕ}
    {s' : Option Stage}
    (heffect : Access.Effect q.limiter l' call (q.calls.lookup call) s') :
    Counts { limiter := l', calls := AssocMap.set q.calls call s' }
      queueMax where
  max_eq := heffect.max_eq.trans h.max_eq
  loaded_eq := by
    intro other weight max hother
    by_cases heq : other = call
    · subst heq
      rw [AssocMap.lookup_set] at hother
      exact (heffect.loaded_eq hother).trans h.max_eq
    · rw [AssocMap.lookup_set_of_ne _ heq] at hother
      exact h.loaded_eq other weight max hother
  depth_eq := by
    have hdepth := heffect.depth_eq (h.elim_le_depth call)
    have htotal := AssocMap.total_set (fun _ => Stage.counted) q.calls call s'
    have hold : q.limiter.queueDepth =
        AssocMap.total (fun _ => Stage.counted) q.calls := h.depth_eq
    change l'.queueDepth =
      AssocMap.total (fun _ => Stage.counted) (AssocMap.set q.calls call s')
    omega
  slots_le := by
    have htotal := AssocMap.total_set (fun _ => Stage.slots) q.calls call s'
    have hold : AssocMap.total (fun _ => Stage.slots) q.calls ≤ queueMax :=
      h.slots_le
    change AssocMap.total (fun _ => Stage.slots)
      (AssocMap.set q.calls call s') ≤ queueMax
    rcases heffect.slots_cases with hle | ⟨hone, weight, max, hcall, hroom⟩
    · omega
    · -- The counter is at least the slots, and below the bound.
      have hmax := h.loaded_eq call weight max hcall
      have hslots : AssocMap.total (fun _ => Stage.slots) q.calls ≤
          q.limiter.queueDepth :=
        h.depth_eq ▸ q.slots_le_counted
      omega
  count_eq := by
    intro other
    by_cases heq : other = call
    · subst heq
      rw [AssocMap.lookup_set]
      exact heffect.count_eq (h.count_eq other)
    · rw [AssocMap.lookup_set_of_ne _ heq]
      exact (heffect.count_of_ne heq).trans (h.count_eq other)
  length_eq := by
    have hlength := heffect.length_eq (h.count_eq call)
    have htotal := AssocMap.total_set (fun _ => Stage.waiting) q.calls call s'
    have hold : q.limiter.sem.tickets.length =
        AssocMap.total (fun _ => Stage.waiting) q.calls := h.length_eq
    change l'.sem.tickets.length =
      AssocMap.total (fun _ => Stage.waiting) (AssocMap.set q.calls call s')
    omega

theorem Counts.of_sameQueue (h : q.Counts queueMax) {l' : Limiter}
    (hsame : q.limiter.SameQueue l') :
    Counts { q with limiter := l' } queueMax where
  max_eq := hsame.max_eq.trans h.max_eq
  loaded_eq := h.loaded_eq
  depth_eq := hsame.depth_eq.trans h.depth_eq
  slots_le := h.slots_le
  count_eq call := by rw [hsame.tickets_eq]; exact h.count_eq call
  length_eq := by rw [hsame.tickets_eq]; exact h.length_eq

theorem Counts.step (h : q.Counts queueMax) (op : Op) :
    (q.step op).Counts queueMax := by
  cases op with
  | resize limit => exact h.of_sameQueue (q.limiter.sameQueue_resize limit)
  | access call access =>
      simp only [WaitQueue.step]
      split
      · rename_i limiter stage happly
        exact h.of_effect (Access.effect_apply happly)
      · exact h

theorem counts_run (h : q.Counts queueMax) (ops : List Op) :
    (run step q ops).Counts queueMax :=
  run_invariant (P := (Counts · queueMax)) (fun _ op h => h.step op) h ops

/-- The next access of a call takes one off `queue_depth`. -/
def Decrements (q : WaitQueue) (call : ℕ) : Prop :=
  q.calls.lookup call = some .overflowed ∨
    ∃ units, q.calls.lookup call = some (.settled units)

theorem Counts.depth_pos (h : q.Counts queueMax) {call : ℕ}
    (hcall : q.Decrements call) : 0 < q.limiter.queueDepth := by
  have hle := h.elim_le_depth call
  rcases hcall with hcall | ⟨units, hcall⟩
  all_goals
    rwa [hcall] at hle

theorem Counts.depth_eq_zero (h : q.Counts queueMax)
    (hidle : ∀ call stage, q.calls.lookup call = some stage →
      ¬ stage.InProgress) : q.limiter.queueDepth = 0 := by
  have hzero : q.counted = AssocMap.total (fun _ _ => 0) q.calls :=
    AssocMap.total_congr fun call stage hcall =>
      Stage.counted_of_not_inProgress (hidle call stage hcall)
  rw [h.depth_eq, hzero, AssocMap.total_key]
  simp

theorem Counts.line_eq (h : q.Counts queueMax) :
    q.limiter.sem.waiters.length = q.waiting := by
  rw [← h.length_eq, Semaphore.tickets, List.length_map]

theorem Counts.waiting_le_max (h : q.Counts queueMax) : q.waiting ≤ queueMax :=
  q.waiting_le_slots.trans h.slots_le

theorem Counts.waiting_le_depth (h : q.Counts queueMax) :
    q.waiting ≤ q.limiter.queueDepth := by
  rw [h.depth_eq]
  exact q.waiting_le_slots.trans q.slots_le_counted

/-- However the accesses of any number of calls are interleaved: those in line
are the calls that wait, they are within the bound of the queue and within
`queue_depth`, no access takes one off a `queue_depth` of zero, and
`queue_depth` is zero when no call is in progress. -/
theorem wait_queue_bounded (limit queueMax : ℕ) (ops : List Op) :
    let q := run step (new limit queueMax) ops
    q.limiter.sem.waiters.length = q.waiting ∧
      q.waiting ≤ queueMax ∧
      q.waiting ≤ q.limiter.queueDepth ∧
      (∀ call, q.Decrements call → 0 < q.limiter.queueDepth) ∧
      ((∀ call stage, q.calls.lookup call = some stage →
          ¬ stage.InProgress) →
        q.limiter.queueDepth = 0) := by
  intro q
  have hcounts : q.Counts queueMax := counts_run (counts_new limit queueMax) ops
  exact ⟨hcounts.line_eq, hcounts.waiting_le_max, hcounts.waiting_le_depth,
    fun call => hcounts.depth_pos, hcounts.depth_eq_zero⟩

/-- The counter passes the bound while a call that is one too many has yet to
give its count back. -/
example :
    let q := run step (new 0 1)
      [.access 0 (.tryAcquire 1), .access 0 .loadQueueMax,
        .access 1 (.tryAcquire 1), .access 1 .loadQueueMax,
        .access 0 .takeSlot, .access 0 .enqueue, .access 1 .takeSlot]
    q.waiting = 1 ∧ q.limiter.queueDepth = 2 := by
  decide

/-! ## Gates -/

/-- The stage that a gate's call is in. -/
def Stage.ofCall : Call → Stage
  | .refused weight => .refused weight
  | .overflowed => .overflowed
  | .slotted weight => .slotted weight
  | .queued _ => .queued
  | .holding units => .holding units

/-- The two have the same limiter, and their calls are equally far. -/
structure Mirrors (q : WaitQueue) (g : Gate) : Prop where
  limiter_eq : q.limiter = g.limiter
  lookup_eq : ∀ call,
    q.calls.lookup call = (g.calls.lookup call).map Stage.ofCall

/-- The limiter and the stage of a call after one more access of it. -/
def after (call : ℕ) (p : Limiter × Option Stage) (access : Access) :
    Limiter × Option Stage :=
  (access.apply p.1 call p.2).getD p

theorem step_access (q : WaitQueue) (call : ℕ) (access : Access) :
    ((q.step (.access call access)).limiter,
        (q.step (.access call access)).calls.lookup call) =
      after call (q.limiter, q.calls.lookup call) access := by
  simp only [WaitQueue.step, after]
  cases access.apply q.limiter call (q.calls.lookup call) with
  | none => rfl
  | some p => exact Prod.ext rfl (AssocMap.lookup_set _ _ _)

theorem lookup_step_access_of_ne (q : WaitQueue) {call other : ℕ}
    (hne : other ≠ call) (access : Access) :
    (q.step (.access call access)).calls.lookup other =
      q.calls.lookup other := by
  simp only [WaitQueue.step]
  split
  · exact AssocMap.lookup_set_of_ne _ hne _
  · rfl

theorem run_access (q : WaitQueue) (call : ℕ) (accesses : List Access) :
    ((run step q (accesses.map (.access call))).limiter,
        (run step q (accesses.map (.access call))).calls.lookup call) =
      run (after call) (q.limiter, q.calls.lookup call) accesses := by
  induction accesses generalizing q with
  | nil => rfl
  | cons access accesses ih =>
      rw [List.map_cons, run_cons, run_cons, ih, step_access]

theorem lookup_run_access_of_ne (q : WaitQueue) {call other : ℕ}
    (hne : other ≠ call) (accesses : List Access) :
    (run step q (accesses.map (.access call))).calls.lookup other =
      q.calls.lookup other := by
  induction accesses generalizing q with
  | nil => rfl
  | cons access accesses ih =>
      rw [List.map_cons, run_cons, ih, lookup_step_access_of_ne q hne]

/-- A move of a gate, as accesses of the one call it belongs to. -/
theorem Mirrors.of_accesses {g g' : Gate} (h : q.Mirrors g) {op : Gate.Op}
    (hmove : Gate.Move g op g') {call : ℕ} (hop : op.call = some call)
    (accesses : List Access)
    (hafter : run (after call)
        (g.limiter, (g.calls.lookup call).map Stage.ofCall) accesses =
      (g'.limiter, (g'.calls.lookup call).map Stage.ofCall)) :
    ∃ ops, (run step q ops).Mirrors g' := by
  have hpair := q.run_access call accesses
  rw [h.limiter_eq, h.lookup_eq, hafter] at hpair
  obtain ⟨hlimiter, hlookup⟩ := Prod.mk.inj hpair
  refine ⟨accesses.map (.access call), hlimiter, fun other => ?_⟩
  by_cases heq : other = call
  · rw [heq, hlookup]
  · have hne : op.call ≠ some other := by
      rw [hop]
      exact fun hsome => heq (Option.some.inj hsome).symm
    rw [lookup_run_access_of_ne q heq, h.lookup_eq, hmove.lookup_of_ne hne]

theorem Mirrors.depth_pos {g : Gate} (h : q.Mirrors g)
    (hcounts : q.Counts queueMax) {call : ℕ} {c : Call}
    (hcall : g.calls.lookup call = some c)
    (hc : (Stage.ofCall c).counted = 1) : 0 < g.limiter.queueDepth := by
  have hle := hcounts.elim_le_depth call
  rwa [h.lookup_eq, h.limiter_eq, hcall, Option.map_some, Option.elim_some,
    hc] at hle

/-- A move of a gate is a run of the finer machine. -/
theorem exists_run_of_move {g g' : Gate} (h : q.Mirrors g)
    (hcounts : q.Counts queueMax) {op : Gate.Op}
    (hmove : Gate.Move g op g') (hop : ∀ max, op ≠ .setQueue max) :
    ∃ ops, (run step q ops).Mirrors g' := by
  have hmoved := hmove
  cases hmove with
  | idle => exact ⟨[], h⟩
  | @taken _ n _ hnew hsem | @refused _ n hnew hsem =>
      refine h.of_accesses hmoved rfl [.tryAcquire n] ?_
      simp [hnew, hsem, after, Access.apply, Gate.keep, Stage.ofCall]
  | unqueued hcall hmax =>
      refine h.of_accesses hmoved rfl [.loadQueueMax] ?_
      simp [hcall, hmax, after, Access.apply, Gate.leave, Stage.ofCall]
  | overflowed hcall hmax hroom | slotted hcall hmax hroom =>
      refine h.of_accesses hmoved rfl [.loadQueueMax, .takeSlot] ?_
      simp [hcall, hmax, hroom, after, Access.apply, Gate.keep, Stage.ofCall]
  | shed hcall =>
      have hpos := h.depth_pos hcounts hcall rfl
      refine h.of_accesses hmoved rfl [.shed] ?_
      simp [hcall, after, Access.apply, Gate.leave, Stage.ofCall,
        Limiter.decrementDepth_of_pos hpos]
  | enqueued hcall =>
      refine h.of_accesses hmoved rfl [.enqueue] ?_
      simp [hcall, after, Access.apply, Gate.keep, Stage.ofCall]
  | polled hcall hsem =>
      have hpos := h.depth_pos hcounts hcall rfl
      refine h.of_accesses hmoved rfl [.poll, .dropSlot] ?_
      simp [hcall, hsem, after, Access.apply, Gate.keep, Stage.ofCall,
        Limiter.decrementDepth, hpos.ne']
  | unslotted hcall | cancelled hcall =>
      have hpos := h.depth_pos hcounts hcall rfl
      refine h.of_accesses hmoved rfl [.cancel, .dropSlot] ?_
      simp [hcall, after, Access.apply, Gate.leave, Stage.ofCall,
        Limiter.decrementDepth, hpos.ne']
  | dropped hcall =>
      refine h.of_accesses hmoved rfl [.drop] ?_
      simp [hcall, after, Access.apply, Gate.leave, Stage.ofCall]
  | @resized limit =>
      exact ⟨[.resize limit], congrArg (Limiter.resize · limit) h.limiter_eq,
        h.lookup_eq⟩
  | @requeued max => exact absurd rfl (hop max)

/-- Every run of a gate whose bound stays is a run of the finer machine. -/
theorem exists_run_of_gate {g : Gate} (h : q.Mirrors g)
    (hcounts : q.Counts queueMax) {ops : List Gate.Op}
    (hops : ∀ op ∈ ops, ∀ max, op ≠ .setQueue max) :
    ∃ ops', (run step q ops').Mirrors (run Gate.step g ops) := by
  induction ops generalizing q g with
  | nil => exact ⟨[], h⟩
  | cons op ops ih =>
      rw [List.forall_mem_cons] at hops
      obtain ⟨first, hfirst⟩ :=
        exists_run_of_move h hcounts (g.move_step op) hops.1
      obtain ⟨rest, hrest⟩ := ih hfirst (counts_run hcounts first) hops.2
      exact ⟨first ++ rest, by rwa [run_append, run_cons]⟩

/-- Those in line at a gate whose bound stays are within the bound and within
`queue_depth`. -/
theorem line_le_of_gate (limit queueMax : ℕ) {ops : List Gate.Op}
    (hops : ∀ op ∈ ops, ∀ max, op ≠ .setQueue max) :
    let g := run Gate.step (.new limit queueMax) ops
    g.limiter.sem.waiters.length ≤ min queueMax g.limiter.queueDepth := by
  intro g
  have hnew : (new limit queueMax).Mirrors (.new limit queueMax) :=
    ⟨rfl, fun _ => rfl⟩
  obtain ⟨ops', hmirrors⟩ :=
    exists_run_of_gate hnew (counts_new limit queueMax) hops
  have hcounts := counts_run (counts_new limit queueMax) ops'
  rw [← hmirrors.limiter_eq, hcounts.line_eq]
  exact Nat.le_min.mpr ⟨hcounts.waiting_le_max, hcounts.waiting_le_depth⟩

end WaitQueue

end Harmost.Admission
