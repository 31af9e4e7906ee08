import Mathlib.Algebra.BigOperators.Group.List.Basic
import Mathlib.Algebra.GroupWithZero.Nat

/-!
# Counting semaphores with a queue

A semaphore whose requests may ask for several units at once.  Requests that
cannot be met wait in line and collect units as they come, the first in line
before the others; a request that is cancelled gives back what it has
collected.  No operation makes or loses a unit.
-/

namespace Harmost.Support

/-- A request that waits in line. -/
structure Waiter where
  ticket : ℕ
  need : ℕ
  /-- The units it has collected. -/
  got : ℕ
  got_le : got ≤ need
  deriving DecidableEq

structure Semaphore where
  available : ℕ
  waiters : List Waiter := []
  deriving DecidableEq

namespace Semaphore

/-- Hand out units to those in line, from the front, and say how many are
left. -/
def assign : ℕ → List Waiter → ℕ × List Waiter
  | n, [] => (n, [])
  | n, w :: ws =>
      let given := min n (w.need - w.got)
      let rest := assign (n - given) ws
      (rest.1,
        ⟨w.ticket, w.need, w.got + given, by have := w.got_le; omega⟩ :: rest.2)

variable (s : Semaphore)

/-- Add units: first to those in line, then to what is available. -/
def addPermits (n : ℕ) : Semaphore :=
  let handed := assign n s.waiters
  { available := s.available + handed.1, waiters := handed.2 }

/-- Take units that are available, and only all of them at once. -/
def tryAcquire (n : ℕ) : Option Semaphore :=
  if n ≤ s.available then some { s with available := s.available - n } else none

/-- Take what is available and wait in line for the rest. -/
def enqueue (ticket n : ℕ) : Semaphore where
  available := s.available - min s.available n
  waiters := s.waiters ++
    [⟨ticket, n, min s.available n, Nat.min_le_right _ _⟩]

def waiter? (ticket : ℕ) : Option Waiter :=
  s.waiters.find? fun w => decide (w.ticket = ticket)

def remove (ticket : ℕ) : Semaphore :=
  { s with
    waiters := s.waiters.eraseP fun w => decide (w.ticket = ticket) }

/-- Leave the line with everything that was asked for, if it is there. -/
def poll (ticket : ℕ) : Option (Semaphore × ℕ) :=
  match s.waiter? ticket with
  | none => none
  | some w => if w.got = w.need then some (s.remove ticket, w.need) else none

/-- Leave the line and give back what was collected. -/
def cancel (ticket : ℕ) : Semaphore :=
  match s.waiter? ticket with
  | none => s
  | some w => (s.remove ticket).addPermits w.got

/-- Take units out of circulation, as far as they are available. -/
def forgetPermits (n : ℕ) : Semaphore × ℕ :=
  ({ s with available := s.available - min s.available n }, min s.available n)

/-! ## Units -/

/-- The units that those in line have collected. -/
def collected : ℕ :=
  (s.waiters.map Waiter.got).sum

/-- All units that are not held by anybody. -/
def units : ℕ :=
  s.available + s.collected

theorem assign_total (n : ℕ) (ws : List Waiter) :
    (assign n ws).1 + ((assign n ws).2.map Waiter.got).sum =
      n + (ws.map Waiter.got).sum := by
  induction ws generalizing n with
  | nil => rfl
  | cons w ws ih =>
      have hrest := ih (n - min n (w.need - w.got))
      have hgiven : min n (w.need - w.got) ≤ n := Nat.min_le_left _ _
      simp only [assign, List.map_cons, List.sum_cons]
      omega

theorem units_addPermits (n : ℕ) : (s.addPermits n).units = s.units + n := by
  have htotal := assign_total n s.waiters
  simp only [units, collected, addPermits]
  omega

theorem units_of_tryAcquire {s s' : Semaphore} {n : ℕ}
    (h : s.tryAcquire n = some s') : s'.units + n = s.units := by
  unfold tryAcquire at h
  split_ifs at h with hle
  cases h
  simp only [units, collected]
  omega

variable (ticket : ℕ)

theorem units_enqueue (n : ℕ) : (s.enqueue ticket n).units = s.units := by
  have hle : min s.available n ≤ s.available := Nat.min_le_left _ _
  simp only [units, collected, enqueue, List.map_append, List.sum_append,
    List.map_cons, List.map_nil, List.sum_cons, List.sum_nil]
  omega

theorem units_remove {s : Semaphore} {ticket : ℕ} {w : Waiter}
    (h : s.waiter? ticket = some w) :
    (s.remove ticket).units + w.got = s.units := by
  have hsum : ∀ ws : List Waiter,
      ws.find? (fun w => decide (w.ticket = ticket)) = some w →
        ((ws.eraseP fun w => decide (w.ticket = ticket)).map
          Waiter.got).sum + w.got = (ws.map Waiter.got).sum := by
    intro ws
    induction ws with
    | nil => simp
    | cons w' ws ih =>
        intro hfind
        by_cases hticket : w'.ticket = ticket
        · simp only [List.find?_cons, hticket, decide_true,
            Option.some.injEq] at hfind
          subst hfind
          simp [hticket, Nat.add_comm]
        · simp only [List.find?_cons, hticket, decide_false] at hfind
          simp [hticket, ← ih hfind, Nat.add_assoc]
  have hwaiters := hsum s.waiters h
  simp only [units, collected, remove]
  omega

theorem units_of_poll {s s' : Semaphore} {ticket n : ℕ}
    (h : s.poll ticket = some (s', n)) : s'.units + n = s.units := by
  unfold poll at h
  split at h
  · simp at h
  · rename_i w hw
    split_ifs at h with hready
    cases h
    rw [← hready, units_remove hw]

theorem units_cancel : (s.cancel ticket).units = s.units := by
  unfold cancel
  split
  · rfl
  · rename_i w hw
    rw [units_addPermits, units_remove hw]

theorem units_forgetPermits (n : ℕ) :
    (s.forgetPermits n).1.units + (s.forgetPermits n).2 = s.units := by
  have hle : min s.available n ≤ s.available := Nat.min_le_left _ _
  simp only [units, collected, forgetPermits]
  omega

/-! ## The line -/

/-- Those in line, in order. -/
def tickets : List ℕ :=
  s.waiters.map Waiter.ticket

/-- Those in line with what they ask for. -/
def asked : List (ℕ × ℕ) :=
  s.waiters.map fun w => (w.ticket, w.need)

theorem tickets_eq_asked : s.tickets = s.asked.map Prod.fst := by
  simp [tickets, asked, Function.comp_def]

theorem asked_assign (n : ℕ) (ws : List Waiter) :
    (assign n ws).2.map (fun w => (w.ticket, w.need)) =
      ws.map fun w => (w.ticket, w.need) := by
  induction ws generalizing n with
  | nil => rfl
  | cons w ws ih => simp only [assign, List.map_cons, ih]

@[simp] theorem asked_addPermits (n : ℕ) : (s.addPermits n).asked = s.asked :=
  asked_assign n s.waiters

@[simp] theorem tickets_addPermits (n : ℕ) :
    (s.addPermits n).tickets = s.tickets := by
  rw [tickets_eq_asked, tickets_eq_asked, asked_addPermits]

theorem asked_of_tryAcquire {s s' : Semaphore} {n : ℕ}
    (h : s.tryAcquire n = some s') : s'.asked = s.asked := by
  unfold tryAcquire at h
  split_ifs at h
  cases h
  rfl

theorem tickets_of_tryAcquire {s s' : Semaphore} {n : ℕ}
    (h : s.tryAcquire n = some s') : s'.tickets = s.tickets := by
  rw [tickets_eq_asked, tickets_eq_asked, asked_of_tryAcquire h]

theorem asked_enqueue (n : ℕ) :
    (s.enqueue ticket n).asked = s.asked ++ [(ticket, n)] := by
  simp [asked, enqueue]

theorem tickets_enqueue (n : ℕ) :
    (s.enqueue ticket n).tickets = s.tickets ++ [ticket] := by
  simp [tickets, enqueue]

theorem tickets_remove :
    (s.remove ticket).tickets = s.tickets.erase ticket := by
  rw [tickets, tickets, List.erase_eq_eraseP, List.eraseP_map]
  simp only [remove, Function.comp_def, beq_eq_decide, eq_comm]

theorem asked_remove_subset : (s.remove ticket).asked ⊆ s.asked :=
  List.map_subset _ List.eraseP_subset

/-- What is granted to a request in line is what it asked for. -/
theorem asked_of_poll {s s' : Semaphore} {ticket n : ℕ}
    (h : s.poll ticket = some (s', n)) :
    (ticket, n) ∈ s.asked ∧ s'.asked ⊆ s.asked := by
  unfold poll at h
  split at h
  · simp at h
  · rename_i w hw
    split_ifs at h
    cases h
    have hticket : w.ticket = ticket := by
      unfold waiter? at hw
      simpa using List.find?_some hw
    exact ⟨List.mem_map.mpr
      ⟨w, List.mem_of_find?_eq_some hw, by rw [hticket]⟩,
        s.asked_remove_subset ticket⟩

theorem asked_cancel_subset : (s.cancel ticket).asked ⊆ s.asked := by
  unfold cancel
  split
  · exact List.Subset.refl _
  · rw [asked_addPermits]
    exact s.asked_remove_subset ticket

theorem tickets_of_poll {s s' : Semaphore} {ticket n : ℕ}
    (h : s.poll ticket = some (s', n)) :
    s'.tickets = s.tickets.erase ticket := by
  unfold poll at h
  split at h
  · simp at h
  · split_ifs at h
    cases h
    exact s.tickets_remove ticket

theorem tickets_cancel :
    (s.cancel ticket).tickets = s.tickets.erase ticket := by
  unfold cancel
  split
  · rename_i hnone
    have hnotMem : ticket ∉ s.tickets := by
      rintro hmem
      obtain ⟨w, hw, rfl⟩ := List.mem_map.mp hmem
      have hne := List.find?_eq_none.mp hnone w hw
      exact hne (decide_eq_true rfl)
    rw [List.erase_of_not_mem hnotMem]
  · rw [tickets_addPermits, tickets_remove]

/-! ## A semaphore that grants nothing -/

/-- Nothing is available, and nobody in line has everything. -/
structure Short : Prop where
  available_eq : s.available = 0
  got_lt : ∀ w ∈ s.waiters, w.got < w.need

variable {s}

theorem Short.tryAcquire_eq_none (h : s.Short) {n : ℕ} (hn : 0 < n) :
    s.tryAcquire n = none :=
  if_neg (by rw [h.available_eq]; omega)

theorem Short.poll_eq_none (h : s.Short) (ticket : ℕ) :
    s.poll ticket = none := by
  unfold poll
  split
  · rfl
  · rename_i w hw
    exact if_neg (Nat.ne_of_lt (h.got_lt w (List.mem_of_find?_eq_some hw)))

theorem Short.enqueue (h : s.Short) (ticket : ℕ) {n : ℕ} (hn : 0 < n) :
    (s.enqueue ticket n).Short where
  available_eq := by simp [Semaphore.enqueue, h.available_eq]
  got_lt := by
    intro w hw
    rcases List.mem_append.mp hw with hold | hnew
    · exact h.got_lt w hold
    · obtain rfl := List.mem_singleton.mp hnew
      simpa [h.available_eq] using hn

theorem assign_zero (ws : List Waiter) : assign 0 ws = (0, ws) := by
  induction ws with
  | nil => rfl
  | cons w ws ih => simp [assign, ih]

/-- A request that has collected nothing leaves no trace. -/
theorem Short.cancel (h : s.Short) {ticket : ℕ}
    (hempty : ∀ w, s.waiter? ticket = some w → w.got = 0) :
    (s.cancel ticket).Short := by
  unfold Semaphore.cancel
  split
  · exact h
  · rename_i w hw
    rw [hempty w hw]
    simp only [addPermits, assign_zero, remove, Nat.add_zero]
    exact ⟨h.available_eq, fun w' hw' =>
      h.got_lt w' (List.mem_of_mem_eraseP hw')⟩

end Semaphore

end Harmost.Support
