import Harmost.Support.Run
import Harmost.Upstream.Events

/-!
# The window as a list of events

What a window is for: to know of every event since the last reset, and to tell
how many of them fall into the last ten epochs.  The ring of buckets does so
over every run of calls whose times do not decrease.
-/

namespace Harmost.Upstream

open Harmost.Config
open Harmost.Support

inductive WindowCall where
  | record (flagged : Bool)
  | flag
  | unflag
  | reset
  deriving DecidableEq

/-- A call at a time. -/
abbrev TimedCall := ℕ × WindowCall

def RollingRatio.call (w : RollingRatio) (c : TimedCall) : RollingRatio :=
  match c.2 with
  | .record flagged => w.record c.1 flagged
  | .flag => (w.flag c.1).1
  | .unflag => w.unflag c.1
  | .reset => w.reset

/-- The times of the events since the last reset. -/
structure EventLog where
  /-- The time of the last call. -/
  last : ℕ := 0
  recorded : List ℕ := []
  /-- Flagged and not given back. -/
  flagged : List ℕ := []

namespace EventLog

def call (log : EventLog) (c : TimedCall) : EventLog :=
  match c.2 with
  | .record flagged =>
      { last := c.1, recorded := c.1 :: log.recorded
        flagged := if flagged then c.1 :: log.flagged else log.flagged }
  | .flag => { log with last := c.1, flagged := c.1 :: log.flagged }
  | .unflag => { log with last := c.1, flagged := log.flagged.erase c.1 }
  | .reset => { last := c.1 }

/-- How many of the times are of the ten epochs that end with now. -/
def inWindow (bucketMs nowMs : ℕ) (times : List ℕ) : ℕ :=
  times.countP fun t => t / bucketMs ≤ nowMs / bucketMs ∧
    nowMs / bucketMs < t / bucketMs + BUCKETS

def totals (log : EventLog) (bucketMs nowMs : ℕ) : ℕ × ℕ :=
  (inWindow bucketMs nowMs log.recorded, inWindow bucketMs nowMs log.flagged)

/-- No epoch has more events than a counter holds. -/
def Fits (bucketMs : ℕ) (log : EventLog) : Prop :=
  ∀ epoch, perEpoch bucketMs log.recorded epoch < 2 ^ 32 ∧
    perEpoch bucketMs log.flagged epoch < 2 ^ 32

/-- A call that is not in the past, gives back only what was flagged at its
time, and leaves the counters enough room. -/
structure Allows (bucketMs : ℕ) (log : EventLog) (c : TimedCall) : Prop where
  le : log.last ≤ c.1
  outstanding : c.2 = .unflag → c.1 ∈ log.flagged
  fits : (log.call c).Fits bucketMs

/-! ## Counting -/

theorem sum_perEpoch_eq_inWindow (bucketMs nowMs : ℕ) (times : List ℕ) :
    ∑ epoch ∈ Finset.Icc (nowMs / bucketMs - (BUCKETS - 1))
        (nowMs / bucketMs), perEpoch bucketMs times epoch =
      inWindow bucketMs nowMs times := by
  refine (sum_perEpoch bucketMs times _).trans ?_
  refine List.countP_congr fun t _ => ?_
  rw [decide_eq_true_iff, decide_eq_true_iff]
  generalize t / bucketMs = epoch
  simp only [BUCKETS]
  omega

/-- The counter of an epoch goes up with an event. -/
theorem update_cons {bucketMs t : ℕ} {times : List ℕ}
    (h : perEpoch bucketMs (t :: times) (t / bucketMs) < 2 ^ 32) :
    Function.update (perEpoch bucketMs times) (t / bucketMs)
        (fetchAdd (perEpoch bucketMs times (t / bucketMs))) =
      perEpoch bucketMs (t :: times) := by
  have hcons : perEpoch bucketMs (t :: times) = _ :=
    countBy_cons (· / bucketMs) t times
  rw [hcons, Function.update_self] at h
  rw [hcons, perEpoch, fetchAdd_of_lt h]

/-- The counter of an epoch goes down with what is given back. -/
theorem update_erase {bucketMs t : ℕ} {times : List ℕ} (h : t ∈ times) :
    Function.update (perEpoch bucketMs times) (t / bucketMs)
        (perEpoch bucketMs times (t / bucketMs) - 1) =
      perEpoch bucketMs (times.erase t) :=
  (countBy_erase (· / bucketMs) h).symm

end EventLog

/-! ## One call -/

open EventLog

/-- The ring counts the events of the list. -/
def RollingRatio.Refines (w : RollingRatio) (log : EventLog) : Prop :=
  w.Counts (w.epochOf log.last)
    (perEpoch w.bucketMs log.recorded) (perEpoch w.bucketMs log.flagged)

namespace RollingRatio

variable {w : RollingRatio} {log : EventLog}

theorem bucketMs_call (w : RollingRatio) (c : TimedCall) :
    (w.call c).bucketMs = w.bucketMs := by
  obtain ⟨t, call⟩ := c
  cases call <;> rfl

theorem refines_of_empty (hempty : ∀ k, w.buckets k = {}) (last : ℕ) :
    w.Refines { last } :=
  counts_of_empty hempty (w.epochOf last)

/-- What a call does to the list, it does to the ring. -/
theorem Refines.call (h : w.Refines log) {c : TimedCall}
    (hallows : log.Allows w.bucketMs c) : (w.call c).Refines (log.call c) := by
  obtain ⟨t, call⟩ := c
  obtain ⟨hle, houtstanding, hfits⟩ := hallows
  have hepoch : log.last / w.bucketMs ≤ t / w.bucketMs :=
    Nat.div_le_div_right hle
  have hroom := hfits (t / w.bucketMs)
  cases call with
  | record flagged =>
      have hcount := Counts.count h hepoch fetchAdd
        (if flagged then fetchAdd else id)
      rw [update_cons hroom.1] at hcount
      cases flagged with
      | false =>
          rwa [if_neg Bool.false_ne_true, id, Function.update_eq_self] at hcount
      | true => rwa [if_pos rfl, update_cons hroom.2] at hcount
  | flag =>
      have hcount := Counts.count h hepoch id fetchAdd
      rwa [id, Function.update_eq_self, update_cons hroom.2] at hcount
  | unflag =>
      have hcount := Counts.count h hepoch id (· - 1)
      rw [id, Function.update_eq_self, update_erase (houtstanding rfl)]
        at hcount
      exact hcount
  | reset => exact refines_of_empty (fun _ => rfl) t

theorem Refines.totals (h : w.Refines log) {nowMs : ℕ}
    (hnow : log.last ≤ nowMs) :
    w.totals nowMs = log.totals w.bucketMs nowMs := by
  have htotals := Counts.totalsAt h (Nat.div_le_div_right hnow)
  rwa [sum_perEpoch_eq_inWindow, sum_perEpoch_eq_inWindow] at htotals

/-! ## Every run -/

/-- The ring refines the list of events over every run. -/
theorem refines_run (window : Duration) {calls : List TimedCall}
    (hcalls : Guarded EventLog.call (Allows (new window).bucketMs) {} calls) :
    (run call (new window) calls).Refines (run EventLog.call {} calls) ∧
      (run call (new window) calls).bucketMs = (new window).bucketMs := by
  have hnew : (new window).Refines {} := refines_of_empty (fun _ => rfl) 0
  refine run_simulation
    (R := fun (w : RollingRatio) log =>
      w.Refines log ∧ w.bucketMs = (new window).bucketMs)
    ?_ ⟨hnew, rfl⟩ hcalls
  rintro w log c hallows ⟨hrefines, hwidth⟩
  rw [← hwidth] at hallows
  exact ⟨hrefines.call hallows, (bucketMs_call w c).trans hwidth⟩

/-- The totals of a window are the numbers of recorded and of flagged events of
the ten epochs that end with now. -/
theorem totals_run (window : Duration) {calls : List TimedCall}
    (hcalls : Guarded EventLog.call (Allows (new window).bucketMs) {} calls)
    {nowMs : ℕ} (hnow : (run EventLog.call {} calls).last ≤ nowMs) :
    (run call (new window) calls).totals nowMs =
      (run EventLog.call {} calls).totals (new window).bucketMs nowMs := by
  obtain ⟨hrefines, hwidth⟩ := refines_run window hcalls
  rw [hrefines.totals hnow, hwidth]

/-- A second of ten buckets: a reset, a flag that is given back, and an event
that has left the window when it is read. -/
def agingCalls : List TimedCall :=
  [(0, .record true), (5, .reset), (10, .record false), (10, .flag),
    (10, .unflag), (1005, .record true), (1005, .flag)]

theorem totals_agingCalls :
    Guarded EventLog.call (Allows (new 1000000000).bucketMs) {} agingCalls ∧
      (run call (new 1000000000) agingCalls).totals 1050 = (1, 2) := by
  have hfew : ∀ log : EventLog, log.recorded.length < 2 ^ 32 →
      log.flagged.length < 2 ^ 32 → log.Fits (new 1000000000).bucketMs :=
    fun log hrecorded hflagged epoch =>
      ⟨List.countP_le_length.trans_lt hrecorded,
        List.countP_le_length.trans_lt hflagged⟩
  have hcalls : Guarded EventLog.call (Allows (new 1000000000).bucketMs) {}
      agingCalls := by
    simp only [agingCalls, Guarded, and_true]
    refine ⟨?_, ?_, ?_, ?_, ?_, ?_, ?_⟩ <;>
      exact ⟨by decide, by decide, hfew _ (by decide) (by decide)⟩
  exact ⟨hcalls, (totals_run 1000000000 hcalls (by decide)).trans (by decide)⟩

end RollingRatio

end Harmost.Upstream
