import Harmost.Config.Settings
import Harmost.Support.Hysteresis
import Harmost.Support.Run
import Harmost.Upstream.Pool

/-!
# Active health checking

A backend flips only after a streak of equal probe results, not on a single
one.  The checker acts at the moment a streak counter reaches its threshold, so
the health of a backend is a property of the whole history of its probes: it is
the switch of `Harmost.Support.On`.  The probe itself is left out; a result is
the id of a backend and whether the probe passed.
-/

namespace Harmost.Upstream

open Harmost.Support
open Harmost.Config

/-- The checker of a pool of `n` backends. -/
structure HealthChecker (n : ℕ) where
  pool : UpstreamPool
  healthyAfter : ℕ
  unhealthyAfter : ℕ
  /-- Consecutive successes per backend. -/
  streakOk : Fin n → ℕ
  /-- Consecutive failures per backend. -/
  streakFail : Fin n → ℕ
  healthyAfter_pos : 0 < healthyAfter
  unhealthyAfter_pos : 0 < unhealthyAfter
  length_backends : pool.backends.length = n

namespace HealthChecker

def new (pool : UpstreamPool) (cfg : Health) :
    HealthChecker pool.backends.length where
  pool := pool
  healthyAfter := max cfg.healthyAfter 1
  unhealthyAfter := max cfg.unhealthyAfter 1
  streakOk := fun _ => 0
  streakFail := fun _ => 0
  healthyAfter_pos := lt_max_of_lt_right Nat.one_pos
  unhealthyAfter_pos := lt_max_of_lt_right Nat.one_pos
  length_backends := rfl

variable {n : ℕ}

/-- `set_healthy` of the pool. -/
def setHealthy (checker : HealthChecker n) (id : Fin n) (healthy : Bool) :
    HealthChecker n :=
  { checker with
    pool := checker.pool.setHealthy id healthy
    length_backends := checker.length_backends }

/-- Record a probe result and flip the backend if the streak is long enough. -/
def record (checker : HealthChecker n) (id : Fin n) (ok : Bool) :
    Option Bool × HealthChecker n :=
  if ok then
    let counted := { checker with
      streakFail := Function.update checker.streakFail id 0
      streakOk := Function.update checker.streakOk id
        (fetchAdd (checker.streakOk id)) }
    if fetchAdd (checker.streakOk id) = checker.healthyAfter then
      (some true, counted.setHealthy id true)
    else (none, counted)
  else
    let counted := { checker with
      streakOk := Function.update checker.streakOk id 0
      streakFail := Function.update checker.streakFail id
        (fetchAdd (checker.streakFail id)) }
    if fetchAdd (checker.streakFail id) = checker.unhealthyAfter then
      (some false, counted.setHealthy id false)
    else (none, counted)

/-- The checker after one result. -/
def observe (checker : HealthChecker n) (result : Fin n × Bool) :
    HealthChecker n :=
  (checker.record result.1 result.2).2

/-- The results of the probes of one backend. -/
def outcomes (id : Fin n) (results : List (Fin n × Bool)) : List Bool :=
  (results.filter fun result => result.1 = id).map Prod.snd

theorem outcomes_concat_self (id : Fin n) (results : List (Fin n × Bool))
    (ok : Bool) :
    outcomes id (results ++ [(id, ok)]) = outcomes id results ++ [ok] := by
  simp [outcomes]

theorem outcomes_concat_of_ne {id other : Fin n} (hne : other ≠ id)
    (results : List (Fin n × Bool)) (ok : Bool) :
    outcomes id (results ++ [(other, ok)]) = outcomes id results := by
  simp [outcomes, hne]

theorem length_outcomes_append (id : Fin n)
    (results results' : List (Fin n × Bool)) :
    (outcomes id (results ++ results')).length =
      (outcomes id results).length + (outcomes id results').length := by
  simp [outcomes]

/-- What the checker knows about one backend after these of its results. -/
structure Tracks (checker : HealthChecker n) (id : Fin n)
    (history : List Bool) : Prop where
  ok_eq : checker.streakOk id = streak true history
  fail_eq : checker.streakFail id = streak false history
  healthy_iff : checker.pool.isHealthy id = true ↔
    On checker.healthyAfter checker.unhealthyAfter history

variable {checker : HealthChecker n} {id : Fin n} {history : List Bool}

theorem isHealthy_setHealthy_self (healthy : Bool) :
    (checker.setHealthy id healthy).pool.isHealthy id = healthy := by
  have hlt : (id : ℕ) < checker.pool.state.length := by
    rw [checker.pool.length_state, checker.length_backends]
    exact id.isLt
  simp [setHealthy, UpstreamPool.setHealthy, UpstreamPool.update,
    UpstreamPool.isHealthy, hlt]

theorem isHealthy_setHealthy_of_ne {other : Fin n} (hne : other ≠ id)
    (healthy : Bool) :
    (checker.setHealthy other healthy).pool.isHealthy id =
      checker.pool.isHealthy id := by
  have hval : (other : ℕ) ≠ id := fun h => hne (Fin.ext h)
  simp [setHealthy, UpstreamPool.setHealthy, UpstreamPool.update,
    UpstreamPool.isHealthy, hval]

/-- The thresholds are settings. -/
theorem thresholds_observe (result : Fin n × Bool) :
    (checker.observe result).healthyAfter = checker.healthyAfter ∧
      (checker.observe result).unhealthyAfter = checker.unhealthyAfter := by
  rw [observe, record]
  split_ifs <;> exact ⟨rfl, rfl⟩

theorem Tracks.observe_ok (h : Tracks checker id history)
    (hroom : history.length + 1 < 2 ^ 32) :
    Tracks (checker.observe (id, true)) id (history ++ [true]) := by
  have hle := streak_le_length true history
  have hcount : fetchAdd (checker.streakOk id) =
      streak true (history ++ [true]) := by
    rw [h.ok_eq, streak_concat_self, fetchAdd_of_lt (by omega)]
  have hfail : streak false (history ++ [true]) = 0 :=
    streak_concat_not false history
  rw [observe, record, if_pos rfl, hcount]
  split_ifs with hreached <;> refine ⟨Function.update_self _ _ _,
    (Function.update_self _ _ _).trans hfail.symm, ?_⟩
  · rw [isHealthy_setHealthy_self]
    exact iff_of_true rfl (on_of_streak hreached.ge)
  · refine h.healthy_iff.trans ?_
    rcases Nat.lt_or_gt_of_ne hreached with hlt | hgt
    · exact (on_concat hlt (hfail ▸ checker.unhealthyAfter_pos)).symm
    · refine iff_of_true (on_of_streak ?_) (on_of_streak hgt.le)
      rw [streak_concat_self] at hgt
      exact Nat.lt_succ_iff.mp hgt

theorem Tracks.observe_fail (h : Tracks checker id history)
    (hroom : history.length + 1 < 2 ^ 32) :
    Tracks (checker.observe (id, false)) id (history ++ [false]) := by
  have hle := streak_le_length false history
  have hup := checker.healthyAfter_pos
  have hdown := checker.unhealthyAfter_pos
  have hcount : fetchAdd (checker.streakFail id) =
      streak false (history ++ [false]) := by
    rw [h.fail_eq, streak_concat_self, fetchAdd_of_lt (by omega)]
  have hok : streak true (history ++ [false]) = 0 :=
    streak_concat_not true history
  rw [observe, record, if_neg Bool.false_ne_true, hcount]
  split_ifs with hreached <;> refine ⟨(Function.update_self _ _ _).trans
    hok.symm, Function.update_self _ _ _, ?_⟩
  · rw [isHealthy_setHealthy_self]
    exact iff_of_false Bool.false_ne_true
      (not_on_of_streak hup hdown hreached.ge)
  · refine h.healthy_iff.trans ?_
    rcases Nat.lt_or_gt_of_ne hreached with hlt | hgt
    · exact (on_concat (hok ▸ hup) hlt).symm
    · refine iff_of_false (not_on_of_streak hup hdown ?_)
        (not_on_of_streak hup hdown hgt.le)
      rw [streak_concat_self] at hgt
      exact Nat.lt_succ_iff.mp hgt

/-- A result of another backend changes nothing here. -/
theorem Tracks.observe_of_ne (h : Tracks checker id history) {other : Fin n}
    (hne : other ≠ id) (ok : Bool) :
    Tracks (checker.observe (other, ok)) id history := by
  have hkeep : ∀ (f : Fin n → ℕ) (k : ℕ), Function.update f other k id = f id :=
    fun f k => Function.update_of_ne (Ne.symm hne) k f
  rw [observe, record]
  split_ifs
  all_goals
    refine ⟨(hkeep _ _).trans h.ok_eq, (hkeep _ _).trans h.fail_eq, ?_⟩
    first
    | exact h.healthy_iff
    | rw [isHealthy_setHealthy_of_ne hne]
      exact h.healthy_iff

/-- The run lemma: the counters and the health of a backend follow its own
results. -/
theorem Tracks.run {before : List (Fin n × Bool)}
    (results : List (Fin n × Bool))
    (h : Tracks checker id (outcomes id before))
    (hfew : (outcomes id (before ++ results)).length < 2 ^ 32) :
    Tracks (Support.run observe checker results) id
      (outcomes id (before ++ results)) := by
  induction results generalizing checker before with
  | nil => rwa [List.append_nil]
  | cons result results ih =>
      obtain ⟨other, ok⟩ := result
      rw [List.append_cons] at hfew ⊢
      refine ih ?_ hfew
      by_cases hother : other = id
      · subst hother
        rw [length_outcomes_append, outcomes_concat_self,
          List.length_append, List.length_singleton] at hfew
        rw [outcomes_concat_self]
        cases ok with
        | true => exact h.observe_ok (by omega)
        | false => exact h.observe_fail (by omega)
      · rw [outcomes_concat_of_ne hother]
        exact h.observe_of_ne hother ok

theorem thresholds_run (results : List (Fin n × Bool)) :
    (Support.run observe checker results).healthyAfter =
        checker.healthyAfter ∧
      (Support.run observe checker results).unhealthyAfter =
        checker.unhealthyAfter := by
  refine run_invariant (P := fun c : HealthChecker n =>
    c.healthyAfter = checker.healthyAfter ∧
      c.unhealthyAfter = checker.unhealthyAfter) ?_ ⟨rfl, rfl⟩ results
  intro c result hc
  have hstep := c.thresholds_observe result
  exact ⟨hstep.1.trans hc.1, hstep.2.trans hc.2⟩

/-- A backend that starts unhealthy is healthy after a history of probes of the
pool exactly when, among its own results, a run of `healthy_after` successes has
been completed and no run of `unhealthy_after` failures after the latest such
run. -/
theorem isHealthy_iff_on (pool : UpstreamPool) (cfg : Health)
    (results : List (Fin pool.backends.length × Bool))
    (id : Fin pool.backends.length) (hstart : pool.isHealthy id = false)
    (hfew : (outcomes id results).length < 2 ^ 32) :
    (Support.run observe (new pool cfg) results).pool.isHealthy id = true ↔
      On (max cfg.healthyAfter 1) (max cfg.unhealthyAfter 1)
        (outcomes id results) := by
  have hnew : Tracks (new pool cfg) id (outcomes id []) := by
    refine ⟨(streak_nil true).symm, (streak_nil false).symm, ?_⟩
    refine iff_of_false (fun h => ?_)
      (not_on_nil (new pool cfg).healthyAfter_pos)
    exact absurd (hstart.symm.trans h) Bool.false_ne_true
  have hrun := (hnew.run results hfew).healthy_iff
  rwa [(thresholds_run results).1, (thresholds_run results).2] at hrun

/-- Two good probes in a row turn the first of two backends healthy; a failure
of the other one between them does not count. -/
theorem isHealthy_iff_on_second_success :
    let pool := UpstreamPool.new ["a:1".toList, "b:1".toList] .roundRobin {}
    let cfg : Health := ⟨"/".toList, 0, 0, 2, 3⟩
    let first : Fin pool.backends.length := ⟨0, Nat.two_pos⟩
    let second : Fin pool.backends.length := ⟨1, Nat.one_lt_two⟩
    let results :=
      [(first, false), (first, true), (second, false), (first, true)]
    pool.isHealthy first = false ∧
      outcomes first results = [false, true, true] ∧
      On cfg.healthyAfter cfg.unhealthyAfter (outcomes first results) := by
  intro pool cfg first second results
  exact ⟨rfl, rfl,
    (isHealthy_iff_on pool cfg results first rfl (by decide)).mp rfl⟩

end HealthChecker

end Harmost.Upstream
