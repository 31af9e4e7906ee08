import Harmost.Upstream.Breaker
import Harmost.Upstream.Events
import Mathlib.Algebra.Order.BigOperators.Group.Finset

/-!
# When a breaker trips

A closed breaker opens at a failure, when among the outcomes of the last ten
epochs there are enough of them and enough have failed.  The outcomes are those
recorded since the breaker last became closed, kept here as a plain list beside
the breaker.
-/

namespace Harmost.Upstream

open Harmost.Support

/-! ## Outcomes by epoch -/

/-- How one request ended, and when. -/
structure Outcome where
  nowMs : ℕ
  failed : Bool
  deriving DecidableEq

/-- How many outcomes are of an epoch, for buckets of this width. -/
def recorded (bucketMs : ℕ) (outcomes : List Outcome) : ℕ → ℕ :=
  perEpoch bucketMs (outcomes.map Outcome.nowMs)

/-- How many of them have failed. -/
def failures (bucketMs : ℕ) (outcomes : List Outcome) : ℕ → ℕ :=
  recorded bucketMs (outcomes.filter Outcome.failed)

/-- The outcomes of the ten epochs that end at an epoch. -/
def recent (bucketMs : ℕ) (outcomes : List Outcome) (epoch : ℕ) :
    List Outcome :=
  outcomes.filter fun outcome =>
    decide (epoch - (BUCKETS - 1) ≤ outcome.nowMs / bucketMs) &&
      decide (outcome.nowMs / bucketMs ≤ epoch)

section Outcomes

variable {bucketMs epoch : ℕ} {outcomes : List Outcome}

theorem recorded_concat (outcome : Outcome) :
    recorded bucketMs (outcomes ++ [outcome]) =
      Function.update (recorded bucketMs outcomes) (outcome.nowMs / bucketMs)
        (recorded bucketMs outcomes (outcome.nowMs / bucketMs) + 1) := by
  rw [recorded, List.map_append]
  exact countBy_concat _ (outcomes.map Outcome.nowMs) outcome.nowMs

theorem failures_concat (outcome : Outcome) :
    failures bucketMs (outcomes ++ [outcome]) =
      Function.update (failures bucketMs outcomes) (outcome.nowMs / bucketMs)
        (failures bucketMs outcomes (outcome.nowMs / bucketMs) +
          outcome.failed.toNat) := by
  cases hfailed : outcome.failed with
  | false =>
      have hsame : failures bucketMs (outcomes ++ [outcome]) =
          failures bucketMs outcomes := by
        simp [failures, hfailed]
      rw [hsame, Bool.toNat_false, Nat.add_zero, Function.update_eq_self]
  | true =>
      have hmore : failures bucketMs (outcomes ++ [outcome]) =
          recorded bucketMs (outcomes.filter Outcome.failed ++ [outcome]) := by
        simp [failures, hfailed]
      rw [hmore, recorded_concat]
      rfl

theorem failures_le_recorded :
    failures bucketMs outcomes epoch ≤ recorded bucketMs outcomes epoch :=
  (List.filter_sublist.map Outcome.nowMs).countP_le

theorem sum_recorded (bucketMs : ℕ) (outcomes : List Outcome) (epoch : ℕ) :
    ∑ e ∈ Finset.Icc (epoch - (BUCKETS - 1)) epoch,
        recorded bucketMs outcomes e =
      (recent bucketMs outcomes epoch).length := by
  rw [recorded, sum_perEpoch, List.countP_map, recent, ←
    List.countP_eq_length_filter]
  refine List.countP_congr fun outcome _ => ?_
  rw [Function.comp, Bool.decide_and]

theorem sum_failures (bucketMs : ℕ) (outcomes : List Outcome) (epoch : ℕ) :
    ∑ e ∈ Finset.Icc (epoch - (BUCKETS - 1)) epoch,
        failures bucketMs outcomes e =
      (recent bucketMs outcomes epoch).countP Outcome.failed := by
  have hsum := sum_recorded bucketMs (outcomes.filter Outcome.failed) epoch
  refine hsum.trans ?_
  rw [recent, recent, List.countP_filter, List.filter_filter, ←
    List.countP_eq_length_filter]
  refine List.countP_congr fun outcome _ => ?_
  rw [Bool.and_comm]

end Outcomes

/-- The window records an outcome. -/
theorem RollingRatio.Counts.record {w : RollingRatio} {bucketMs last nowMs : ℕ}
    {outcomes : List Outcome} (hwidth : w.bucketMs = bucketMs)
    (h : w.Counts last (recorded bucketMs outcomes)
      (failures bucketMs outcomes))
    (hle : last ≤ nowMs / bucketMs)
    (hfew : recorded bucketMs outcomes (nowMs / bucketMs) + 1 < 2 ^ 32)
    (failed : Bool) :
    (w.record nowMs failed).Counts (nowMs / bucketMs)
      (recorded bucketMs (outcomes ++ [⟨nowMs, failed⟩]))
      (failures bucketMs (outcomes ++ [⟨nowMs, failed⟩])) := by
  have hepoch : w.epochOf nowMs = nowMs / bucketMs := by
    rw [epochOf, hwidth]
  have hcount := h.count hle fetchAdd (if failed then fetchAdd else id)
  have hfailed : (if failed then fetchAdd else id)
      (failures bucketMs outcomes (nowMs / bucketMs)) =
        failures bucketMs outcomes (nowMs / bucketMs) + failed.toNat := by
    have hle' : failures bucketMs outcomes (nowMs / bucketMs) ≤
        recorded bucketMs outcomes (nowMs / bucketMs) := failures_le_recorded
    cases failed with
    | false => rfl
    | true => exact fetchAdd_of_lt (by omega)
  rw [recorded_concat, failures_concat, RollingRatio.record, hepoch]
  rwa [fetchAdd_of_lt hfew, hfailed] at hcount

/-! ## The breaker and its outcomes -/

namespace Breaker

/-- The outcome that a call records. -/
def Call.outcome : Call → Option Outcome
  | .record nowMs ok => some ⟨nowMs, !ok⟩
  | _ => none

/-- How many milliseconds one bucket of the window covers. -/
def bucketMs (cfg : Config.Breaker) : ℕ :=
  (RollingRatio.new cfg.window).bucketMs

/-- No call changes what the breaker was configured with. -/
theorem settings_step (breaker : Breaker) (call : Call) :
    (breaker.step call).enabled = breaker.enabled ∧
      (breaker.step call).minRequests = breaker.minRequests ∧
      (breaker.step call).failurePercent = breaker.failurePercent ∧
      (breaker.step call).window.bucketMs = breaker.window.bucketMs := by
  cases call with
  | allowance nowMs =>
      simp only [step, allowance]
      split_ifs <;> exact ⟨rfl, rfl, rfl, rfl⟩
  | record nowMs ok =>
      simp only [step, record, tripIfOverThreshold]
      split_ifs <;> exact ⟨rfl, rfl, rfl, rfl⟩
  | recordProbe nowMs token ok =>
      simp only [step, recordProbe]
      split_ifs <;> exact ⟨rfl, rfl, rfl, rfl⟩

/-- The breaker with an outcome in its window, before it looks at it. -/
def observed (breaker : Breaker) (nowMs : ℕ) (ok : Bool) : Breaker :=
  { breaker with window := breaker.window.record nowMs !ok }

theorem record_of_closed {breaker : Breaker} (henabled : breaker.enabled = true)
    (hclosed : breaker.openUntilMs = 0) (nowMs : ℕ) (ok : Bool) :
    breaker.record nowMs ok =
      if ok then breaker.observed nowMs ok
      else (breaker.observed nowMs ok).tripIfOverThreshold nowMs := by
  have hon : ¬(!breaker.enabled) = true := by
    simp [henabled]
  rw [record, if_neg hon, if_neg (not_not.mpr hclosed)]
  cases ok <;> rfl

/-- The breaker opens, and forgets what it has seen. -/
def tripped (breaker : Breaker) (nowMs : ℕ) : Breaker :=
  { breaker with
    openUntilMs := breaker.deadline nowMs
    trips := breaker.trips + 1
    window := breaker.window.reset }

theorem tripIfOverThreshold_eq {breaker : Breaker}
    (hclosed : breaker.openUntilMs = 0) (nowMs : ℕ) :
    breaker.tripIfOverThreshold nowMs =
      if breaker.minRequests ≤ (breaker.window.totals nowMs).1 ∧
          (breaker.window.totals nowMs).1 * breaker.failurePercent ≤
            (breaker.window.totals nowMs).2 * 100 then
        breaker.tripped nowMs
      else breaker := by
  simp only [tripIfOverThreshold]
  split_ifs with hfew hlow hover <;> first | rfl | omega

/-- A breaker with the outcomes recorded since it last became closed. -/
structure Watched where
  breaker : Breaker
  outcomes : List Outcome := []

namespace Watched

def step (watched : Watched) (call : Call) : Watched where
  breaker := watched.breaker.step call
  outcomes :=
    if watched.breaker.state = .open ∨
        (watched.breaker.step call).state = .open then []
    else watched.outcomes ++ call.outcome.toList

/-- What the window counts is what was recorded, and a closed breaker waits for
no probe. -/
structure Inv (cfg : Config.Breaker) (last : ℕ) (watched : Watched) : Prop where
  enabled : watched.breaker.enabled = true
  minRequests : watched.breaker.minRequests = cfg.minRequests
  failurePercent : watched.breaker.failurePercent = cfg.failurePercent
  bucketMs_eq : watched.breaker.window.bucketMs = bucketMs cfg
  active : watched.breaker.openUntilMs = 0 → watched.breaker.activeProbe = 0
  opened : watched.breaker.openUntilMs ≠ 0 → watched.outcomes = []
  counts : watched.breaker.window.Counts (last / bucketMs cfg)
    (recorded (bucketMs cfg) watched.outcomes)
    (failures (bucketMs cfg) watched.outcomes)
  few : ∀ epoch, recorded (bucketMs cfg) watched.outcomes epoch < 2 ^ 32

variable {cfg : Config.Breaker} {last : ℕ} {watched : Watched} {call : Call}

theorem inv_new (henabled : cfg.enabled = true) :
    Inv cfg 0 { breaker := .new cfg } where
  enabled := henabled
  minRequests := rfl
  failurePercent := rfl
  bucketMs_eq := rfl
  active := fun _ => rfl
  opened := fun hopen => absurd rfl hopen
  counts := RollingRatio.counts_of_empty (fun _ => rfl) _
  few := fun _ => Nat.two_pow_pos 32

section

variable (h : Inv cfg last watched)
include h

theorem Inv.mono {last' : ℕ} (hle : last ≤ last') : Inv cfg last' watched :=
  { h with counts := h.counts.mono (Nat.div_le_div_right hle) }

/-- A call that leaves the breaker as it is and records nothing. -/
theorem Inv.idle (hsame : watched.breaker.step call = watched.breaker)
    (hnone : watched.breaker.openUntilMs = 0 → call.outcome = none) :
    Inv cfg last (watched.step call) := by
  have houtcomes : (watched.step call).outcomes = watched.outcomes := by
    simp only [step, hsame, or_self, state_eq_open]
    by_cases hopen : watched.breaker.openUntilMs = 0
    · rw [if_neg (not_not.mpr hopen), hnone hopen, Option.toList_none,
        List.append_nil]
    · rw [if_pos hopen, h.opened hopen]
  have hstep : watched.step call = watched := by
    obtain ⟨breaker, outcomes⟩ := watched
    simp only [step] at houtcomes hsame ⊢
    rw [hsame] at houtcomes ⊢
    rw [houtcomes]
  rwa [hstep]

/-- A call after which nothing that was recorded counts any more. -/
theorem Inv.forget (hopen : watched.breaker.openUntilMs ≠ 0 ∨
      (watched.breaker.step call).openUntilMs ≠ 0)
    (hactive : (watched.breaker.step call).openUntilMs = 0 →
      (watched.breaker.step call).activeProbe = 0)
    (hcounts : (watched.breaker.step call).window.Counts
      (last / bucketMs cfg) (fun _ => 0) fun _ => 0) :
    Inv cfg last (watched.step call) := by
  obtain ⟨henabled, hmin, hpercent, hwidth⟩ :=
    settings_step watched.breaker call
  have houtcomes : (watched.step call).outcomes = [] := by
    rw [step, if_pos]
    rwa [state_eq_open, state_eq_open]
  refine ⟨henabled.trans h.enabled, hmin.trans h.minRequests,
    hpercent.trans h.failurePercent, hwidth.trans h.bucketMs_eq, hactive,
    fun _ => houtcomes, ?_, ?_⟩
  · rwa [houtcomes]
  · rw [houtcomes]
    exact fun _ => Nat.two_pow_pos 32

/-- The window of an open breaker is empty. -/
theorem Inv.empty_of_open (hopen : watched.breaker.openUntilMs ≠ 0) :
    watched.breaker.window.Counts (last / bucketMs cfg) (fun _ => 0)
      fun _ => 0 := by
  have hcounts := h.counts
  rwa [h.opened hopen] at hcounts

theorem Inv.allowance (nowMs : ℕ) :
    Inv cfg last (watched.step (.allowance nowMs)) := by
  have henabled := h.enabled
  by_cases hclosed : watched.breaker.openUntilMs = 0
  · refine h.idle ?_ fun _ => rfl
    simp [Breaker.step, Breaker.allowance, hclosed]
  · by_cases hearly : nowMs < watched.breaker.openUntilMs
    · refine h.idle ?_ fun _ => rfl
      simp [Breaker.step, Breaker.allowance, henabled, hclosed, hearly]
    · have hstep : watched.breaker.step (.allowance nowMs) =
          { watched.breaker with
            openUntilMs := watched.breaker.deadline nowMs
            nextProbe := watched.breaker.nextProbe + 1
            activeProbe := watched.breaker.nextProbe + 1 } := by
        simp [Breaker.step, Breaker.allowance, henabled, hclosed, hearly]
      refine h.forget (.inl hclosed) ?_ ?_
      · rw [hstep]
        exact fun hzero => absurd hzero (deadline_ne_zero nowMs)
      · rw [hstep]
        exact h.empty_of_open hclosed

theorem Inv.recordProbe (nowMs : ℕ) {token : ProbeToken}
    (htoken : token.value ≠ 0) (ok : Bool) :
    Inv cfg last (watched.step (.recordProbe nowMs token ok)) := by
  by_cases hactive : watched.breaker.activeProbe = token.value
  · have hopen : watched.breaker.openUntilMs ≠ 0 := by
      intro hclosed
      exact htoken (hactive.symm.trans (h.active hclosed))
    have hstep : watched.breaker.step (.recordProbe nowMs token ok) =
        if ok then
          { watched.breaker with
            activeProbe := 0
            window := watched.breaker.window.reset
            openUntilMs := 0 }
        else
          { watched.breaker with
            activeProbe := 0
            openUntilMs := watched.breaker.deadline nowMs } := by
      simp [Breaker.step, Breaker.recordProbe, h.enabled, hactive]
    refine h.forget (.inl hopen) ?_ ?_
    · rw [hstep]
      cases ok <;> exact fun _ => rfl
    · rw [hstep]
      cases ok with
      | false => exact h.empty_of_open hopen
      | true => exact RollingRatio.counts_of_empty (fun _ => rfl) _
  · refine h.idle ?_ fun _ => rfl
    simp [Breaker.step, Breaker.recordProbe, hactive]

end

/-- The ten epochs have enough outcomes, and enough of them are failures. -/
def OverThreshold (cfg : Config.Breaker) (outcomes : List Outcome)
    (nowMs : ℕ) : Prop :=
  let window := recent (bucketMs cfg) outcomes (nowMs / bucketMs cfg)
  cfg.minRequests ≤ window.length ∧
    window.length * cfg.failurePercent ≤ window.countP Outcome.failed * 100

/-- What the window says once it has counted an outcome. -/
theorem Inv.totals_observed (h : Inv cfg last watched) {nowMs : ℕ}
    (hle : last ≤ nowMs) (ok : Bool)
    (hfew : recorded (bucketMs cfg) watched.outcomes
      (nowMs / bucketMs cfg) + 1 < 2 ^ 32) :
    (watched.breaker.observed nowMs ok).window.totals nowMs =
      ((recent (bucketMs cfg) (watched.outcomes ++ [⟨nowMs, !ok⟩])
          (nowMs / bucketMs cfg)).length,
        (recent (bucketMs cfg) (watched.outcomes ++ [⟨nowMs, !ok⟩])
          (nowMs / bucketMs cfg)).countP Outcome.failed) := by
  have hcounts := h.counts.record h.bucketMs_eq (Nat.div_le_div_right hle) hfew
    (!ok)
  have hepoch : (watched.breaker.observed nowMs ok).window.epochOf nowMs =
      nowMs / bucketMs cfg := by
    rw [← h.bucketMs_eq]
    rfl
  rw [RollingRatio.totals, hepoch]
  refine (hcounts.totalsAt le_rfl).trans ?_
  rw [sum_recorded, sum_failures]

/-- An enabled and closed breaker records an outcome. -/
theorem Inv.record_cases (h : Inv cfg last watched)
    (hclosed : watched.breaker.openUntilMs = 0) {nowMs : ℕ}
    (hle : last ≤ nowMs) (ok : Bool)
    (hfew : recorded (bucketMs cfg) watched.outcomes
      (nowMs / bucketMs cfg) + 1 < 2 ^ 32) :
    (ok = false ∧
        OverThreshold cfg (watched.outcomes ++ [⟨nowMs, !ok⟩]) nowMs) ∧
      watched.breaker.record nowMs ok =
        (watched.breaker.observed nowMs ok).tripped nowMs ∨
    ¬(ok = false ∧
        OverThreshold cfg (watched.outcomes ++ [⟨nowMs, !ok⟩]) nowMs) ∧
      watched.breaker.record nowMs ok = watched.breaker.observed nowMs ok := by
  have htotals := h.totals_observed hle ok hfew
  rw [record_of_closed h.enabled hclosed]
  cases ok with
  | true => exact .inr ⟨nofun, rfl⟩
  | false =>
      have hobserved : (watched.breaker.observed nowMs false).openUntilMs = 0 :=
        hclosed
      rw [if_neg Bool.false_ne_true, tripIfOverThreshold_eq hobserved, htotals,
        OverThreshold, ← h.minRequests, ← h.failurePercent]
      split_ifs with hover
      · exact .inl ⟨⟨rfl, hover⟩, rfl⟩
      · exact .inr ⟨fun hboth => hover hboth.2, rfl⟩

theorem Inv.record (h : Inv cfg last watched) {nowMs : ℕ} (hle : last ≤ nowMs)
    (ok : Bool)
    (hroom : watched.breaker.openUntilMs = 0 → recorded (bucketMs cfg)
      watched.outcomes (nowMs / bucketMs cfg) + 1 < 2 ^ 32) :
    Inv cfg nowMs (watched.step (.record nowMs ok)) := by
  by_cases hclosed : watched.breaker.openUntilMs = 0
  · have hfew := hroom hclosed
    rcases h.record_cases hclosed hle ok hfew with ⟨-, htrip⟩ | ⟨-, hseen⟩
    · refine (h.mono hle).forget ?_ ?_ ?_
      · refine .inr ?_
        rw [Breaker.step, htrip]
        exact deadline_ne_zero nowMs
      · rw [Breaker.step, htrip]
        exact fun hzero => absurd hzero (deadline_ne_zero nowMs)
      · rw [Breaker.step, htrip]
        exact RollingRatio.counts_of_empty (fun _ => rfl) _
    · have hstep : watched.step (.record nowMs ok) =
          ⟨watched.breaker.observed nowMs ok,
            watched.outcomes ++ [⟨nowMs, !ok⟩]⟩ := by
        have hstill : (watched.breaker.observed nowMs ok).openUntilMs = 0 :=
          hclosed
        simp only [step, Breaker.step, hseen, state_eq_open, hclosed, hstill,
          ne_eq, not_true_eq_false, or_self, if_false]
        rfl
      rw [hstep]
      exact
        { enabled := h.enabled
          minRequests := h.minRequests
          failurePercent := h.failurePercent
          bucketMs_eq := h.bucketMs_eq
          active := h.active
          opened := fun hopen => absurd hclosed hopen
          counts := h.counts.record h.bucketMs_eq (Nat.div_le_div_right hle)
            hfew (!ok)
          few := by
            rw [recorded_concat]
            exact (Function.forall_update_iff _ fun _ n => n < 2 ^ 32).mpr
              ⟨hfew, fun epoch _ => h.few epoch⟩ }
  · refine (h.mono hle).idle (record_of_open hclosed nowMs ok) ?_
    exact fun hzero => absurd hzero hclosed

/-! ## Runs -/

/-- The bucket that a call counts in has room for one more event. -/
def Room (cfg : Config.Breaker) (watched : Watched) (call : Call) : Prop :=
  watched.breaker.state = .closed → ∀ outcome ∈ call.outcome,
    recorded (bucketMs cfg) watched.outcomes (outcome.nowMs / bucketMs cfg) +
      1 < 2 ^ 32

instance (watched : Watched) (call : Call) :
    Decidable (watched.Room cfg call) :=
  inferInstanceAs (Decidable (_ → ∀ outcome ∈ call.outcome, _))

theorem Inv.step (h : Inv cfg last watched) (hle : last ≤ call.nowMs)
    (htoken : ∀ token ∈ call.reported, token.value ≠ 0)
    (hroom : watched.Room cfg call) :
    Inv cfg call.nowMs (watched.step call) := by
  cases call with
  | allowance nowMs => exact (h.allowance nowMs).mono hle
  | recordProbe nowMs token ok =>
      exact (h.recordProbe nowMs (htoken token rfl) ok).mono hle
  | record nowMs ok =>
      exact h.record hle ok fun hclosed =>
        hroom (state_eq_closed.mpr hclosed) ⟨nowMs, !ok⟩ rfl

theorem Inv.run (h : Inv cfg last watched) {calls : List Call} {until' : ℕ}
    (huntil : last ≤ until')
    (htimes : calls.Pairwise fun earlier later => earlier.nowMs ≤ later.nowMs)
    (hbounds : ∀ call ∈ calls, last ≤ call.nowMs ∧ call.nowMs ≤ until')
    (htokens : ∀ call ∈ calls, ∀ token ∈ call.reported, token.value ≠ 0)
    (hroom : Guarded Watched.step (Room cfg) watched calls) :
    Inv cfg until' (Support.run Watched.step watched calls) := by
  induction calls generalizing watched last with
  | nil => exact h.mono huntil
  | cons call calls ih =>
      rw [List.pairwise_cons] at htimes
      rw [List.forall_mem_cons] at hbounds htokens
      refine ih (h.step hbounds.1.1 htokens.1 hroom.1) hbounds.1.2 htimes.2 ?_
        htokens.2 hroom.2
      exact fun later hlater =>
        ⟨htimes.1 later hlater, (hbounds.2 later hlater).2⟩

/-- Ten buckets of 32 bits, in percent, fit into 64 bits. -/
theorem Inv.length_recent (h : Inv cfg last watched) (epoch : ℕ) :
    (recent (bucketMs cfg) watched.outcomes epoch).length ≤ 10 * 2 ^ 32 := by
  rw [← sum_recorded]
  calc ∑ e ∈ Finset.Icc (epoch - (BUCKETS - 1)) epoch,
        recorded (bucketMs cfg) watched.outcomes e
      ≤ (Finset.Icc (epoch - (BUCKETS - 1)) epoch).card * 2 ^ 32 :=
        Finset.sum_le_card_nsmul _ _ _ fun e _ => (h.few e).le
    _ ≤ 10 * 2 ^ 32 := by
        refine Nat.mul_le_mul_right _ ?_
        rw [Nat.card_Icc, BUCKETS]
        omega

/-- The run of the breaker is the same with and without its outcomes. -/
theorem breaker_run (watched : Watched) (calls : List Call) :
    (Support.run Watched.step watched calls).breaker =
      Support.run Breaker.step watched.breaker calls := by
  induction calls generalizing watched with
  | nil => rfl
  | cons call calls ih => exact ih (watched.step call)

end Watched

/-- The breaker trips exactly when it should: along every run of an enabled
breaker at non-decreasing times, a call of `record` opens the closed breaker if
and only if it reports a failure and, among the outcomes recorded since the
breaker last became closed whose epochs lie in the ten that end at the current
one, there are at least `min_requests` and the failures are at least
`failure_percent` of them.  No product of the comparison overflows. -/
theorem record_opens_iff {cfg : Config.Breaker} (henabled : cfg.enabled = true)
    (hpercent : cfg.failurePercent ≤ 100) {calls : List Call} {nowMs : ℕ}
    {ok : Bool}
    (htimes : (calls ++ [Call.record nowMs ok]).Pairwise
      fun earlier later => earlier.nowMs ≤ later.nowMs)
    (htokens : ∀ call ∈ calls, ∀ token ∈ call.reported, token.value ≠ 0)
    (hroom : Guarded Watched.step (Watched.Room cfg) { breaker := .new cfg }
      (calls ++ [.record nowMs ok]))
    (hclosed : (run step (new cfg) calls).state = .closed) :
    let outcomes := (run Watched.step { breaker := .new cfg } calls).outcomes
    let window := recent (bucketMs cfg) (outcomes ++ [⟨nowMs, !ok⟩])
      (nowMs / bucketMs cfg)
    (((run step (new cfg) calls).record nowMs ok).state = .open ↔
      ok = false ∧ cfg.minRequests ≤ window.length ∧
        window.length * cfg.failurePercent ≤
          window.countP Outcome.failed * 100) ∧
      window.length * cfg.failurePercent < 2 ^ 64 ∧
      window.countP Outcome.failed * 100 < 2 ^ 64 := by
  intro outcomes window
  rw [guarded_append] at hroom
  rw [List.pairwise_append] at htimes
  have hinv : Watched.Inv cfg nowMs
      (run Watched.step { breaker := .new cfg } calls) := by
    refine (Watched.inv_new henabled).run (Nat.zero_le _) htimes.1 ?_ htokens
      hroom.1
    exact fun call hcall => ⟨Nat.zero_le _,
      htimes.2.2 call hcall _ (List.mem_singleton_self _)⟩
  rw [← Watched.breaker_run { breaker := .new cfg }] at hclosed ⊢
  have hopen := state_eq_closed.mp hclosed
  have hfew := hroom.2.1 hclosed ⟨nowMs, !ok⟩ rfl
  have hlength : window.length ≤ 10 * 2 ^ 32 + 1 := by
    have hbefore := hinv.length_recent (nowMs / bucketMs cfg)
    have happend : window = recent (bucketMs cfg) outcomes
        (nowMs / bucketMs cfg) ++ recent (bucketMs cfg) [⟨nowMs, !ok⟩]
          (nowMs / bucketMs cfg) := List.filter_append _ _
    have hone : (recent (bucketMs cfg) [⟨nowMs, !ok⟩]
        (nowMs / bucketMs cfg)).length ≤ 1 := List.length_filter_le _ _
    rw [happend, List.length_append]
    exact Nat.add_le_add hbefore hone
  have hcount : window.countP Outcome.failed ≤ window.length :=
    List.countP_le_length
  refine ⟨?_, ?_, by omega⟩
  · rcases hinv.record_cases hopen le_rfl ok hfew with
      ⟨hover, htrip⟩ | ⟨hunder, hseen⟩
    · refine iff_of_true ?_ hover
      rw [htrip]
      exact state_eq_open.mpr (deadline_ne_zero nowMs)
    · refine iff_of_false ?_ hunder
      rw [hseen]
      exact fun hstate => state_eq_open.mp hstate hopen
  · calc window.length * cfg.failurePercent ≤ window.length * 100 :=
          Nat.mul_le_mul_left _ hpercent
      _ < 2 ^ 64 := by omega

/-- Two of four requests have to fail.  A success and a failure are followed,
in a later bucket, by another of each, and the last failure trips. -/
theorem record_opens_iff_fourth_request :
    let cfg : Config.Breaker := { enabled := true, minRequests := 4 }
    let calls : List Call :=
      [.record 0 true, .record 500 false, .record 1500 true]
    (run step (new cfg) calls).state = .closed ∧
      ((run step (new cfg) calls).record 2500 false).state = .open := by
  intro cfg calls
  have hclosed : (run step (new cfg) calls).state = .closed := by decide
  refine ⟨hclosed, ((record_opens_iff rfl (by decide) ?_ ?_ ?_ hclosed).1).mpr
    ⟨rfl, ?_, ?_⟩⟩
  · decide
  · decide
  · decide +kernel
  · decide
  · decide

end Breaker

end Harmost.Upstream
