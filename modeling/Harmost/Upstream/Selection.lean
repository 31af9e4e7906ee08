import Harmost.Support.Lists
import Harmost.Upstream.Load

/-!
# Which backend is selected

A pool that has backends always selects one.  A healthy backend whose breaker
is open and past its deadline is probed before anything else; otherwise the
strategy picks among the healthy backends with closed breakers, or, where there
are none or too many breakers are open, among all healthy backends.
-/

namespace Harmost.Upstream

open Harmost.Support
open Harmost.Config

namespace UpstreamPool

variable {pool : UpstreamPool} {candidates : List Backend}

/-! ## Picking -/

/-- Every strategy picks one of the candidates, and leaves all that is known
about the backends as it is. -/
theorem pick_spec (pool : UpstreamPool) (hne : candidates ≠ []) (path : Str) :
    (∃ backend ∈ candidates, (pool.pick candidates path).1 = some backend) ∧
      (pool.pick candidates path).2.state = pool.state := by
  have hcandidates : candidates.isEmpty = false :=
    List.isEmpty_eq_false_iff.mpr hne
  rw [pick, hcandidates, if_neg Bool.false_ne_true]
  cases pool.strategy with
  | roundRobin | hashByPath =>
      exact ⟨exists_getElem?_mod hne _, rfl⟩
  | leastLoaded =>
      obtain ⟨backend, hvisited, hresult, -⟩ := pool.leastLoaded_spec hne
      obtain ⟨_, -, hbackend⟩ := mem_visited.mp hvisited
      exact ⟨⟨backend, List.mem_of_getElem? hbackend, hresult⟩, rfl⟩

theorem pickOrdinary_spec (pool : UpstreamPool) (hne : candidates ≠ [])
    (path : Str) :
    (∃ backend ∈ candidates,
        (pool.pickOrdinary candidates path).1 = some ⟨backend, none⟩) ∧
      (pool.pickOrdinary candidates path).2.state = pool.state := by
  obtain ⟨⟨backend, hmem, hpick⟩, hstate⟩ := pool.pick_spec hne path
  refine ⟨⟨backend, hmem, ?_⟩, hstate⟩
  rw [pickOrdinary, hpick, Option.map_some]

/-! ## Probing -/

/-- The breaker of a backend is open and past its deadline. -/
def Due (pool : UpstreamPool) (nowMs : ℕ) (backend : Backend) : Prop :=
  ∃ s, pool.state[backend.id]? = some s ∧ s.breaker.state = .open ∧
    s.breaker.openUntilMs ≤ nowMs

instance (nowMs : ℕ) (backend : Backend) :
    Decidable (pool.Due nowMs backend) :=
  decidable_of_iff (pool.state[backend.id]?.any (fun s =>
      s.breaker.state == .open && decide (s.breaker.openUntilMs ≤ nowMs)) =
        true) (by simp [Due, Option.any_eq_true])

theorem update_eq_self {id : ℕ} {f : BackendState → BackendState}
    (hf : ∀ s, (f s).breaker.enabled = s.breaker.enabled)
    (hsame : ∀ s, pool.state[id]? = some s → f s = s) :
    pool.update id f hf = pool := by
  have hstate : pool.state.modify id f = pool.state := by
    refine List.ext_getElem? fun i => ?_
    by_cases hi : id = i
    · subst hi
      cases hs : pool.state[id]? with
      | none => simp [hs]
      | some s => simp [hs, hsame s hs]
    · simp [hi]
  simp only [update, hstate]

/-- An open breaker, of a pool that breaks, grants a probe exactly past its
deadline. -/
theorem allowance_of_open {s : BackendState}
    (henabled : s.breaker.enabled = true) (hopen : s.breaker.state = .open)
    (nowMs : ℕ) :
    (s.breaker.openUntilMs ≤ nowMs →
        ∃ token, (s.breaker.allowance nowMs).1 = .probe token) ∧
      (¬s.breaker.openUntilMs ≤ nowMs →
        s.breaker.allowance nowMs = (.denied, s.breaker)) := by
  have hne := Breaker.state_eq_open.mp hopen
  constructor
  · intro hdue
    refine ⟨⟨s.breaker.nextProbe + 1⟩, ?_⟩
    simp [Breaker.allowance, henabled, hne, Nat.not_lt.mpr hdue]
  · intro hearly
    simp [Breaker.allowance, henabled, hne, Nat.lt_of_not_le hearly]

/-- The loop over ejected backends probes the first that is due. -/
theorem spendProbe_eq (pool : UpstreamPool) (nowMs : ℕ)
    {backends : List Backend} (hopen : ∀ backend ∈ backends,
      ∃ s, pool.state[backend.id]? = some s ∧ s.breaker.enabled = true ∧
        s.breaker.state = .open) :
    (backends.find? (fun backend => pool.Due nowMs backend) = none ∧
        pool.spendProbe nowMs backends = (none, pool)) ∨
      ∃ backend token,
        backends.find? (fun backend => pool.Due nowMs backend) =
            some backend ∧
          pool.spendProbe nowMs backends =
            (some ⟨backend, some token⟩, pool.allowance backend.id nowMs) := by
  induction backends with
  | nil => exact .inl ⟨rfl, rfl⟩
  | cons backend rest ih =>
      rw [List.forall_mem_cons] at hopen
      obtain ⟨⟨s, hs, henabled, hstate⟩, hrest⟩ := hopen
      obtain ⟨hprobe, hdenied⟩ := allowance_of_open henabled hstate nowMs
      by_cases hdue : s.breaker.openUntilMs ≤ nowMs
      · obtain ⟨token, htoken⟩ := hprobe hdue
        refine .inr ⟨backend, token, ?_, ?_⟩
        · exact List.find?_cons_of_pos (decide_eq_true ⟨s, hs, hstate, hdue⟩)
        · simp only [spendProbe, hs, htoken]
      · have hnot : ¬pool.Due nowMs backend := by
          rintro ⟨s', hs', -, hdue'⟩
          rw [hs, Option.some.injEq] at hs'
          exact hdue (hs' ▸ hdue')
        have hsame : pool.allowance backend.id nowMs = pool := by
          refine update_eq_self _ fun s' hs' => ?_
          rw [hs, Option.some.injEq] at hs'
          rw [← hs', hdenied hdue]
        rw [List.find?_cons_of_neg (by simpa using hnot)]
        simp only [spendProbe, hs, hdenied hdue, hsame]
        exact ih hrest

/-! ## Selecting -/

/-- The candidates that the strategy is left to pick among when no probe is
sent. -/
inductive Candidates (pool : UpstreamPool) (nowMs : ℕ) : List Backend → Prop
  | unhealthy (hhealthy : pool.healthy = []) :
      Candidates pool nowMs pool.backends
  /-- Breaking is disabled. -/
  | unbroken (hhealthy : pool.healthy ≠ []) (hmax : pool.maxEjected = 0) :
      Candidates pool nowMs pool.healthy
  /-- More breakers are open than may be honoured. -/
  | capped (hhealthy : pool.healthy ≠ []) (hmax : 0 < pool.maxEjected)
      (hdue : ∀ backend ∈ pool.healthy, ¬pool.Due nowMs backend)
      (hcap : pool.maxEjected < pool.ejected.length) :
      Candidates pool nowMs pool.healthy
  | exhausted (hhealthy : pool.healthy ≠ []) (hmax : 0 < pool.maxEjected)
      (hdue : ∀ backend ∈ pool.healthy, ¬pool.Due nowMs backend)
      (hnone : pool.available pool.healthy = []) :
      Candidates pool nowMs pool.healthy
  | closed (hmax : 0 < pool.maxEjected)
      (hdue : ∀ backend ∈ pool.healthy, ¬pool.Due nowMs backend)
      (hsome : pool.available pool.healthy ≠ []) :
      Candidates pool nowMs (pool.available pool.healthy)

/-- What a selection can come to. -/
inductive Selects (pool : UpstreamPool) (nowMs : ℕ) :
    Option SelectedBackend × UpstreamPool → Prop
  | none (hempty : pool.backends = []) : Selects pool nowMs (none, pool)
  | probe {backend : Backend} {token : ProbeToken} (hmax : 0 < pool.maxEjected)
      (hfirst : pool.healthy.find? (fun backend => pool.Due nowMs backend) =
        some backend) :
      Selects pool nowMs
        (some ⟨backend, some token⟩, pool.allowance backend.id nowMs)
  | ordinary {backend : Backend} {after : UpstreamPool}
      {candidates : List Backend}
      (hcandidates : Candidates pool nowMs candidates)
      (hmem : backend ∈ candidates) (hstate : after.state = pool.state) :
      Selects pool nowMs (some ⟨backend, Option.none⟩, after)

theorem selects_pickOrdinary {nowMs : ℕ}
    (hcandidates : Candidates pool nowMs candidates) (hne : candidates ≠ [])
    (path : Str) : Selects pool nowMs (pool.pickOrdinary candidates path) := by
  obtain ⟨⟨backend, hmem, hpick⟩, hstate⟩ := pool.pickOrdinary_spec hne path
  have hpair : pool.pickOrdinary candidates path =
      (some ⟨backend, none⟩, (pool.pickOrdinary candidates path).2) :=
    Prod.ext hpick rfl
  rw [hpair]
  exact .ordinary hcandidates hmem hstate

/-- A breaker that is due is open. -/
theorem breakerState_of_due {nowMs : ℕ} {backend : Backend}
    (hdue : pool.Due nowMs backend) : pool.breakerState backend.id = .open := by
  obtain ⟨s, hs, hopen, -⟩ := hdue
  rw [breakerState, hs, Option.map_some, Option.getD_some, hopen]

/-- The first ejected backend that is due is the first healthy one. -/
theorem find?_ejected (pool : UpstreamPool) (nowMs : ℕ) :
    pool.ejected.find? (fun backend => pool.Due nowMs backend) =
      pool.healthy.find? fun backend => pool.Due nowMs backend := by
  rw [ejected, List.find?_filter]
  congr 1
  funext backend
  by_cases hdue : pool.Due nowMs backend
  · simp [hdue, breakerState_of_due hdue]
  · simp [hdue]

/-- An ejected backend has an open breaker, and the pool breaks. -/
theorem open_of_mem_ejected (hmax : 0 < pool.maxEjected) {backend : Backend}
    (hmem : backend ∈ pool.ejected) :
    ∃ s, pool.state[backend.id]? = some s ∧ s.breaker.enabled = true ∧
      s.breaker.state = .open := by
  obtain ⟨hhealthy, hopen⟩ := List.mem_filter.mp hmem
  rw [beq_iff_eq, breakerState] at hopen
  cases hs : pool.state[backend.id]? with
  | none => rw [hs] at hopen; cases hopen
  | some s =>
      rw [hs] at hopen
      exact ⟨s, rfl, pool.enabled hmax s (List.mem_of_getElem? hs), hopen⟩

theorem selects_selectAt (pool : UpstreamPool) (path : Str) (nowMs : ℕ) :
    Selects pool nowMs (pool.selectAt path nowMs) := by
  rw [selectAt]
  by_cases hempty : pool.backends = []
  · rw [if_pos (List.isEmpty_iff.mpr hempty)]
    exact .none hempty
  rw [if_neg (mt List.isEmpty_iff.mp hempty)]
  by_cases hhealthy : pool.healthy = []
  · rw [if_pos (List.isEmpty_iff.mpr hhealthy)]
    exact selects_pickOrdinary (.unhealthy hhealthy) hempty path
  rw [if_neg (mt List.isEmpty_iff.mp hhealthy)]
  by_cases hmax : pool.maxEjected = 0
  · rw [if_pos hmax]
    exact selects_pickOrdinary (.unbroken hhealthy hmax) hhealthy path
  rw [if_neg hmax]
  have hpos : 0 < pool.maxEjected := Nat.pos_of_ne_zero hmax
  rcases pool.spendProbe_eq nowMs fun backend => open_of_mem_ejected hpos with
    ⟨hnone, hspend⟩ | ⟨backend, token, hfirst, hspend⟩
  · rw [find?_ejected] at hnone
    have hdue : ∀ backend ∈ pool.healthy, ¬pool.Due nowMs backend := by
      intro backend hmem
      simpa using List.find?_eq_none.mp hnone backend hmem
    simp only [hspend]
    split_ifs with hcap havailable
    · exact selects_pickOrdinary (.capped hhealthy hpos hdue hcap) hhealthy path
    · exact selects_pickOrdinary
        (.exhausted hhealthy hpos hdue (List.isEmpty_iff.mp havailable))
        hhealthy path
    · have hsome := mt List.isEmpty_iff.mpr havailable
      exact selects_pickOrdinary (.closed hpos hdue hsome) hsome path
  · rw [find?_ejected] at hfirst
    simp only [hspend]
    exact .probe hpos hfirst

/-! ## The choice -/

section

variable {nowMs : ℕ} (h : Candidates pool nowMs candidates)
include h

theorem Candidates.subset : candidates ⊆ pool.backends := by
  have hhealthy : pool.healthy ⊆ pool.backends := List.filter_sublist.subset
  cases h with
  | unhealthy => exact List.Subset.refl _
  | unbroken | capped | exhausted => exact hhealthy
  | closed => exact List.Subset.trans List.filter_sublist.subset hhealthy

/-- The candidates are healthy, unless no backend is. -/
theorem Candidates.healthy (hsome : pool.healthy ≠ []) :
    candidates ⊆ pool.healthy := by
  cases h with
  | unhealthy hhealthy => exact absurd hhealthy hsome
  | unbroken | capped | exhausted => exact List.Subset.refl _
  | closed => exact List.filter_sublist.subset

/-- Where candidates are picked from, no probe is due. -/
theorem Candidates.not_due (hmax : 0 < pool.maxEjected) :
    ∀ backend ∈ pool.healthy, ¬pool.Due nowMs backend := by
  cases h with
  | unhealthy hhealthy => simp [hhealthy]
  | unbroken _ hzero => omega
  | capped _ _ hdue | exhausted _ _ hdue | closed _ hdue => exact hdue

/-- The candidates have closed breakers, if some healthy backend has and the
cap allows to eject the others. -/
theorem Candidates.breaker_closed (hmax : 0 < pool.maxEjected)
    (hcap : pool.ejected.length ≤ pool.maxEjected)
    (hclosed : pool.available pool.healthy ≠ []) {backend : Backend}
    (hmem : backend ∈ candidates) : pool.breakerState backend.id = .closed := by
  cases h with
  | unhealthy hhealthy => simp [available, hhealthy] at hclosed
  | unbroken | capped => omega
  | exhausted _ _ _ hnone => exact absurd hnone hclosed
  | closed => exact eq_of_beq (List.mem_filter.mp hmem).2

end

theorem healthy_ne_nil_iff :
    pool.healthy ≠ [] ↔
      ∃ backend ∈ pool.backends, pool.isHealthy backend.id = true := by
  simp [UpstreamPool.healthy, List.filter_eq_nil_iff]

/-- The state of the other backends is as before. -/
theorem getElem?_allowance {id nowMs other : ℕ} (hne : other ≠ id) :
    (pool.allowance id nowMs).state[other]? = pool.state[other]? := by
  simp [allowance, update, Ne.symm hne]

/-- A selection returns a backend exactly when the pool has one, and a healthy
one whenever there is one.  It carries a probe token exactly when the pool may
eject and some healthy open breaker is past its deadline; it is then the first
such backend in pool order, and what is known about the others has not changed.
Otherwise nothing has changed, and if the pool may eject, at most `max_ejected`
healthy breakers are open and some healthy breaker is closed, then that of the
backend is closed. -/
theorem selectAt_spec (pool : UpstreamPool) (path : Str) (nowMs : ℕ) :
    let selected := (pool.selectAt path nowMs).1
    let after := (pool.selectAt path nowMs).2
    (selected.isSome = true ↔ pool.backends ≠ []) ∧
      (∀ s ∈ selected, s.backend ∈ pool.backends ∧
        ((∃ backend ∈ pool.backends, pool.isHealthy backend.id = true) →
          pool.isHealthy s.backend.id = true)) ∧
      ((∃ s ∈ selected, s.probe.isSome = true) ↔
        0 < pool.maxEjected ∧ ∃ backend ∈ pool.backends,
          pool.isHealthy backend.id = true ∧ pool.Due nowMs backend) ∧
      (∀ s ∈ selected, s.probe.isSome = true →
        pool.backends.find? (fun backend => pool.isHealthy backend.id &&
            decide (pool.Due nowMs backend)) = some s.backend ∧
          ∀ other ≠ s.backend.id, after.state[other]? = pool.state[other]?) ∧
      (∀ s ∈ selected, s.probe = none → after.state = pool.state ∧
        (0 < pool.maxEjected →
          (pool.backends.filter fun backend => pool.isHealthy backend.id &&
            pool.breakerState backend.id == .open).length ≤ pool.maxEjected →
          (∃ backend ∈ pool.backends, pool.isHealthy backend.id = true ∧
            pool.breakerState backend.id = .closed) →
          pool.breakerState s.backend.id = .closed)) := by
  intro selected after
  have hselects := pool.selects_selectAt path nowMs
  have hpair : pool.selectAt path nowMs = (selected, after) := rfl
  have hejected : (pool.backends.filter fun backend =>
      pool.isHealthy backend.id && pool.breakerState backend.id == .open) =
        pool.ejected := by
    rw [ejected, UpstreamPool.healthy, List.filter_filter]
    exact List.filter_congr fun backend _ => Bool.and_comm _ _
  have hfind : pool.backends.find? (fun backend => pool.isHealthy backend.id &&
      decide (pool.Due nowMs backend)) =
        pool.healthy.find? fun backend => pool.Due nowMs backend := by
    simp only [UpstreamPool.healthy, List.find?_filter, Bool.decide_and,
      Bool.decide_eq_true]
  have hdue : (∃ backend ∈ pool.backends, pool.isHealthy backend.id = true ∧
      pool.Due nowMs backend) ↔
        ∃ backend ∈ pool.healthy, pool.Due nowMs backend := by
    simp [UpstreamPool.healthy, and_assoc]
  have havailable : (∃ backend ∈ pool.backends,
      pool.isHealthy backend.id = true ∧
        pool.breakerState backend.id = .closed) →
          pool.available pool.healthy ≠ [] := by
    rintro ⟨backend, hmem, hhealthy, hclosed⟩
    refine List.ne_nil_of_mem (a := backend) (List.mem_filter.mpr ⟨?_, ?_⟩)
    · exact List.mem_filter.mpr ⟨hmem, hhealthy⟩
    · rw [hclosed]
      rfl
  rw [hejected, hfind, hdue, ← healthy_ne_nil_iff]
  rw [hpair] at hselects
  clear_value selected after
  cases hselects with
  | none hempty =>
      have hnone : pool.healthy = [] := by
        rw [UpstreamPool.healthy, hempty, List.filter_nil]
      simp [hempty, hnone]
  | @probe backend token hmax hfirst =>
      have hhealthy : backend ∈ pool.healthy := List.mem_of_find?_eq_some hfirst
      have hdue : pool.Due nowMs backend := by
        simpa using List.find?_some hfirst
      obtain ⟨hmem, hok⟩ := List.mem_filter.mp hhealthy
      refine ⟨iff_of_true rfl (List.ne_nil_of_mem hmem), ?_, ?_, ?_, ?_⟩
      · rintro s ⟨⟩
        exact ⟨hmem, fun _ => hok⟩
      · exact iff_of_true ⟨_, rfl, rfl⟩ ⟨hmax, backend, hhealthy, hdue⟩
      · rintro s ⟨⟩ -
        exact ⟨hfirst, fun other hother => getElem?_allowance hother⟩
      · rintro s ⟨⟩ hnone
        cases hnone
  | @ordinary backend after candidates hcandidates hmem hstate =>
      have hbackend : backend ∈ pool.backends := hcandidates.subset hmem
      refine ⟨iff_of_true rfl (List.ne_nil_of_mem hbackend), ?_, ?_, ?_, ?_⟩
      · rintro s ⟨⟩
        refine ⟨hbackend, fun hsome => ?_⟩
        exact (List.mem_filter.mp (hcandidates.healthy hsome hmem)).2
      · refine iff_of_false ?_ ?_
        · rintro ⟨s, ⟨⟩, hprobe⟩
          cases hprobe
        · rintro ⟨hmax, backend', hhealthy, hdue⟩
          exact hcandidates.not_due hmax backend' hhealthy hdue
      · rintro s ⟨⟩ hprobe
        cases hprobe
      · rintro s ⟨⟩ -
        exact ⟨hstate, fun hmax hcap hclosed =>
          hcandidates.breaker_closed hmax hcap (havailable hclosed) hmem⟩

end UpstreamPool

end Harmost.Upstream
