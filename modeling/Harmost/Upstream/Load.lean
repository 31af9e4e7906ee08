import Harmost.Support.Run
import Harmost.Support.WrappingScan
import Harmost.Upstream.Pool

/-!
# The least loaded backend

The scan visits one position of the candidate list for each candidate, from a
rotating offset on.  It returns a backend with the least score among those it
has visited.  The offset is a machine word, and where the sum of offset and
step wraps around, positions can be visited twice and others not at all.
-/

namespace Harmost.Upstream

open Harmost.Support

namespace UpstreamPool

variable {pool : UpstreamPool} {candidates : List Backend}

/-! ## The running minimum -/

/-- A backend with its score, which no visited backend is below. -/
structure Lowest (pool : UpstreamPool) (visited : List Backend)
    (best : Option (Backend × ℕ)) : Prop where
  none_iff : best = none ↔ visited = []
  mem : ∀ found ∈ best, found.1 ∈ visited ∧ found.2 = pool.score found.1.id
  le : ∀ found ∈ best, ∀ backend ∈ visited, found.2 ≤ pool.score backend.id

theorem Lowest.consider {visited : List Backend} {best : Option (Backend × ℕ)}
    (h : Lowest pool visited best) (backend : Backend) :
    Lowest pool (visited ++ [backend]) (pool.consider best backend) := by
  have hlast : backend ∈ visited ++ [backend] := by simp
  unfold UpstreamPool.consider
  split_ifs with hbelow
  · refine ⟨by simp, ?_, ?_⟩
    · rintro found ⟨⟩
      exact ⟨hlast, rfl⟩
    · rintro found ⟨⟩ other hother
      rcases List.mem_append.mp hother with hbefore | hself
      · cases best with
        | none => rw [h.none_iff.mp rfl] at hbefore; cases hbefore
        | some previous =>
            have hlt : pool.score backend.id < previous.2 := by
              simpa using hbelow
            exact hlt.le.trans (h.le previous rfl other hbefore)
      · rw [List.mem_singleton.mp hself]
  · cases best with
    | none => exact absurd rfl hbelow
    | some previous =>
        have hle : previous.2 ≤ pool.score backend.id := by
          simpa using hbelow
        obtain ⟨hmem, hscore⟩ := h.mem previous rfl
        refine ⟨by simp, ?_, ?_⟩
        · rintro found ⟨⟩
          exact ⟨List.mem_append_left _ hmem, hscore⟩
        · rintro found ⟨⟩ other hother
          rcases List.mem_append.mp hother with hbefore | hself
          · exact h.le previous rfl other hbefore
          · rwa [List.mem_singleton.mp hself]

/-! ## What is visited -/

theorem position_lt (pool : UpstreamPool) (hne : candidates ≠ []) (step : ℕ) :
    pool.position candidates step < candidates.length :=
  Nat.mod_lt _ (List.length_pos_iff.mpr hne)

/-- The backends at the first positions. -/
def visited (pool : UpstreamPool) (candidates : List Backend) (steps : ℕ) :
    List Backend :=
  (List.range steps).filterMap fun step =>
    candidates[pool.position candidates step]?

theorem visited_succ (pool : UpstreamPool) (candidates : List Backend)
    (steps : ℕ) :
    pool.visited candidates (steps + 1) = pool.visited candidates steps ++
      candidates[pool.position candidates steps]?.toList := by
  rw [visited, List.range_succ, List.filterMap_append, visited]
  cases hbackend : candidates[pool.position candidates steps]? with
  | none => simp [hbackend]
  | some backend => simp [hbackend]

theorem lowest_scan (pool : UpstreamPool) (candidates : List Backend)
    (steps : ℕ) :
    Lowest pool (pool.visited candidates steps)
      ((List.range steps).foldl (pool.scan candidates) none) := by
  induction steps with
  | zero => exact ⟨by simp [visited], nofun, nofun⟩
  | succ steps ih =>
      rw [List.range_succ, List.foldl_append, visited_succ, List.foldl_cons,
        List.foldl_nil, scan]
      split
      · rename_i backend hbackend
        rw [hbackend, Option.toList_some]
        exact ih.consider backend
      · rename_i hnone
        rw [hnone, Option.toList_none, List.append_nil]
        exact ih

theorem mem_visited {backend : Backend} {steps : ℕ} :
    backend ∈ pool.visited candidates steps ↔ ∃ step < steps,
      candidates[pool.position candidates step]? = some backend := by
  simp [visited]

/-- The scan of a non-empty list returns one of the visited backends, and none
of them has a lower score. -/
theorem leastLoaded_spec (pool : UpstreamPool) (hne : candidates ≠ []) :
    ∃ backend ∈ pool.visited candidates candidates.length,
      pool.leastLoaded candidates = some backend ∧
        ∀ other ∈ pool.visited candidates candidates.length,
          pool.score backend.id ≤ pool.score other.id := by
  have hscan := pool.lowest_scan candidates candidates.length
  rw [leastLoaded]
  cases hbest : (List.range candidates.length).foldl
      (pool.scan candidates) none with
  | none =>
      have hpos := List.length_pos_iff.mpr hne
      have hfirst := pool.position_lt hne 0
      have hvisited : candidates[pool.position candidates 0] ∈
          pool.visited candidates candidates.length :=
        mem_visited.mpr ⟨0, hpos, List.getElem?_eq_getElem hfirst⟩
      rw [hscan.none_iff.mp hbest] at hvisited
      cases hvisited
  | some found =>
      rw [hbest] at hscan
      obtain ⟨hmem, hscore⟩ := hscan.mem found rfl
      refine ⟨found.1, hmem, rfl, fun other hother => ?_⟩
      rw [← hscore]
      exact hscan.le found rfl other hother

/-- Every candidate is visited, if the offset does not wrap on the way or the
number of candidates divides the range of a machine word. -/
theorem mem_visited_of_covers
    (hcovers : pool.cursor + candidates.length ≤ 2 ^ 64 ∨
      candidates.length ∣ 2 ^ 64) {backend : Backend}
    (hmem : backend ∈ candidates) :
    backend ∈ pool.visited candidates candidates.length := by
  obtain ⟨p, hp⟩ := List.getElem?_of_mem hmem
  have hlt : p < candidates.length := (List.getElem?_eq_some_iff.mp hp).1
  obtain ⟨step, hstep, hvisit⟩ :=
    (wrappingVisit_covers_iff pool.cursor_lt).mpr hcovers p hlt
  refine mem_visited.mpr ⟨step, hstep, ?_⟩
  have hposition : pool.position candidates step = p := hvisit
  rw [hposition, hp]

/-- `least_loaded` returns a backend with the least score exactly when the
offset does not wrap on the way, the number of candidates divides the range of
a machine word, or, though the scan visits other positions only, one of them
holds a backend with the least score. -/
theorem leastLoaded_minimal_iff (pool : UpstreamPool)
    {candidates : List Backend} (hne : candidates ≠ []) :
    (∃ backend ∈ candidates, pool.leastLoaded candidates = some backend ∧
        ∀ other ∈ candidates, pool.score backend.id ≤ pool.score other.id) ↔
      pool.cursor + candidates.length ≤ 2 ^ 64 ∨
        candidates.length ∣ 2 ^ 64 ∨
        ∃ step < candidates.length, ∃ backend,
          candidates[(pool.cursor + step) % 2 ^ 64 % candidates.length]? =
            some backend ∧
          ∀ other ∈ candidates,
            pool.score backend.id ≤ pool.score other.id := by
  obtain ⟨backend, hvisited, hresult, hleast⟩ := pool.leastLoaded_spec hne
  obtain ⟨step, hstep, hbackend⟩ := mem_visited.mp hvisited
  have hmem : backend ∈ candidates := List.mem_of_getElem? hbackend
  constructor
  · rintro ⟨found, -, hfound, hminimal⟩
    obtain rfl : backend = found := Option.some.inj (hresult.symm.trans hfound)
    exact .inr (.inr ⟨step, hstep, backend, hbackend, hminimal⟩)
  · intro hcondition
    refine ⟨backend, hmem, hresult, fun other hother => ?_⟩
    rw [← or_assoc] at hcondition
    rcases hcondition with hcovers | ⟨step', hstep', found, hfound, hminimal⟩
    · exact hleast other (mem_visited_of_covers hcovers hother)
    · have hseen : found ∈ pool.visited candidates candidates.length :=
        mem_visited.mpr ⟨step', hstep', hfound⟩
      exact (hleast found hseen).trans (hminimal other hother)

/-- Three backends, two of which are at work, and the largest cursor. -/
def busyPool : UpstreamPool :=
  { ((new ["a".toList, "b".toList, "c".toList] .leastLoaded {}).enter 0).enter
      1 with
    cursor := 2 ^ 64 - 1
    cursor_lt := Nat.sub_lt (Nat.two_pow_pos 64) Nat.one_pos }

/-- The scan visits the first position twice and never the third, where the
idle backend is. -/
theorem leastLoaded_misses_idle :
    busyPool.leastLoaded busyPool.backends = some ⟨0, "a".toList⟩ ∧
      ⟨2, "c".toList⟩ ∈ busyPool.backends ∧
      busyPool.score 2 < busyPool.score 0 := by
  decide

/-- With two candidates the same cursor does no harm. -/
theorem leastLoaded_minimal_of_two :
    let candidates : List Backend := [⟨1, "b".toList⟩, ⟨2, "c".toList⟩]
    ∃ backend ∈ candidates, busyPool.leastLoaded candidates = some backend ∧
      ∀ other ∈ candidates,
        busyPool.score backend.id ≤ busyPool.score other.id :=
  (leastLoaded_minimal_iff busyPool (List.cons_ne_nil _ _)).mpr
    (.inr (.inl ⟨2 ^ 63, by decide⟩))

/-! ## The latency mean -/

/-- The samples of one backend. -/
def samplesOf (id : ℕ) (observations : List (ℕ × ℕ)) : List ℕ :=
  (observations.filter fun observation => observation.1 == id).map Prod.snd

/-- Observe a sample of a backend. -/
def observe (pool : UpstreamPool) (observation : ℕ × ℕ) : UpstreamPool :=
  pool.observeLatency observation.1 observation.2

theorem ewmaMicros_observe {id : ℕ} (hid : id < pool.state.length)
    (observation : ℕ × ℕ) :
    (pool.observe observation).ewmaMicros id =
      if observation.1 = id then
        foldLatency (pool.ewmaMicros id) observation.2
      else pool.ewmaMicros id := by
  simp only [observe, observeLatency, ewmaMicros, update,
    List.getElem?_modify, List.getElem?_eq_getElem hid, Option.map_some,
    Option.getD_some]
  split_ifs <;> rfl

theorem ewmaMicros_run {id : ℕ} (hid : id < pool.state.length)
    (observations : List (ℕ × ℕ)) :
    (run observe pool observations).ewmaMicros id =
      (samplesOf id observations).foldl foldLatency (pool.ewmaMicros id) := by
  induction observations generalizing pool with
  | nil => rfl
  | cons observation observations ih =>
      have hlength : id < (pool.observe observation).state.length := by
        rwa [observe, observeLatency, update, List.length_modify]
      rw [run_cons, ih hlength, ewmaMicros_observe hid]
      by_cases hown : observation.1 = id <;> simp [samplesOf, hown]

/-- Taking off an eighth keeps the order. -/
theorem sub_div_eight_le {a b : ℕ} (hle : a ≤ b) : a - a / 8 ≤ b - b / 8 := by
  omega

/-- A mean and a sample between two bounds give a mean between them. -/
theorem foldLatency_between {lo hi mean micros : ℕ} (hhi : hi < 2 ^ 64)
    (hmean : lo ≤ mean ∧ mean ≤ hi) (hmicros : lo ≤ micros ∧ micros ≤ hi) :
    lo ≤ foldLatency mean micros ∧ foldLatency mean micros ≤ hi := by
  rw [foldLatency]
  split_ifs
  · exact hmicros
  · have hlow := sub_div_eight_le hmean.1
    have hhigh := sub_div_eight_le hmean.2
    omega

theorem foldl_foldLatency_between {lo hi first : ℕ} (hhi : hi < 2 ^ 64)
    (hfirst : lo ≤ first ∧ first ≤ hi) {samples : List ℕ}
    (hsamples : ∀ micros ∈ samples, lo ≤ micros ∧ micros ≤ hi) :
    lo ≤ samples.foldl foldLatency first ∧
      samples.foldl foldLatency first ≤ hi :=
  List.foldlRecOn (motive := fun mean => lo ≤ mean ∧ mean ≤ hi) samples
    foldLatency hfirst fun _ hmean micros hmem =>
      foldLatency_between hhi hmean (hsamples micros hmem)

/-- The mean stays within its samples: after any observations of 64-bit values
on a pool where a backend has none yet, its mean lies between the smallest and
the largest of its own samples, and at the next sample the subtraction does not
underflow and the addition does not saturate. -/
theorem mean_within_samples (pool : UpstreamPool) (id : ℕ)
    (hid : id < pool.state.length) (hfresh : pool.ewmaMicros id = 0)
    (observations : List (ℕ × ℕ))
    (hwords : ∀ observation ∈ observations, observation.2 < 2 ^ 64)
    (hne : samplesOf id observations ≠ []) :
    let mean := (run observe pool observations).ewmaMicros id
    (samplesOf id observations).min hne ≤ mean ∧
      mean ≤ (samplesOf id observations).max hne ∧
      ∀ micros < 2 ^ 64,
        mean / 8 ≤ mean ∧ mean - mean / 8 + micros / 8 < 2 ^ 64 := by
  intro mean
  have hmean : mean = (samplesOf id observations).foldl foldLatency 0 := by
    rw [← hfresh]
    exact ewmaMicros_run hid observations
  have hword : ∀ micros ∈ samplesOf id observations, micros < 2 ^ 64 := by
    intro micros hmicros
    obtain ⟨observation, hmem, rfl⟩ := List.mem_map.mp hmicros
    exact hwords observation (List.mem_filter.mp hmem).1
  have hmax : (samplesOf id observations).max hne < 2 ^ 64 :=
    hword _ (List.max_mem hne)
  have hbounds : ∀ micros ∈ samplesOf id observations,
      (samplesOf id observations).min hne ≤ micros ∧
        micros ≤ (samplesOf id observations).max hne :=
    fun micros hmicros => ⟨List.min_le_of_mem hmicros,
      List.le_max_of_mem hmicros⟩
  generalize (samplesOf id observations).min hne = lo at *
  generalize (samplesOf id observations).max hne = hi at *
  have hbetween : lo ≤ mean ∧ mean ≤ hi := by
    rw [hmean]
    cases hsamples : samplesOf id observations with
    | nil => exact absurd hsamples hne
    | cons first rest =>
        rw [hsamples, List.forall_mem_cons] at hbounds
        exact foldl_foldLatency_between hmax hbounds.1 hbounds.2
  exact ⟨hbetween.1, hbetween.2, fun micros hmicros => by omega⟩

/-- A large sample and a smaller one, and one of another backend. -/
theorem mean_within_samples_of_two :
    let pool := new ["a".toList, "b".toList] .leastLoaded {}
    let mean :=
      (run observe pool [(0, 2 ^ 64 - 1), (1, 3), (0, 8)]).ewmaMicros 0
    8 ≤ mean ∧ mean ≤ 2 ^ 64 - 1 := by
  intro pool mean
  have hwithin := mean_within_samples pool 0 (by decide) (by decide)
    [(0, 2 ^ 64 - 1), (1, 3), (0, 8)] (by decide) (by decide)
  exact ⟨hwithin.1, hwithin.2.1⟩

end UpstreamPool

end Harmost.Upstream
