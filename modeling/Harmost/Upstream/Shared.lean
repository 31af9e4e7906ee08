import Harmost.Classifier
import Harmost.Support.Threads
import Harmost.Upstream.Retry
import Harmost.Upstream.Selection
import Mathlib.Data.Nat.ModEq

/-!
# The pool and the budget, shared

Every request uses the one pool of upstreams and the one retry budget of the
process, and none of them waits for the others: a selection reads health flags,
breakers and counters one after the other, while other requests change them.
Here the methods are cut at their accesses.  Run alone they are the methods
they were.
-/

namespace Harmost.Upstream

open Harmost.Support
open Harmost.Http
open Harmost.Config
open Harmost.Classifier (RequestClass)

/-- One access to what requests share. -/
inductive Access where
  | nowMs
  | isHealthy (id : ℕ)
  | setHealthy (id : ℕ) (healthy : Bool)
  | breakerState (id : ℕ)
  /-- `Breaker::allowance` of one backend. -/
  | allowance (id nowMs : ℕ)
  /-- `fetch_add` on the cursor. -/
  | nextCursor
  | inFlight (id : ℕ)
  | ewmaMicros (id : ℕ)
  /-- `enter_attempt`, which makes a guard. -/
  | enter (id : ℕ) (probe : Option ProbeToken)
  /-- The drop of a guard. -/
  | leave (id : ℕ)
  | observeLatency (id micros : ℕ)
  | recordOutcome (id : ℕ) (probe : Option ProbeToken) (nowMs : ℕ) (ok : Bool)
  | recordAttempt (nowMs : ℕ)
  /-- The increment of `flag`. -/
  | mark (nowMs : ℕ)
  /-- How `flag` reads the window. -/
  | spent (nowMs : ℕ)
  | retryAllowance (nowMs : ℕ)
  | unflag (nowMs : ℕ)
  deriving DecidableEq

/-- What an access returns. -/
abbrev Reply : Access → Type
  | .nowMs | .nextCursor | .inFlight _ | .ewmaMicros _ => ℕ
  | .spent _ | .retryAllowance _ => ℕ
  | .isHealthy _ => Bool
  | .breakerState _ => BreakerState
  | .allowance _ _ => Option BreakerAllowance
  | _ => Unit

namespace Breaker

theorem enabled_step (breaker : Breaker) (call : Call) :
    (breaker.step call).enabled = breaker.enabled := by
  have htransition := transition_step breaker call
  generalize breaker.step call = after at htransition
  cases htransition <;> rfl

end Breaker

namespace UpstreamPool

variable (pool : UpstreamPool)

/-- The drop of an in-flight guard: `fetch_sub` on the counter. -/
def leave (id : ℕ) : UpstreamPool :=
  pool.update id
    (fun s => { s with inFlight := (s.inFlight + (2 ^ 64 - 1)) % 2 ^ 64 })
    fun _ => rfl

/-- The call of a breaker that reports an outcome. -/
def outcome (probe : Option ProbeToken) (nowMs : ℕ) (ok : Bool) :
    Breaker.Call :=
  match probe with
  | some token => .recordProbe nowMs token ok
  | none => .record nowMs ok

/-- Record how one origin request ended. -/
def recordOutcome (id : ℕ) (probe : Option ProbeToken) (nowMs : ℕ)
    (ok : Bool) : UpstreamPool :=
  pool.update id
    (fun s => { s with breaker := s.breaker.step (outcome probe nowMs ok) })
    fun s => s.breaker.enabled_step _

end UpstreamPool

/-- What all requests of the process use. -/
structure Shared where
  upstreams : UpstreamPool
  retry : RetryBudget

namespace Shared

variable (shared : Shared)

def withPool (upstreams : UpstreamPool) : Shared :=
  { shared with upstreams }

@[simp] theorem upstreams_withPool (upstreams : UpstreamPool) :
    (shared.withPool upstreams).upstreams = upstreams :=
  rfl

/-- With the result and the pool of a method. -/
def after {α : Type} (result : α × UpstreamPool) : α × Shared :=
  (result.1, shared.withPool result.2)

def withWindow (window : RollingRatio) : Shared :=
  { shared with retry := shared.retry.setWindow window }

/-- One access, at a reading of the clock. -/
def answer (clock : ℕ) (shared : Shared) :
    (query : Access) → Reply query × Shared
  | .nowMs => (clock, shared)
  | .isHealthy id => (shared.upstreams.isHealthy id, shared)
  | .setHealthy id healthy =>
      ((), shared.withPool (shared.upstreams.setHealthy id healthy))
  | .breakerState id => (shared.upstreams.breakerState id, shared)
  | .allowance id nowMs =>
      (shared.upstreams.state[id]?.map fun s => (s.breaker.allowance nowMs).1,
        shared.withPool (shared.upstreams.allowance id nowMs))
  | .nextCursor =>
      (shared.upstreams.cursor, shared.withPool shared.upstreams.advance)
  | .inFlight id => (shared.upstreams.inFlight id, shared)
  | .ewmaMicros id => (shared.upstreams.ewmaMicros id, shared)
  | .enter id _ => ((), shared.withPool (shared.upstreams.enter id))
  | .leave id => ((), shared.withPool (shared.upstreams.leave id))
  | .observeLatency id micros =>
      ((), shared.withPool (shared.upstreams.observeLatency id micros))
  | .recordOutcome id probe nowMs ok =>
      ((), shared.withPool (shared.upstreams.recordOutcome id probe nowMs ok))
  | .recordAttempt nowMs =>
      ((), { shared with retry := shared.retry.recordAttempt nowMs })
  | .mark nowMs => ((), shared.withWindow (shared.retry.window.mark nowMs))
  | .spent nowMs => ((shared.retry.window.totals nowMs).2, shared)
  | .retryAllowance nowMs => (shared.retry.allowance nowMs, shared)
  | .unflag nowMs => ((), shared.withWindow (shared.retry.window.unflag nowMs))

end Shared

/-! ## What an access changes -/

/-- What an access does to what is known about a backend. -/
def effect (id : ℕ) (s : BackendState) : Access → BackendState
  | .setHealthy other healthy => if other = id then { s with healthy } else s
  | .allowance other nowMs =>
      if other = id then
        { s with breaker := s.breaker.step (.allowance nowMs) }
      else s
  | .enter other _ =>
      if other = id then { s with inFlight := (s.inFlight + 1) % 2 ^ 64 }
      else s
  | .leave other =>
      if other = id then
        { s with inFlight := (s.inFlight + (2 ^ 64 - 1)) % 2 ^ 64 }
      else s
  | .observeLatency other micros =>
      if other = id then
        { s with ewmaMicros := UpstreamPool.foldLatency s.ewmaMicros micros }
      else s
  | .recordOutcome other probe nowMs ok =>
      if other = id then
        { s with
          breaker := s.breaker.step (UpstreamPool.outcome probe nowMs ok) }
      else s
  | _ => s

namespace Shared

variable {shared : Shared} {clock : ℕ} {query : Access}

theorem getElem?_answer (id : ℕ) :
    (shared.answer clock query).2.upstreams.state[id]? =
      shared.upstreams.state[id]?.map fun s => effect id s query := by
  cases query with
  | setHealthy | allowance | enter | leave | observeLatency | recordOutcome =>
      exact List.getElem?_modify ..
  | _ => exact Option.map_id'.symm

variable {answer : Reply query} {after : Shared}

theorem length_state_of_answer
    (hanswer : shared.answer clock query = (answer, after)) :
    after.upstreams.state.length = shared.upstreams.state.length := by
  obtain rfl : (shared.answer clock query).2 = after := by rw [hanswer]
  cases query with
  | setHealthy | allowance | enter | leave | observeLatency | recordOutcome =>
      exact List.length_modify ..
  | _ => rfl

theorem exists_effect (hanswer : shared.answer clock query = (answer, after))
    {id : ℕ} {s : BackendState} (hs : after.upstreams.state[id]? = some s) :
    ∃ before, shared.upstreams.state[id]? = some before ∧
      effect id before query = s := by
  obtain rfl : (shared.answer clock query).2 = after := by rw [hanswer]
  rw [getElem?_answer] at hs
  exact Option.map_eq_some_iff.mp hs

end Shared

/-- A slot that an access takes on a backend, as a number. -/
def taken (id : ℕ) : Access → ℕ
  | .enter other _ => if other = id then 1 else 0
  | _ => 0

/-- A slot that an access gives back. -/
def given (id : ℕ) : Access → ℕ
  | .leave other => if other = id then 1 else 0
  | _ => 0

/-- Only entering and leaving move the counter of a backend, which wraps. -/
theorem inFlight_effect (id : ℕ) (s : BackendState) (query : Access) :
    (effect id s query).inFlight + given id query ≡
      s.inFlight + taken id query [MOD 2 ^ 64] := by
  cases query with
  | enter other probe =>
      simp only [effect, given, taken, Nat.add_zero]
      split
      · exact Nat.mod_modEq _ _
      · exact Nat.ModEq.refl _
  | leave other =>
      simp only [effect, given, taken]
      split
      · have hwrap : s.inFlight + (2 ^ 64 - 1) + 1 = s.inFlight + 2 ^ 64 := by
          omega
        refine ((Nat.mod_modEq _ _).add_right 1).trans ?_
        rw [hwrap]
        exact Nat.add_modEq_right
      · exact Nat.ModEq.refl _
  | setHealthy | allowance | observeLatency | recordOutcome =>
      rw [effect]
      split <;> exact Nat.ModEq.refl _
  | _ => exact Nat.ModEq.refl _

theorem inFlight_effect_lt {s : BackendState} (h : s.inFlight < 2 ^ 64)
    (id : ℕ) (query : Access) : (effect id s query).inFlight < 2 ^ 64 := by
  have hmod : ∀ m, m % 2 ^ 64 < 2 ^ 64 :=
    fun m => Nat.mod_lt m (Nat.two_pow_pos 64)
  cases query with
  | enter | leave =>
      rw [effect]
      split
      · exact hmod _
      · exact h
  | setHealthy | allowance | observeLatency | recordOutcome =>
      rw [effect]
      split <;> exact h
  | _ => exact h

/-- The last token that a backend's breaker has handed out. -/
def UpstreamPool.nextProbe (pool : UpstreamPool) (id : ℕ) : ℕ :=
  (pool.state[id]?.map fun s => s.breaker.nextProbe).getD 0

namespace Breaker

theorem nextProbe_step (breaker : Breaker) (call : Call) :
    (breaker.step call).nextProbe =
      if (breaker.granted call).isSome then breaker.nextProbe + 1
      else breaker.nextProbe := by
  have htransition := transition_step breaker call
  generalize breaker.step call = after at htransition
  cases htransition with
  | idle hgrant | probe _ _ hgrant => rw [hgrant]; rfl
  | observe | trip | recover | rearm => rfl

theorem nextProbe_le_step (breaker : Breaker) (call : Call) :
    breaker.nextProbe ≤ (breaker.step call).nextProbe := by
  rw [nextProbe_step]
  split
  · exact Nat.le_succ _
  · exact le_rfl

/-- A breaker hands out the number after its last. -/
theorem allowance_eq_probe {breaker : Breaker} {nowMs : ℕ}
    {token : ProbeToken} (h : (breaker.allowance nowMs).1 = .probe token) :
    token.value = breaker.nextProbe + 1 ∧
      (breaker.step (.allowance nowMs)).nextProbe = token.value := by
  rw [step]
  unfold allowance at h ⊢
  split_ifs at h ⊢
  obtain rfl := BreakerAllowance.probe.inj h
  exact ⟨rfl, rfl⟩

end Breaker

theorem nextProbe_le_effect (id : ℕ) (s : BackendState) (query : Access) :
    s.breaker.nextProbe ≤ (effect id s query).breaker.nextProbe := by
  cases query with
  | allowance | recordOutcome =>
      rw [effect]
      split
      · exact s.breaker.nextProbe_le_step _
      · exact le_rfl
  | setHealthy | enter | leave | observeLatency =>
      rw [effect]
      split <;> exact le_rfl
  | _ => exact le_rfl

namespace Shared

variable {shared : Shared} {clock : ℕ} {query : Access}

variable {answer : Reply query} {after : Shared}

/-- No access takes a token back. -/
theorem nextProbe_le_of_answer
    (hanswer : shared.answer clock query = (answer, after)) (id : ℕ) :
    shared.upstreams.nextProbe id ≤ after.upstreams.nextProbe id := by
  obtain rfl : (shared.answer clock query).2 = after := by rw [hanswer]
  rw [UpstreamPool.nextProbe, UpstreamPool.nextProbe, getElem?_answer]
  cases shared.upstreams.state[id]? with
  | none => exact le_rfl
  | some s => exact nextProbe_le_effect id s query

theorem nextProbe_of_probe {id nowMs : ℕ} {token : ProbeToken}
    (hanswer : shared.answer clock (.allowance id nowMs) =
      (some (.probe token), after)) :
    token.value = shared.upstreams.nextProbe id + 1 ∧
      after.upstreams.nextProbe id = token.value := by
  have hprobe : (shared.answer clock (.allowance id nowMs)).1 =
      some (.probe token) := by rw [hanswer]
  obtain rfl : (shared.answer clock (.allowance id nowMs)).2 = after := by
    rw [hanswer]
  obtain ⟨s, hs, htoken⟩ := Option.map_eq_some_iff.mp hprobe
  have heffect : effect id s (.allowance id nowMs) =
      { s with breaker := s.breaker.step (.allowance nowMs) } := if_pos rfl
  rw [UpstreamPool.nextProbe, UpstreamPool.nextProbe, getElem?_answer, hs,
    Option.map_some, Option.map_some, heffect]
  exact Breaker.allowance_eq_probe htoken

end Shared

/-! ## The methods, cut at their accesses -/

/-- Is this request one that may be sent to the origin a second time? -/
def eligible (method : Method) (class' : RequestClass) : Bool :=
  (match method with
    | .get | .head | .options | .trace => true
    | _ => false) &&
  (match class' with
    | .mutation | .streaming | .upgrade => false
    | _ => true)

/-- What of a pool never changes. -/
structure Routing where
  backends : List Backend
  strategy : LoadBalancing
  maxEjected : ℕ

def UpstreamPool.routing (pool : UpstreamPool) : Routing where
  backends := pool.backends
  strategy := pool.strategy
  maxEjected := pool.maxEjected

namespace Cut

abbrev ask (query : Access) : Prog Reply (Reply query) :=
  Prog.ask query

/-- `UpstreamPool::score`. -/
def score (id : ℕ) : Prog Reply ℕ := do
  let inFlight : ℕ ← ask (.inFlight id)
  let ewmaMicros : ℕ ← ask (.ewmaMicros id)
  pure (min (min (inFlight + 1) (2 ^ 64 - 1) * max ewmaMicros 1) (2 ^ 64 - 1))

def consider (best : Option (Backend × ℕ)) (backend : Backend) :
    Prog Reply (Option (Backend × ℕ)) := do
  let score ← score backend.id
  pure (if best.all fun previous => decide (score < previous.2) then
      some (backend, score)
    else best)

/-- The loop of `least_loaded`. -/
def scan (candidates : List Backend) (offset : ℕ)
    (best : Option (Backend × ℕ)) : List ℕ → Prog Reply (Option (Backend × ℕ))
  | [] => pure best
  | step :: steps =>
      match candidates[(offset + step) % 2 ^ 64 % candidates.length]? with
      | some backend => do
          let best ← consider best backend
          scan candidates offset best steps
      | none => scan candidates offset best steps

def leastLoaded (candidates : List Backend) : Prog Reply (Option Backend) := do
  let offset : ℕ ← ask .nextCursor
  let best ← scan candidates offset none (List.range candidates.length)
  pure (best.map Prod.fst)

variable (routing : Routing)

def pick (candidates : List Backend) (path : Str) :
    Prog Reply (Option Backend) :=
  if candidates.isEmpty then pure none
  else
    match routing.strategy with
    | .roundRobin => do
        let cursor : ℕ ← ask .nextCursor
        pure candidates[cursor % candidates.length]?
    | .hashByPath => pure candidates[fnv1a (utf8 path) % candidates.length]?
    | .leastLoaded => leastLoaded candidates

def pickOrdinary (candidates : List Backend) (path : Str) :
    Prog Reply (Option SelectedBackend) := do
  let backend ← pick routing candidates path
  pure (backend.map fun backend => { backend })

/-- The loop over the ejected backends.  A breaker that closed since they were
listed is used at once. -/
def spendProbe (nowMs : ℕ) :
    List Backend → Prog Reply (Option SelectedBackend)
  | [] => pure none
  | backend :: rest => do
      let allowance : Option BreakerAllowance ←
        ask (.allowance backend.id nowMs)
      match allowance with
      | some (.probe token) => pure (some ⟨backend, some token⟩)
      | some .normal => pure (some ⟨backend, none⟩)
      | some .denied | none => spendProbe nowMs rest

/-- The backends whose breakers are in a state. -/
def withBreaker (state : BreakerState) (candidates : List Backend) :
    Prog Reply (List Backend) :=
  Prog.filter (fun backend => do
    let found : BreakerState ← ask (.breakerState backend.id)
    pure (found == state)) candidates

def healthy : Prog Reply (List Backend) :=
  Prog.filter (fun backend => ask (.isHealthy backend.id)) routing.backends

def selectAt (path : Str) (nowMs : ℕ) :
    Prog Reply (Option SelectedBackend) :=
  if routing.backends.isEmpty then pure none
  else do
    let healthy ← healthy routing
    if healthy.isEmpty then pickOrdinary routing routing.backends path
    else if routing.maxEjected = 0 then pickOrdinary routing healthy path
    else do
      let ejected ← withBreaker .open healthy
      match ← spendProbe nowMs ejected with
      | some selected => pure (some selected)
      | none =>
          if routing.maxEjected < ejected.length then
            pickOrdinary routing healthy path
          else do
            let available ← withBreaker .closed healthy
            if available.isEmpty then pickOrdinary routing healthy path
            else pickOrdinary routing available path

/-- The end of `charge`: a flag that does not fit is given back. -/
def settle (nowMs spent allowance : ℕ) : Prog Reply RetryDecision :=
  if allowance < spent then do
    let _ ← ask (.unflag nowMs)
    pure .budgetExhausted
  else pure .allowed

/-- `RetryBudget::charge`. -/
def charge (cfg : Config.Retry) (nowMs attemptsUsed : ℕ) :
    Prog Reply RetryDecision :=
  if !cfg.enabled then pure .ineligible
  else if cfg.maxAttempts ≤ attemptsUsed then pure .attemptsExhausted
  else do
    let _ ← ask (.mark nowMs)
    let spent : ℕ ← ask (.spent nowMs)
    let allowance : ℕ ← ask (.retryAllowance nowMs)
    settle nowMs spent allowance

/-! ## Run alone -/

variable {routing} {clock : ℕ} {shared : Shared} {candidates : List Backend}

theorem alone_score (id : ℕ) :
    (score id).alone (Shared.answer clock) shared =
      (shared.upstreams.score id, shared) := by
  simp only [score, Prog.alone_bind, Prog.alone_ask, Prog.alone_pure,
    Shared.answer, UpstreamPool.score]

theorem alone_consider (best : Option (Backend × ℕ)) (backend : Backend) :
    (consider best backend).alone (Shared.answer clock) shared =
      (shared.upstreams.consider best backend, shared) := by
  rw [consider, Prog.alone_bind, alone_score]
  rfl

theorem alone_scan (pool : UpstreamPool)
    (hconsider : shared.upstreams.consider = pool.consider)
    (best : Option (Backend × ℕ)) (steps : List ℕ) :
    (scan candidates pool.cursor best steps).alone (Shared.answer clock)
        shared =
      (steps.foldl (pool.scan candidates) best, shared) := by
  induction steps generalizing best with
  | nil => rfl
  | cons step steps ih =>
      rw [List.foldl_cons, scan, UpstreamPool.scan, UpstreamPool.position]
      cases candidates[(pool.cursor + step) % 2 ^ 64 % candidates.length]? with
      | some backend =>
          dsimp only
          rw [Prog.alone_bind, alone_consider, hconsider]
          exact ih _
      | none => exact ih best

theorem alone_pick (candidates : List Backend) (path : Str) :
    (pick shared.upstreams.routing candidates path).alone (Shared.answer clock)
        shared =
      shared.after (shared.upstreams.pick candidates path) := by
  rw [pick, UpstreamPool.pick]
  split
  · rfl
  · rw [UpstreamPool.routing]
    cases shared.upstreams.strategy with
    | roundRobin | hashByPath => rfl
    | leastLoaded =>
        dsimp only
        rw [leastLoaded, Prog.alone_bind, Prog.alone_ask, Shared.answer,
          Prog.alone_bind]
        have hconsider : (shared.withPool
            shared.upstreams.advance).upstreams.consider =
              shared.upstreams.consider := rfl
        dsimp only
        rw [alone_scan shared.upstreams hconsider]
        rfl

theorem alone_pickOrdinary (shared : Shared) (candidates : List Backend)
    (path : Str) :
    (pickOrdinary shared.upstreams.routing candidates path).alone
        (Shared.answer clock) shared =
      shared.after (shared.upstreams.pickOrdinary candidates path) := by
  rw [pickOrdinary, Prog.alone_bind, alone_pick]
  rfl

theorem alone_spendProbe (nowMs : ℕ) (backends : List Backend) :
    (spendProbe nowMs backends).alone (Shared.answer clock) shared =
      shared.after (shared.upstreams.spendProbe nowMs backends) := by
  induction backends generalizing shared with
  | nil => rfl
  | cons backend rest ih =>
      rw [spendProbe, Prog.alone_bind, Prog.alone_ask, Shared.answer,
        UpstreamPool.spendProbe]
      dsimp only
      cases hs : shared.upstreams.state[backend.id]? with
      | none =>
          have hsame : shared.upstreams.allowance backend.id nowMs =
              shared.upstreams :=
            UpstreamPool.update_eq_self _ fun s h => by simp [hs] at h
          rw [hsame]
          exact ih
      | some s =>
          dsimp only [Option.map_some]
          cases (s.breaker.allowance nowMs).1 with
          | probe | normal => rfl
          | denied => exact ih

/-- A test that changes nothing filters as the list does. -/
theorem alone_filter {α : Type} {test : α → Prog Reply Bool} {p : α → Bool}
    (htest : ∀ a, (test a).alone (Shared.answer clock) shared = (p a, shared))
    (l : List α) :
    (Prog.filter test l).alone (Shared.answer clock) shared =
      (l.filter p, shared) := by
  induction l with
  | nil => rfl
  | cons a rest ih =>
      rw [Prog.filter, Prog.alone_bind, htest, Prog.alone_bind, ih]
      cases hp : p a with
      | true => rw [List.filter_cons_of_pos hp]; rfl
      | false => rw [List.filter_cons_of_neg (by simp [hp])]; rfl

theorem alone_healthy :
    (healthy shared.upstreams.routing).alone (Shared.answer clock) shared =
      (shared.upstreams.healthy, shared) :=
  alone_filter (fun _ => rfl) _

theorem alone_withBreaker (state : BreakerState) :
    (withBreaker state candidates).alone (Shared.answer clock) shared =
      (candidates.filter fun backend =>
        shared.upstreams.breakerState backend.id == state, shared) :=
  alone_filter (fun _ => rfl) _

theorem routing_spendProbe (pool : UpstreamPool) (nowMs : ℕ)
    (backends : List Backend) :
    (pool.spendProbe nowMs backends).2.routing = pool.routing := by
  induction backends generalizing pool with
  | nil => rfl
  | cons backend rest ih =>
      rw [UpstreamPool.spendProbe]
      split
      · exact ih pool
      · split
        · rfl
        · rfl
        · exact ih (pool.allowance backend.id nowMs)

/-- Nobody else at work, the accesses add up to `select_at`. -/
theorem alone_selectAt (path : Str) (nowMs : ℕ) :
    (selectAt shared.upstreams.routing path nowMs).alone (Shared.answer clock)
        shared =
      shared.after (shared.upstreams.selectAt path nowMs) := by
  have hbackends : shared.upstreams.routing.backends =
      shared.upstreams.backends := rfl
  have hmax : shared.upstreams.routing.maxEjected =
      shared.upstreams.maxEjected := rfl
  rw [selectAt, UpstreamPool.selectAt, hbackends, hmax]
  split
  · rfl
  rw [Prog.alone_bind, alone_healthy]
  dsimp only
  split
  · exact alone_pickOrdinary shared _ path
  split
  · exact alone_pickOrdinary shared _ path
  rw [Prog.alone_bind, alone_withBreaker, Prog.alone_bind, alone_spendProbe,
    Shared.after]
  have hejected : (shared.upstreams.healthy.filter fun backend =>
      shared.upstreams.breakerState backend.id == .open) =
        shared.upstreams.ejected := rfl
  have hrouting :=
    routing_spendProbe shared.upstreams nowMs shared.upstreams.ejected
  dsimp only
  rw [hejected]
  generalize shared.upstreams.spendProbe nowMs shared.upstreams.ejected =
    spent at hrouting
  obtain ⟨selected, pool⟩ := spent
  rw [← hrouting]
  cases selected with
  | some selected => rfl
  | none =>
      dsimp only
      split
      · exact alone_pickOrdinary (shared.withPool pool) _ path
      rw [Prog.alone_bind, alone_withBreaker, Shared.upstreams_withPool,
        UpstreamPool.available]
      dsimp only
      split <;> exact alone_pickOrdinary (shared.withPool pool) _ path

theorem alone_settle (shared : Shared) (nowMs spent allowance : ℕ) :
    (settle nowMs spent allowance).alone (Shared.answer clock) shared =
      if allowance < spent then
        (.budgetExhausted,
          shared.withWindow (shared.retry.window.unflag nowMs))
      else (.allowed, shared) := by
  rw [settle]
  split
  · rfl
  · rfl

/-- Nobody else at work, the accesses add up to `charge`. -/
theorem alone_charge {cfg : Config.Retry}
    (henabled : shared.retry.enabled = cfg.enabled)
    (hmax : shared.retry.maxAttempts = cfg.maxAttempts)
    (nowMs attemptsUsed : ℕ) :
    (charge cfg nowMs attemptsUsed).alone (Shared.answer clock) shared =
      ((shared.retry.charge nowMs attemptsUsed).2,
        { shared with
          retry := (shared.retry.charge nowMs attemptsUsed).1 }) := by
  rw [charge, RetryBudget.charge, henabled, hmax]
  split
  · rfl
  split
  · rfl
  rw [RollingRatio.flag]
  simp only [Prog.alone_bind, Prog.alone_ask, Shared.answer, alone_settle,
    Shared.withWindow, RetryBudget.window_setWindow]
  by_cases hover : (shared.retry.setWindow
      (shared.retry.window.mark nowMs)).allowance nowMs <
        ((shared.retry.window.mark nowMs).totals nowMs).2
  · simp only [if_pos hover, RetryBudget.setWindow_setWindow]
  · simp only [if_neg hover]

end Cut

end Harmost.Upstream
