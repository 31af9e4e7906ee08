import Harmost.Support.Utf8
import Harmost.Upstream.Breaker

/-!
# The pool of upstreams

Which backend a request goes to.  Health is the outer filter, breakers are
consulted inside it, and the configured strategy picks among what is left; both
filters fall back to the larger set rather than to nothing.  The addresses a
backend resolves to do not take part in the choice and are left out.
-/

namespace Harmost.Upstream

open Harmost.Support
open Harmost.Config

/-- One configured upstream. -/
structure Backend where
  id : ℕ
  address : Str
  deriving DecidableEq

/-- What has been learned about one backend. -/
structure BackendState where
  /-- Set by health checking; no probe has passed at startup. -/
  healthy : Bool := false
  /-- Origin requests outstanding to this backend. -/
  inFlight : ℕ := 0
  /-- Mean time to first byte in microseconds; zero is nothing observed. -/
  ewmaMicros : ℕ := 0
  breaker : Breaker

structure UpstreamPool where
  backends : List Backend
  state : List BackendState
  strategy : LoadBalancing
  /-- A machine word that wraps. -/
  cursor : ℕ := 0
  /-- The most backends that may be ejected at once; zero if breaking is
  disabled. -/
  maxEjected : ℕ
  /-- A backend's id is its position. -/
  id_eq : ∀ (i : ℕ) (backend : Backend), backends[i]? = some backend →
    backend.id = i
  length_state : state.length = backends.length
  cursor_lt : cursor < 2 ^ 64
  enabled : 0 < maxEjected → ∀ s ∈ state, s.breaker.enabled = true

/-- A routing decision, and the token of the recovery probe if it is one. -/
structure SelectedBackend where
  backend : Backend
  probe : Option ProbeToken := none
  deriving DecidableEq

/-- The 64-bit FNV-1a hash. -/
def fnv1a (bytes : List UInt8) : ℕ :=
  bytes.foldl (fun hash b => (hash ^^^ b.toNat) * 0x1000_0000_01b3 % 2 ^ 64)
    0xcbf29ce484222325

namespace UpstreamPool

/-- The backends of a list of addresses, in order. -/
def enumerate (addresses : List Str) : List Backend :=
  addresses.mapIdx fun id address => ⟨id, address⟩

theorem id_eq_of_enumerate {addresses : List Str} {i : ℕ} {backend : Backend}
    (h : (enumerate addresses)[i]? = some backend) : backend.id = i := by
  rw [enumerate, List.getElem?_mapIdx] at h
  obtain ⟨address, -, rfl⟩ := Option.map_eq_some_iff.mp h
  rfl

/-- Every address has been resolved. -/
def new (addresses : List Str) (strategy : LoadBalancing)
    (breaker : Config.Breaker) : UpstreamPool where
  backends := enumerate addresses
  state := (enumerate addresses).map fun _ => { breaker := .new breaker }
  strategy := strategy
  maxEjected :=
    if breaker.enabled then
      min ((enumerate addresses).length * breaker.maxEjectedPercent)
        (2 ^ 64 - 1) / 100
    else 0
  id_eq := fun _ _ => id_eq_of_enumerate
  length_state := List.length_map _
  cursor_lt := Nat.two_pow_pos 64
  enabled := by
    intro hpos s hs
    obtain ⟨-, -, rfl⟩ := List.mem_map.mp hs
    split_ifs at hpos with henabled
    · exact henabled
    · exact absurd hpos (Nat.lt_irrefl 0)

variable (pool : UpstreamPool)

/-! ## What is known about a backend -/

def isHealthy (id : ℕ) : Bool :=
  pool.state[id]?.any BackendState.healthy

def breakerState (id : ℕ) : BreakerState :=
  (pool.state[id]?.map fun s => s.breaker.state).getD .closed

def inFlight (id : ℕ) : ℕ :=
  (pool.state[id]?.map BackendState.inFlight).getD 0

def ewmaMicros (id : ℕ) : ℕ :=
  (pool.state[id]?.map BackendState.ewmaMicros).getD 0

/-- Change what is known about one backend.  No change turns a breaker off. -/
def update (id : ℕ) (f : BackendState → BackendState)
    (hf : ∀ s, (f s).breaker.enabled = s.breaker.enabled) : UpstreamPool where
  backends := pool.backends
  state := pool.state.modify id f
  strategy := pool.strategy
  cursor := pool.cursor
  maxEjected := pool.maxEjected
  id_eq := pool.id_eq
  length_state := (List.length_modify _ _ _).trans pool.length_state
  cursor_lt := pool.cursor_lt
  enabled := by
    intro hpos s hs
    obtain ⟨i, hi⟩ := List.getElem?_of_mem hs
    rw [List.getElem?_modify] at hi
    obtain ⟨s', hs', rfl⟩ := Option.map_eq_some_iff.mp hi
    have henabled := pool.enabled hpos s' (List.mem_of_getElem? hs')
    split_ifs
    · rw [hf, henabled]
    · exact henabled

def setHealthy (id : ℕ) (healthy : Bool) : UpstreamPool :=
  pool.update id (fun s => { s with healthy }) fun _ => rfl

/-- One sample is folded into the mean with a weight of one eighth.  The first
sample is the mean. -/
def foldLatency (previous micros : ℕ) : ℕ :=
  if previous = 0 then micros
  else min (previous - previous / 8 + micros / 8) (2 ^ 64 - 1)

def observeLatency (id micros : ℕ) : UpstreamPool :=
  pool.update id
    (fun s => { s with ewmaMicros := foldLatency s.ewmaMicros micros })
    fun _ => rfl

/-- Claim a slot on a backend for as long as the origin works on it. -/
def enter (id : ℕ) : UpstreamPool :=
  pool.update id (fun s => { s with inFlight := (s.inFlight + 1) % 2 ^ 64 })
    fun _ => rfl

/-! ## Load -/

/-- Outstanding work against observed latency. -/
def score (id : ℕ) : ℕ :=
  min (min (pool.inFlight id + 1) (2 ^ 64 - 1) * max (pool.ewmaMicros id) 1)
    (2 ^ 64 - 1)

/-- One turn of the scan: a backend with a lower score takes over. -/
def consider (best : Option (Backend × ℕ)) (backend : Backend) :
    Option (Backend × ℕ) :=
  if best.all fun previous => decide (pool.score backend.id < previous.2) then
    some (backend, pool.score backend.id)
  else best

/-- The position that a step of the scan visits.  The sum of the offset and the
step is a machine word. -/
def position (candidates : List Backend) (step : ℕ) : ℕ :=
  (pool.cursor + step) % 2 ^ 64 % candidates.length

def scan (candidates : List Backend) (best : Option (Backend × ℕ))
    (step : ℕ) : Option (Backend × ℕ) :=
  match candidates[pool.position candidates step]? with
  | some backend => pool.consider best backend
  | none => best

/-- The backend with the least outstanding work, scanning from the cursor. -/
def leastLoaded (candidates : List Backend) : Option Backend :=
  ((List.range candidates.length).foldl (pool.scan candidates) none).map
    Prod.fst

/-! ## Selection -/

/-- `fetch_add` on the cursor. -/
def advance : UpstreamPool :=
  { pool with
    cursor := (pool.cursor + 1) % 2 ^ 64
    cursor_lt := Nat.mod_lt _ (Nat.two_pow_pos 64) }

/-- Apply the configured strategy to a set of candidates. -/
def pick (candidates : List Backend) (path : Str) :
    Option Backend × UpstreamPool :=
  if candidates.isEmpty then (none, pool)
  else
    match pool.strategy with
    | .roundRobin =>
        (candidates[pool.cursor % candidates.length]?, pool.advance)
    | .hashByPath => (candidates[fnv1a (utf8 path) % candidates.length]?, pool)
    | .leastLoaded => (pool.leastLoaded candidates, pool.advance)

/-- `pick`, for a request that is no probe. -/
def pickOrdinary (candidates : List Backend) (path : Str) :
    Option SelectedBackend × UpstreamPool :=
  ((pool.pick candidates path).1.map fun backend => { backend },
    (pool.pick candidates path).2)

/-- `Breaker::allowance` of one backend. -/
def allowance (id nowMs : ℕ) : UpstreamPool :=
  pool.update id
    (fun s => { s with breaker := (s.breaker.allowance nowMs).2 }) fun s => by
      simp only [Breaker.allowance]
      split_ifs <;> rfl

/-- The loop over the ejected backends: the first that is due is probed. -/
def spendProbe (pool : UpstreamPool) (nowMs : ℕ) :
    List Backend → Option SelectedBackend × UpstreamPool
  | [] => (none, pool)
  | backend :: rest =>
      match pool.state[backend.id]? with
      | none => pool.spendProbe nowMs rest
      | some s =>
          match (s.breaker.allowance nowMs).1 with
          | .probe token =>
              (some ⟨backend, some token⟩, pool.allowance backend.id nowMs)
          | .normal => (some ⟨backend, none⟩, pool.allowance backend.id nowMs)
          | .denied => (pool.allowance backend.id nowMs).spendProbe nowMs rest

/-- The backends that pass their health check. -/
def healthy : List Backend :=
  pool.backends.filter fun backend => pool.isHealthy backend.id

/-- The healthy backends whose breakers are open. -/
def ejected : List Backend :=
  pool.healthy.filter fun backend => pool.breakerState backend.id == .open

/-- The candidates whose breakers are closed. -/
def available (candidates : List Backend) : List Backend :=
  candidates.filter fun backend => pool.breakerState backend.id == .closed

/-- Pick a backend for this path. -/
def selectAt (path : Str) (nowMs : ℕ) :
    Option SelectedBackend × UpstreamPool :=
  if pool.backends.isEmpty then (none, pool)
  else if pool.healthy.isEmpty then
    pool.pickOrdinary pool.backends path
  else if pool.maxEjected = 0 then
    pool.pickOrdinary pool.healthy path
  else
    match pool.spendProbe nowMs pool.ejected with
    | (some selected, pool') => (some selected, pool')
    | (none, pool') =>
        if pool.maxEjected < pool.ejected.length then
          pool'.pickOrdinary pool.healthy path
        else if (pool'.available pool.healthy).isEmpty then
          pool'.pickOrdinary pool.healthy path
        else pool'.pickOrdinary (pool'.available pool.healthy) path

end UpstreamPool

end Harmost.Upstream
