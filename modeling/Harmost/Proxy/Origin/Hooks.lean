import Harmost.Upstream.Shared

/-!
# A request at the origin

The hooks of the proxy that run while a request is at the origin: an upstream
is chosen for each attempt, the attempt takes a slot on its backend, one outcome
of it is reported to the breaker of that backend, and an error decides whether
there is another attempt.  The requests run at the same time, and the hooks of
one request may come in any order; only a new attempt waits to be asked for by
the last error.
-/

namespace Harmost.Proxy

open Harmost.Support
open Harmost.Http
open Harmost.Upstream
open Harmost.Upstream.Cut (ask)
open Harmost.Classifier (RequestClass)

/-- One origin request's occupancy of a backend. -/
structure InFlightGuard where
  id : ℕ
  probe : Option ProbeToken
  deriving DecidableEq

/-- What a request knows about its attempts. -/
structure OriginCtx where
  method : Method
  class' : RequestClass
  originSlot : Option InFlightGuard := none
  /-- A 32-bit count. -/
  attempts : ℕ := 0
  outcomeRecorded : Bool := false
  /-- Is the request to be sent upstream?  It is at first, and then as the last
  error says. -/
  retry : Bool := true
  deriving DecidableEq

/-- May an error be retried?  Some only where the connection was a reused
one. -/
inductive RetryType where
  | decided (retry : Bool)
  | reusedOnly
  deriving DecidableEq

def RetryType.decideReuse : RetryType → Bool → Bool
  | .decided retry, _ => retry
  | .reusedOnly, reused => reused

namespace Origin

/-- One outcome for each attempt: the first that is known. -/
def recordOriginOutcome (ctx : OriginCtx) (ok : Bool) :
    Prog Reply OriginCtx :=
  if ctx.outcomeRecorded then pure ctx
  else
    match ctx.originSlot with
    | none => pure ctx
    | some slot => do
        let nowMs : ℕ ← ask .nowMs
        let _ ← ask (.recordOutcome slot.id slot.probe nowMs ok)
        pure { ctx with outcomeRecorded := true }

def releaseOriginSlot (ctx : OriginCtx) : Prog Reply OriginCtx :=
  match ctx.originSlot with
  | none => pure ctx
  | some slot => do
      let _ ← ask (.leave slot.id)
      pure { ctx with originSlot := none }

variable (routing : Routing) (cfg : Config.Retry)

/-- May this request be sent upstream again, and is there budget for it? -/
def decideRetry (ctx : OriginCtx) : Prog Reply RetryDecision :=
  if !cfg.enabled then pure .ineligible
  else if eligible ctx.method ctx.class' then do
    let nowMs : ℕ ← ask .nowMs
    Cut.charge cfg nowMs ctx.attempts
  else pure .ineligible

/-- A new attempt at a backend that was selected. -/
def attempt (ctx : OriginCtx) (selected : SelectedBackend) :
    Prog Reply OriginCtx := do
  let ctx : OriginCtx :=
    { ctx with
      attempts := min (ctx.attempts + 1) (2 ^ 32 - 1)
      outcomeRecorded := false
      retry := false }
  let nowMs : ℕ ← ask .nowMs
  let _ ← ask (.recordAttempt nowMs)
  let ctx ← releaseOriginSlot ctx
  let _ ← ask (.enter selected.backend.id selected.probe)
  pure { ctx with originSlot := some ⟨selected.backend.id, selected.probe⟩ }

/-- Without an upstream the request fails, and is not retried. -/
def upstreamPeer (ctx : OriginCtx) (path : Str) : Prog Reply OriginCtx :=
  if ctx.retry then do
    let nowMs : ℕ ← ask .nowMs
    match ← Cut.selectAt routing path nowMs with
    | some selected => attempt ctx selected
    | none => pure { ctx with retry := false }
  else pure ctx

/-- The one error where a retry is turned on. -/
def failToConnect (ctx : OriginCtx) : Prog Reply OriginCtx := do
  let ctx ← recordOriginOutcome ctx false
  let decision ← decideRetry cfg ctx
  pure { ctx with retry := decision = .allowed }

/-- A retry is only ever turned off. -/
def errorWhileProxy (ctx : OriginCtx) (e : RetryType)
    (clientReused retryBufferTruncated : Bool) : Prog Reply OriginCtx := do
  let ctx ← recordOriginOutcome ctx false
  if e.decideReuse (clientReused && !retryBufferTruncated) then do
    let decision ← decideRetry cfg ctx
    pure { ctx with retry := decision = .allowed }
  else pure { ctx with retry := false }

/-- `StatusCode::is_server_error`. -/
def isServerError (status : ℕ) : Bool :=
  decide (500 ≤ status) && decide (status ≤ 599)

def upstreamResponseFilter (ctx : OriginCtx) (status micros : ℕ) :
    Prog Reply OriginCtx :=
  match ctx.originSlot with
  | some slot => do
      let _ ← ask (.observeLatency slot.id micros)
      recordOriginOutcome ctx !isServerError status
  | none => recordOriginOutcome ctx !isServerError status

/-- Past the deadline of the request the filter fails. -/
def upstreamResponseBodyFilter (ctx : OriginCtx) (late endOfStream : Bool) :
    Prog Reply OriginCtx :=
  if late then pure ctx
  else if endOfStream then releaseOriginSlot ctx
  else pure ctx

/-- The hooks, and what the health checks do meanwhile. -/
inductive Hook where
  | upstreamPeer (path : Str)
  | failToConnect
  | errorWhileProxy (e : RetryType) (clientReused retryBufferTruncated : Bool)
  | upstreamResponseFilter (status micros : ℕ)
  | upstreamResponseBodyFilter (late endOfStream : Bool)
  | logging
  | setHealthy (id : ℕ) (healthy : Bool)

def body : Hook → OriginCtx → Prog Reply OriginCtx
  | .upstreamPeer path, ctx => upstreamPeer routing ctx path
  | .failToConnect, ctx => failToConnect cfg ctx
  | .errorWhileProxy e clientReused retryBufferTruncated, ctx =>
      errorWhileProxy cfg ctx e clientReused retryBufferTruncated
  | .upstreamResponseFilter status micros, ctx =>
      upstreamResponseFilter ctx status micros
  | .upstreamResponseBodyFilter late endOfStream, ctx =>
      upstreamResponseBodyFilter ctx late endOfStream
  | .logging, ctx => releaseOriginSlot ctx
  | .setHealthy id healthy, ctx => do
      let _ ← ask (.setHealthy id healthy)
      pure ctx

/-- The requests of a process.  The clock is read as it stands. -/
def component :
    Component Reply Shared ℕ OriginCtx (Method × RequestClass) Hook where
  answer := fun shared query clock => some (shared.answer clock query)
  fresh := fun request => { method := request.1, class' := request.2 }
  body := body routing cfg

/-- A process that has just been started. -/
def start (addresses : List Str) (strategy : Config.LoadBalancing)
    (breaker : Config.Breaker) (cfg : Config.Retry) :
    World Reply Shared OriginCtx where
  object := ⟨.new addresses strategy breaker, .new cfg⟩

/-- The state after some moves of a process with these settings. -/
def after (addresses : List Str) (strategy : Config.LoadBalancing)
    (breaker : Config.Breaker) (cfg : Config.Retry)
    (moves : List (Move ℕ (Method × RequestClass) Hook)) :
    World Reply Shared OriginCtx :=
  run (component (UpstreamPool.new addresses strategy breaker).routing cfg).step
    (start addresses strategy breaker cfg) moves

end Origin

end Harmost.Proxy
