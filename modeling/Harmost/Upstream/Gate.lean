import Harmost.Support.Threads
import Harmost.Upstream.Breaker

/-!
# The breaker, one access at a time

On the path of a request a breaker reads one atomic deadline.  Only when the
deadline has passed, and when a probe reports, is there a lock, and a failure
over the threshold opens the breaker with a compare-and-swap outside of it.
Here the methods are cut at these accesses, so that calls of any number of
threads can interleave between them.

The window of outcomes is not locked and only feeds a threshold.  What it
returns is left open.  Accesses take effect one after the other; the orderings
that the source asks of its atomics are not part of the model.
-/

namespace Harmost.Upstream

open Harmost.Support

/-- The part of a breaker that its calls decide on. -/
structure Gate where
  openUntilMs : ℕ := 0
  /-- A counter of 64 bits, as is `trips`; see `counters_after_lt`. -/
  nextProbe : ℕ := 0
  activeProbe : ℕ := 0
  trips : ℕ := 0
  /-- Is the lock of the transitions held? -/
  locked : Bool := false

namespace Gate

/-- One access.  A call begins with saying which one it is. -/
inductive Access where
  | invoke (call : Breaker.Call)
  | lock
  | unlock
  | loadUntil
  | storeUntil (deadline : ℕ)
  /-- `compare_exchange` of the deadline of a closed breaker. -/
  | openUntil (deadline : ℕ)
  | nextProbe
  | loadActive
  | storeActive (token : ℕ)
  | trip
  | windowRecord (nowMs : ℕ) (failed : Bool)
  | windowTotals (nowMs : ℕ)
  | windowReset

abbrev Reply : Access → Type
  | .loadUntil | .nextProbe | .loadActive => ℕ
  | .openUntil _ => Bool
  | .windowTotals _ => ℕ × ℕ
  | _ => Unit

abbrev ask (query : Access) : Prog Reply (Reply query) :=
  Prog.ask query

/-- `totals` is what the window returns. -/
def answer (s : Gate) :
    (query : Access) → ℕ × ℕ → Option (Reply query × Gate)
  | .invoke _, _ => some ((), s)
  | .lock, _ => if s.locked then none else some ((), { s with locked := true })
  | .unlock, _ => some ((), { s with locked := false })
  | .loadUntil, _ => some (s.openUntilMs, s)
  | .storeUntil deadline, _ => some ((), { s with openUntilMs := deadline })
  | .openUntil deadline, _ =>
      if s.openUntilMs = 0 then
        some (true, { s with openUntilMs := deadline })
      else some (false, s)
  | .nextProbe, _ => some (s.nextProbe, { s with nextProbe := s.nextProbe + 1 })
  | .loadActive, _ => some (s.activeProbe, s)
  | .storeActive token, _ => some ((), { s with activeProbe := token })
  | .trip, _ => some ((), { s with trips := s.trips + 1 })
  | .windowRecord _ _, _ => some ((), s)
  | .windowTotals _, totals => some (totals, s)
  | .windowReset, _ => some ((), s)

theorem answer_lock_eq_some {s s' : Gate} {outside : ℕ × ℕ} {reply : Unit}
    (h : answer s .lock outside = some (reply, s')) :
    s.locked = false ∧ s' = { s with locked := true } := by
  simp only [answer] at h
  split_ifs at h with hlocked
  cases h
  exact ⟨Bool.eq_false_iff.mpr hlocked, rfl⟩

/-- The swap succeeds on a closed breaker only. -/
theorem answer_openUntil_eq_some {s s' : Gate} {outside : ℕ × ℕ}
    {deadline : ℕ} {reply : Bool}
    (h : answer s (.openUntil deadline) outside = some (reply, s')) :
    (s.openUntilMs = 0 ∧ reply = true ∧
        s' = { s with openUntilMs := deadline }) ∨
      (reply = false ∧ s' = s) := by
  simp only [answer] at h
  split_ifs at h with hclosed
  · cases h
    exact .inl ⟨hclosed, rfl, rfl⟩
  · cases h
    exact .inr ⟨rfl, rfl⟩

/-! ## The methods -/

variable (breaker : Breaker)

/-- Assign the probe, under the lock. -/
def claim (nowMs : ℕ) : Prog Reply BreakerAllowance := do
  let _ ← ask (.storeUntil (breaker.deadline nowMs))
  let probe : ℕ ← ask .nextProbe
  let _ ← ask (.storeActive (probe + 1))
  pure (.probe ⟨probe + 1⟩)

/-- What a deadline says: the answer, unless it has passed. -/
def verdict (nowMs deadline : ℕ) : Option BreakerAllowance :=
  if deadline = 0 then some .normal
  else if nowMs < deadline then some .denied
  else none

/-- The second look at the deadline, under the lock. -/
def secondLook (nowMs : ℕ) : Prog Reply BreakerAllowance := do
  let deadline : ℕ ← ask .loadUntil
  match verdict nowMs deadline with
  | some allowance => pure allowance
  | none => claim breaker nowMs

def allowanceLocked (nowMs : ℕ) : Prog Reply BreakerAllowance := do
  let _ ← ask .lock
  let allowance ← secondLook breaker nowMs
  let _ ← ask .unlock
  pure allowance

def allowanceEnabled (nowMs : ℕ) : Prog Reply BreakerAllowance := do
  let deadline : ℕ ← ask .loadUntil
  match verdict nowMs deadline with
  | some allowance => pure allowance
  | none => allowanceLocked breaker nowMs

def allowance (nowMs : ℕ) : Prog Reply BreakerAllowance := do
  let _ ← ask (.invoke (.allowance nowMs))
  if !breaker.enabled then pure .normal else allowanceEnabled breaker nowMs

/-- Is a window over the threshold? -/
def overThreshold (totals : ℕ × ℕ) : Bool :=
  decide (breaker.minRequests ≤ totals.1) &&
    decide (totals.1 * breaker.failurePercent ≤ totals.2 * 100)

def openIfClosed (nowMs : ℕ) : Prog Reply Unit := do
  let swapped : Bool ← ask (.openUntil (breaker.deadline nowMs))
  if swapped then do
    let _ ← ask .trip
    ask .windowReset
  else pure ()

def tripIfOverThreshold (nowMs : ℕ) : Prog Reply Unit := do
  let totals : ℕ × ℕ ← ask (.windowTotals nowMs)
  if overThreshold breaker totals then openIfClosed breaker nowMs else pure ()

def observe (nowMs : ℕ) (ok : Bool) : Prog Reply Unit := do
  let _ ← ask (.windowRecord nowMs !ok)
  if ok then pure () else tripIfOverThreshold breaker nowMs

def recordEnabled (nowMs : ℕ) (ok : Bool) : Prog Reply Unit := do
  let deadline : ℕ ← ask .loadUntil
  if deadline ≠ 0 then pure () else observe breaker nowMs ok

def record (nowMs : ℕ) (ok : Bool) : Prog Reply Unit := do
  let _ ← ask (.invoke (.record nowMs ok))
  if !breaker.enabled then pure () else recordEnabled breaker nowMs ok

/-- The result of the probe that decides, under the lock. -/
def settle (nowMs : ℕ) (ok : Bool) : Prog Reply Unit := do
  let _ ← ask (.storeActive 0)
  if ok then do
    let _ ← ask .windowReset
    ask (.storeUntil 0)
  else ask (.storeUntil (breaker.deadline nowMs))

def settleIfActive (nowMs : ℕ) (token : ProbeToken) (ok : Bool) :
    Prog Reply Unit := do
  let active : ℕ ← ask .loadActive
  if active ≠ token.value then pure () else settle breaker nowMs ok

def recordProbeEnabled (nowMs : ℕ) (token : ProbeToken) (ok : Bool) :
    Prog Reply Unit := do
  let _ ← ask .lock
  let _ ← settleIfActive breaker nowMs token ok
  ask .unlock

def recordProbe (nowMs : ℕ) (token : ProbeToken) (ok : Bool) :
    Prog Reply Unit := do
  let _ ← ask (.invoke (.recordProbe nowMs token ok))
  if !breaker.enabled then pure ()
  else recordProbeEnabled breaker nowMs token ok

/-- What a call returned; only an allowance returns something. -/
abbrev Answer := Option BreakerAllowance

/-- A thread keeps its calls and their answers, the latest first. -/
def body : Breaker.Call → List (Breaker.Call × Answer) →
    Prog Reply (List (Breaker.Call × Answer))
  | .allowance nowMs, results => do
      let answer ← allowance breaker nowMs
      pure ((.allowance nowMs, some answer) :: results)
  | .record nowMs ok, results => do
      let _ ← record breaker nowMs ok
      pure ((.record nowMs ok, none) :: results)
  | .recordProbe nowMs token ok, results => do
      let _ ← recordProbe breaker nowMs token ok
      pure ((.recordProbe nowMs token ok, none) :: results)

def component : Component Reply Gate (ℕ × ℕ)
    (List (Breaker.Call × Answer)) Unit Breaker.Call where
  answer := answer
  fresh := fun _ => []
  body := body breaker

def after (moves : List (Move (ℕ × ℕ) Unit Breaker.Call)) :
    World Reply Gate (List (Breaker.Call × Answer)) :=
  run (component breaker).step ⟨{}, ∅, []⟩ moves

theorem counters_answer_le {s s' : Gate} {query : Access} {outside : ℕ × ℕ}
    {reply : Reply query} (h : answer s query outside = some (reply, s')) :
    s'.nextProbe ≤ s.nextProbe + 1 ∧ s'.trips ≤ s.trips + 1 := by
  cases query with
  | lock =>
      obtain ⟨-, rfl⟩ := answer_lock_eq_some h
      exact ⟨Nat.le_succ _, Nat.le_succ _⟩
  | openUntil deadline =>
      obtain ⟨-, -, rfl⟩ | ⟨-, rfl⟩ := answer_openUntil_eq_some h <;>
        exact ⟨Nat.le_succ _, Nat.le_succ _⟩
  | _ =>
      cases h
      simp

theorem counters_step_le (w : World Reply Gate (List (Breaker.Call × Answer)))
    (move : Move (ℕ × ℕ) Unit Breaker.Call) :
    ((component breaker).step w move).object.nextProbe ≤
        w.object.nextProbe + 1 ∧
      ((component breaker).step w move).object.trips ≤ w.object.trips + 1 := by
  have hstep := (component breaker).step_spec w move
  generalize (component breaker).step w move = w' at hstep ⊢
  cases hstep with
  | turn _ hanswer => exact counters_answer_le hanswer
  | _ => exact ⟨Nat.le_succ _, Nat.le_succ _⟩

/-- Nor do they with calls that interleave. -/
theorem counters_after_lt {moves : List (Move (ℕ × ℕ) Unit Breaker.Call)}
    (hfew : moves.length < 2 ^ 64) :
    (after breaker moves).object.nextProbe < 2 ^ 64 ∧
      (after breaker moves).object.trips < 2 ^ 64 := by
  have hprobes := run_le_add_length (f := fun w => w.object.nextProbe)
    (fun w move => (counters_step_le breaker w move).1) ⟨{}, ∅, []⟩ moves
  have htrips := run_le_add_length (f := fun w => w.object.trips)
    (fun w move => (counters_step_le breaker w move).2) ⟨{}, ∅, []⟩ moves
  rw [Nat.zero_add] at hprobes htrips
  exact ⟨hprobes.trans_lt hfew, htrips.trans_lt hfew⟩

/-! ## The stages of a call -/

/-- How far a thread is with its call. -/
inductive Stage where
  /-- The call has its answer, and at most the window is left. -/
  | settled
  | invoked (call : Breaker.Call)
  /-- The deadline seen without the lock has passed. -/
  | due (nowMs : ℕ)
  /-- A failure of a breaker that was closed. -/
  | watching (nowMs : ℕ)
  | tripping (nowMs : ℕ)
  /-- Opened, and not counted yet. -/
  | tripped
  | locked (call : Breaker.Call)
  /-- The deadline seen under the lock has passed. -/
  | expired (nowMs : ℕ)
  | claimed (nowMs : ℕ)
  | drawn (probe : ℕ)
  /-- The token of the report is the one that decides. -/
  | «matched» (nowMs : ℕ) (token : ProbeToken) (ok : Bool)
  | cleared (nowMs : ℕ) (token : ProbeToken) (ok : Bool)
  | releasing
  deriving DecidableEq

/-- Does a thread at this stage hold the lock? -/
def Stage.holds : Stage → Bool
  | .locked _ | .expired _ | .claimed _ | .drawn _ | .matched _ _ _
  | .cleared _ _ _ | .releasing => true
  | _ => false

/-- A call with its answer. -/
abbrev Answered := Breaker.Call × Answer

/-- What a breaker that is switched off answers. -/
def offAnswer : Breaker.Call → Answer
  | .allowance _ => some .normal
  | _ => none

/-- Where an access leads, and the answer a thread has from then on. -/
def go : Stage → (query : Access) → Reply query → Stage × Option Answered
  | _, .invoke call, _ =>
      if breaker.enabled then (.invoked call, none)
      else (.settled, some (call, offAnswer call))
  | .invoked (.allowance nowMs), .loadUntil, deadline =>
      match verdict nowMs deadline with
      | some allowance => (.settled, some (.allowance nowMs, some allowance))
      | none => (.due nowMs, none)
  | .invoked (.record nowMs ok), .loadUntil, deadline =>
      if deadline = 0 ∧ ok = false then (.watching nowMs, none)
      else (.settled, some (.record nowMs ok, none))
  | .invoked call, .lock, _ => (.locked call, none)
  | .due nowMs, .lock, _ => (.locked (.allowance nowMs), none)
  | .watching nowMs, .windowTotals _, totals =>
      if overThreshold breaker totals then (.tripping nowMs, none)
      else (.settled, some (.record nowMs false, none))
  | .tripping nowMs, .openUntil _, swapped =>
      (if swapped then .tripped else .settled, some (.record nowMs false, none))
  | .tripped, .trip, _ => (.settled, none)
  | .locked (.allowance nowMs), .loadUntil, deadline =>
      match verdict nowMs deadline with
      | some allowance => (.releasing, some (.allowance nowMs, some allowance))
      | none => (.expired nowMs, none)
  | .locked (.recordProbe nowMs token ok), .loadActive, active =>
      if active = token.value then (.matched nowMs token ok, none)
      else (.releasing, some (.recordProbe nowMs token ok, none))
  | .expired nowMs, .storeUntil _, _ => (.claimed nowMs, none)
  | .claimed nowMs, .nextProbe, probe =>
      (.drawn probe, some (.allowance nowMs, some (.probe ⟨probe + 1⟩)))
  | .drawn _, .storeActive _, _ => (.releasing, none)
  | .matched nowMs token ok, .storeActive _, _ =>
      (.cleared nowMs token ok, none)
  | .cleared nowMs token ok, .storeUntil _, _ =>
      (.releasing, some (.recordProbe nowMs token ok, none))
  | .releasing, .unlock, _ => (.settled, none)
  | stage, _, _ => (stage, none)

/-- The access that may come next. -/
def Permits : Stage → Access → Prop
  | .settled, .invoke _ => True
  | .settled, .windowRecord _ _ => True
  | .settled, .windowReset => True
  | .invoked (.allowance _), .loadUntil => True
  | .invoked (.record _ _), .loadUntil => True
  | .invoked (.recordProbe _ _ _), .lock => True
  | .due _, .lock => True
  | .watching _, .windowRecord _ _ => True
  | .watching _, .windowTotals _ => True
  | .tripping nowMs, .openUntil deadline => deadline = breaker.deadline nowMs
  | .tripped, .trip => True
  | .locked (.allowance _), .loadUntil => True
  | .locked (.recordProbe _ _ _), .loadActive => True
  | .expired nowMs, .storeUntil deadline => deadline = breaker.deadline nowMs
  | .claimed _, .nextProbe => True
  | .drawn probe, .storeActive token => token = probe + 1
  | .matched _ _ _, .storeActive token => token = 0
  | .cleared _ _ ok, .windowReset => ok = true
  | .cleared nowMs _ ok, .storeUntil deadline =>
      deadline = if ok then 0 else breaker.deadline nowMs
  | .releasing, .unlock => True
  | _, _ => False

/-- A thread: its stage, and the answers it has, the latest first. -/
structure Account where
  results : List Answered := []
  stage : Stage := .settled
  deriving DecidableEq

def Account.next (account : Account) (query : Access) (reply : Reply query) :
    Account where
  results := (go breaker account.stage query reply).2.toList ++ account.results
  stage := (go breaker account.stage query reply).1

def discipline : Discipline Reply Account where
  permits := fun account query => Permits breaker account.stage query
  next := fun account query reply => account.next breaker query reply

/-- Between two calls. -/
def Rests (account : Account) (results : List Answered) : Prop :=
  account = { results }

/-! ## The methods keep to the stages -/

variable {breaker} {results : List Answered} {nowMs : ℕ}

/-- The call has returned its answer. -/
def Returns (results : List Answered) (call : Breaker.Call)
    (account : Account) (answer : Answer) : Prop :=
  account = { results := (call, answer) :: results }

theorem next_invoke_of_enabled (h : breaker.enabled = true)
    {account : Account} {call : Breaker.Call} {reply : Unit} :
    (discipline breaker).next account (.invoke call) reply =
      ⟨account.results, .invoked call⟩ := by
  simp [discipline, Account.next, go, h]

theorem next_invoke_of_disabled (h : breaker.enabled = false)
    {account : Account} {call : Breaker.Call} {reply : Unit} :
    (discipline breaker).next account (.invoke call) reply =
      { results := (call, offAnswer call) :: account.results } := by
  simp [discipline, Account.next, go, h]

/-- Off, a call is over with its invocation. -/
theorem obeys_invoke {β : Type} {call : Breaker.Call} {value : β}
    {program : Prog Reply β} {post : Account → β → Prop}
    (hoff : post { results := (call, offAnswer call) :: results } value)
    (hon : (discipline breaker).Obeys post ⟨results, .invoked call⟩ program) :
    (discipline breaker).Obeys post { results } (do
      let _ ← ask (.invoke call)
      if !breaker.enabled then pure value else program) := by
  refine Discipline.obeys_ask.mpr ⟨trivial, fun _ _ => ?_⟩
  cases henabled : breaker.enabled with
  | false =>
      rw [next_invoke_of_disabled henabled]
      exact hoff
  | true =>
      rw [next_invoke_of_enabled henabled]
      exact hon

theorem obeys_claim :
    (discipline breaker).Obeys
      (fun account allowance =>
        account = ⟨(.allowance nowMs, some allowance) :: results, .releasing⟩)
      ⟨results, .expired nowMs⟩ (claim breaker nowMs) := by
  refine Discipline.obeys_ask.mpr ⟨rfl, fun _ _ => ?_⟩
  refine Discipline.obeys_ask.mpr ⟨trivial, fun probe _ => ?_⟩
  exact Discipline.obeys_ask.mpr ⟨rfl, fun _ _ => rfl⟩

theorem obeys_secondLook :
    (discipline breaker).Obeys
      (fun account allowance =>
        account = ⟨(.allowance nowMs, some allowance) :: results, .releasing⟩)
      ⟨results, .locked (.allowance nowMs)⟩ (secondLook breaker nowMs) := by
  refine Discipline.obeys_ask.mpr ⟨trivial, fun deadline _ => ?_⟩
  cases hverdict : verdict nowMs deadline with
  | some allowance => simp [discipline, Account.next, go, hverdict]
  | none =>
      have hnext : (discipline breaker).next
          ⟨results, .locked (.allowance nowMs)⟩ .loadUntil deadline =
            ⟨results, .expired nowMs⟩ := by
        simp [discipline, Account.next, go, hverdict]
      rw [hnext]
      exact obeys_claim

theorem obeys_allowanceLocked :
    (discipline breaker).Obeys
      (fun account allowance =>
        Returns results (.allowance nowMs) account (some allowance))
      ⟨results, .due nowMs⟩ (allowanceLocked breaker nowMs) := by
  refine Discipline.obeys_ask.mpr ⟨trivial, fun _ _ => ?_⟩
  refine Discipline.obeys_bind.mpr (obeys_secondLook.mono ?_)
  rintro _ allowance rfl
  exact Discipline.obeys_ask.mpr ⟨trivial, fun _ _ => rfl⟩

theorem obeys_allowanceEnabled :
    (discipline breaker).Obeys
      (fun account allowance =>
        Returns results (.allowance nowMs) account (some allowance))
      ⟨results, .invoked (.allowance nowMs)⟩
      (allowanceEnabled breaker nowMs) := by
  refine Discipline.obeys_ask.mpr ⟨trivial, fun deadline _ => ?_⟩
  cases hverdict : verdict nowMs deadline with
  | some allowance => simp [discipline, Account.next, go, hverdict, Returns]
  | none =>
      have hnext : (discipline breaker).next
          ⟨results, .invoked (.allowance nowMs)⟩ .loadUntil deadline =
            ⟨results, .due nowMs⟩ := by
        simp [discipline, Account.next, go, hverdict]
      rw [hnext]
      exact obeys_allowanceLocked

theorem obeys_allowance :
    (discipline breaker).Obeys
      (fun account allowance =>
        Returns results (.allowance nowMs) account (some allowance))
      { results } (allowance breaker nowMs) :=
  obeys_invoke rfl obeys_allowanceEnabled

theorem obeys_openIfClosed :
    (discipline breaker).Obeys
      (fun account _ => Returns results (.record nowMs false) account none)
      ⟨results, .tripping nowMs⟩ (openIfClosed breaker nowMs) := by
  refine Discipline.obeys_ask.mpr ⟨rfl, ?_⟩
  rintro (_ | _) -
  · exact rfl
  · refine Discipline.obeys_ask.mpr ⟨trivial, fun _ _ => ?_⟩
    exact ⟨trivial, fun _ _ => rfl⟩

theorem obeys_tripIfOverThreshold :
    (discipline breaker).Obeys
      (fun account _ => Returns results (.record nowMs false) account none)
      ⟨results, .watching nowMs⟩ (tripIfOverThreshold breaker nowMs) := by
  refine Discipline.obeys_ask.mpr ⟨trivial, fun totals _ => ?_⟩
  by_cases hover : overThreshold breaker totals
  · have hnext : (discipline breaker).next
        ⟨results, .watching nowMs⟩ (.windowTotals nowMs) totals =
          ⟨results, .tripping nowMs⟩ := by
      simp [discipline, Account.next, go, hover]
    rw [hnext, if_pos hover]
    exact obeys_openIfClosed
  · simp [discipline, Account.next, go, hover, Returns]

theorem obeys_observe {ok : Bool} :
    (discipline breaker).Obeys
      (fun account _ => Returns results (.record nowMs ok) account none)
      ((discipline breaker).next ⟨results, .invoked (.record nowMs ok)⟩
        .loadUntil (0 : ℕ))
      (observe breaker nowMs ok) := by
  refine Discipline.obeys_ask.mpr ?_
  cases ok with
  | true => exact ⟨trivial, fun _ _ => rfl⟩
  | false => exact ⟨trivial, fun _ _ => obeys_tripIfOverThreshold⟩

theorem obeys_recordEnabled {ok : Bool} :
    (discipline breaker).Obeys
      (fun account _ => Returns results (.record nowMs ok) account none)
      ⟨results, .invoked (.record nowMs ok)⟩
      (recordEnabled breaker nowMs ok) := by
  refine Discipline.obeys_ask.mpr ⟨trivial, fun deadline _ => ?_⟩
  by_cases hclosed : deadline = 0
  · subst hclosed
    exact obeys_observe
  · rw [if_pos hclosed]
    simp [discipline, Account.next, go, hclosed, Returns]

theorem obeys_record {ok : Bool} :
    (discipline breaker).Obeys
      (fun account _ => Returns results (.record nowMs ok) account none)
      { results } (record breaker nowMs ok) :=
  obeys_invoke rfl obeys_recordEnabled

theorem obeys_settle {token : ProbeToken} {ok : Bool} :
    (discipline breaker).Obeys
      (fun account _ =>
        account = ⟨(.recordProbe nowMs token ok, none) :: results, .releasing⟩)
      ⟨results, .matched nowMs token ok⟩ (settle breaker nowMs ok) := by
  refine Discipline.obeys_ask.mpr ⟨rfl, fun _ _ => ?_⟩
  cases ok with
  | false => exact ⟨rfl, fun _ _ => rfl⟩
  | true =>
      refine Discipline.obeys_ask.mpr ⟨rfl, fun _ _ => ?_⟩
      exact ⟨rfl, fun _ _ => rfl⟩

theorem obeys_settleIfActive {token : ProbeToken} {ok : Bool} :
    (discipline breaker).Obeys
      (fun account _ =>
        account = ⟨(.recordProbe nowMs token ok, none) :: results, .releasing⟩)
      ⟨results, .locked (.recordProbe nowMs token ok)⟩
      (settleIfActive breaker nowMs token ok) := by
  refine Discipline.obeys_ask.mpr ⟨trivial, fun active _ => ?_⟩
  by_cases hmatch : active = token.value
  · have hnext : (discipline breaker).next
        ⟨results, .locked (.recordProbe nowMs token ok)⟩ .loadActive active =
          ⟨results, .matched nowMs token ok⟩ := by
      simp [discipline, Account.next, go, hmatch]
    rw [hnext, if_neg (not_not.mpr hmatch)]
    exact obeys_settle
  · rw [if_pos hmatch]
    simp [discipline, Account.next, go, hmatch]

theorem obeys_recordProbe {token : ProbeToken} {ok : Bool} :
    (discipline breaker).Obeys
      (fun account _ =>
        Returns results (.recordProbe nowMs token ok) account none)
      { results } (recordProbe breaker nowMs token ok) := by
  refine obeys_invoke rfl (Discipline.obeys_ask.mpr ⟨trivial, fun _ _ => ?_⟩)
  refine Discipline.obeys_bind.mpr (obeys_settleIfActive.mono ?_)
  rintro _ _ rfl
  exact ⟨trivial, fun _ _ => rfl⟩

theorem obeys_body (call : Breaker.Call) (results : List Answered) :
    (discipline breaker).Obeys Rests { results }
      (body breaker call results) := by
  cases call with
  | allowance nowMs => exact Discipline.obeys_bind.mpr obeys_allowance
  | record nowMs ok => exact Discipline.obeys_bind.mpr obeys_record
  | recordProbe nowMs token ok =>
      exact Discipline.obeys_bind.mpr obeys_recordProbe

end Gate

end Harmost.Upstream
