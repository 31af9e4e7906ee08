import Harmost.Config.Settings
import Harmost.Support.Run
import Harmost.Upstream.Window

/-!
# The circuit breaker of a backend

A breaker watches the outcomes of real traffic.  Over its threshold it opens:
the backend is ejected until a deadline, and past the deadline one request at a
time, the probe, is let through to find out whether the backend came back.  The
probe carries a token, and only the result that brings the current token back
decides.

Every method takes the time from its caller, so a run of the breaker is a list
of calls with any times in them.
-/

namespace Harmost.Upstream

open Harmost.Config (millis)
open Harmost.Support

inductive BreakerState where
  | closed
  | «open»
  deriving DecidableEq

/-- Identity of the one recovery request allowed through an open breaker. -/
structure ProbeToken where
  value : ℕ
  deriving DecidableEq

inductive BreakerAllowance where
  | denied
  | normal
  | probe (token : ProbeToken)
  deriving DecidableEq

structure Breaker where
  enabled : Bool
  minRequests : ℕ
  failurePercent : ℕ
  openForMs : ℕ
  window : RollingRatio
  /-- Milliseconds until which the backend is ejected; zero is closed. -/
  openUntilMs : ℕ := 0
  /-- A counter of 64 bits, as is `trips`; see `counters_lt`. -/
  nextProbe : ℕ := 0
  /-- The token entitled to decide; zero is none. -/
  activeProbe : ℕ := 0
  trips : ℕ := 0

namespace Breaker

def new (cfg : Config.Breaker) : Breaker where
  enabled := cfg.enabled
  minRequests := cfg.minRequests
  failurePercent := cfg.failurePercent
  openForMs := millis cfg.openFor
  window := .new cfg.window

variable (breaker : Breaker)

/-- Successes and failures still inside the window. -/
def counts (nowMs : ℕ) : ℕ × ℕ :=
  let (total, failed) := breaker.window.totals nowMs
  (total - min failed total, failed)

def state : BreakerState :=
  if breaker.openUntilMs = 0 then .closed else .open

/-- The time plus `open_for`, saturating at 64 bits and never the sentinel of
a closed breaker. -/
def deadline (nowMs : ℕ) : ℕ :=
  max (min (nowMs + breaker.openForMs) (2 ^ 64 - 1)) 1

/-- May this backend be picked?  Past the deadline the answer is a probe, and
the deadline is set anew as the probe is granted.  The lock of the source makes
the transition one step. -/
def allowance (nowMs : ℕ) : BreakerAllowance × Breaker :=
  if !breaker.enabled then
    (.normal, breaker)
  else if breaker.openUntilMs = 0 then
    (.normal, breaker)
  else if nowMs < breaker.openUntilMs then
    (.denied, breaker)
  else
    (.probe ⟨breaker.nextProbe + 1⟩,
      { breaker with
        openUntilMs := breaker.deadline nowMs
        nextProbe := breaker.nextProbe + 1
        activeProbe := breaker.nextProbe + 1 })

def tripIfOverThreshold (nowMs : ℕ) : Breaker :=
  let (total, failed) := breaker.window.totals nowMs
  if total < breaker.minRequests then
    breaker
  else if failed * 100 < total * breaker.failurePercent then
    breaker
  else if breaker.openUntilMs = 0 then
    { breaker with
      openUntilMs := breaker.deadline nowMs
      trips := breaker.trips + 1
      window := breaker.window.reset }
  else
    breaker

/-- Fold one origin outcome into the window. -/
def record (nowMs : ℕ) (ok : Bool) : Breaker :=
  if !breaker.enabled then
    breaker
  else if breaker.openUntilMs ≠ 0 then
    breaker
  else
    let observed := { breaker with window := breaker.window.record nowMs !ok }
    if !ok then observed.tripIfOverThreshold nowMs else observed

/-- Fold the outcome of a recovery probe into the state machine. -/
def recordProbe (nowMs : ℕ) (token : ProbeToken) (ok : Bool) : Breaker :=
  if !breaker.enabled then
    breaker
  else if breaker.activeProbe ≠ token.value then
    breaker
  else if ok then
    { breaker with
      activeProbe := 0
      window := breaker.window.reset
      openUntilMs := 0 }
  else
    { breaker with
      activeProbe := 0
      openUntilMs := breaker.deadline nowMs }

/-! ## Calls and what they do -/

/-- A call of the breaker. -/
inductive Call where
  | allowance (nowMs : ℕ)
  | record (nowMs : ℕ) (ok : Bool)
  | recordProbe (nowMs : ℕ) (token : ProbeToken) (ok : Bool)
  deriving DecidableEq

def Call.nowMs : Call → ℕ
  | .allowance nowMs => nowMs
  | .record nowMs _ => nowMs
  | .recordProbe nowMs _ _ => nowMs

/-- The token a call reports on. -/
def Call.reported : Call → Option ProbeToken
  | .recordProbe _ token _ => some token
  | _ => none

def step (breaker : Breaker) : Call → Breaker
  | .allowance nowMs => (breaker.allowance nowMs).2
  | .record nowMs ok => breaker.record nowMs ok
  | .recordProbe nowMs token ok => breaker.recordProbe nowMs token ok

/-- The token a call hands out. -/
def granted (breaker : Breaker) : Call → Option ProbeToken
  | .allowance nowMs =>
      match (breaker.allowance nowMs).1 with
      | .probe token => some token
      | _ => none
  | _ => none

/-- What one call can do to a breaker. -/
inductive Transition (breaker : Breaker) : Call → Breaker → Prop
  /-- Nothing: no probe is granted, and a report does not carry the token that
  decides. -/
  | idle {call : Call} (hgrant : breaker.granted call = none)
      (hreport : breaker.enabled = true →
        ∀ token ∈ call.reported, breaker.activeProbe ≠ token.value) :
      Transition breaker call breaker
  | probe {nowMs : ℕ} (hopen : breaker.openUntilMs ≠ 0)
      (hdue : breaker.openUntilMs ≤ nowMs)
      (hgrant : breaker.granted (.allowance nowMs) =
        some ⟨breaker.nextProbe + 1⟩) :
      Transition breaker (.allowance nowMs)
        { breaker with
          openUntilMs := breaker.deadline nowMs
          nextProbe := breaker.nextProbe + 1
          activeProbe := breaker.nextProbe + 1 }
  | observe {nowMs : ℕ} {ok : Bool} (hclosed : breaker.openUntilMs = 0)
      (window : RollingRatio) :
      Transition breaker (.record nowMs ok) { breaker with window }
  | trip {nowMs : ℕ} (hclosed : breaker.openUntilMs = 0)
      (window : RollingRatio) :
      Transition breaker (.record nowMs false)
        { breaker with
          openUntilMs := breaker.deadline nowMs
          trips := breaker.trips + 1
          window }
  | recover {nowMs : ℕ} {token : ProbeToken}
      (hactive : breaker.activeProbe = token.value) :
      Transition breaker (.recordProbe nowMs token true)
        { breaker with
          activeProbe := 0
          window := breaker.window.reset
          openUntilMs := 0 }
  | rearm {nowMs : ℕ} {token : ProbeToken}
      (hactive : breaker.activeProbe = token.value) :
      Transition breaker (.recordProbe nowMs token false)
        { breaker with
          activeProbe := 0
          openUntilMs := breaker.deadline nowMs }

variable {breaker : Breaker}

theorem transition_step (breaker : Breaker) (call : Call) :
    Transition breaker call (breaker.step call) := by
  cases call with
  | allowance nowMs =>
      have hreport : breaker.enabled = true →
          ∀ token ∈ (Call.allowance nowMs).reported,
            breaker.activeProbe ≠ token.value := by
        simp [Call.reported]
      simp only [step, allowance]
      split_ifs with henabled hclosed hearly
      · exact .idle (by simp [granted, allowance, henabled]) hreport
      · exact .idle (by simp [granted, allowance, hclosed]) hreport
      · exact .idle (by simp [granted, allowance, henabled, hclosed, hearly])
          hreport
      · exact .probe hclosed (not_lt.mp hearly)
          (by simp [granted, allowance, henabled, hclosed, hearly])
  | record nowMs ok =>
      have hidle : Transition breaker (.record nowMs ok) breaker :=
        .idle rfl (by simp [Call.reported])
      simp only [step, record, tripIfOverThreshold]
      split_ifs with henabled hopen hok hfew hlow hclosed
      · exact hidle
      · exact hidle
      · exact .observe (not_not.mp hopen) _
      · exact .observe (not_not.mp hopen) _
      · obtain rfl : ok = false := by simpa using hok
        exact .trip (not_not.mp hopen) _
      · exact .observe (not_not.mp hopen) _
      · exact .observe (not_not.mp hopen) _
  | recordProbe nowMs token ok =>
      simp only [step, recordProbe]
      split_ifs with henabled hactive hok
      · exact .idle rfl fun h => absurd h (by simpa using henabled)
      · exact .idle rfl fun _ => by simpa [Call.reported] using hactive
      · subst hok
        exact .recover (not_not.mp hactive)
      · obtain rfl : ok = false := by simpa using hok
        exact .rearm (not_not.mp hactive)

theorem counters_step_le (breaker : Breaker) (call : Call) :
    (breaker.step call).nextProbe ≤ breaker.nextProbe + 1 ∧
      (breaker.step call).trips ≤ breaker.trips + 1 := by
  have htransition := transition_step breaker call
  generalize breaker.step call = breaker' at htransition ⊢
  cases htransition <;> simp

/-- The counters do not leave their 64 bits in fewer than `2 ^ 64` calls. -/
theorem counters_lt (cfg : Config.Breaker) {calls : List Call}
    (hfew : calls.length < 2 ^ 64) :
    (run step (new cfg) calls).nextProbe < 2 ^ 64 ∧
      (run step (new cfg) calls).trips < 2 ^ 64 := by
  have hprobes := run_le_add_length (f := nextProbe)
    (fun breaker call => (counters_step_le breaker call).1) (new cfg) calls
  have htrips := run_le_add_length (f := trips)
    (fun breaker call => (counters_step_le breaker call).2) (new cfg) calls
  rw [new, Nat.zero_add] at hprobes htrips
  exact ⟨hprobes.trans_lt hfew, htrips.trans_lt hfew⟩

theorem record_of_open (hopen : breaker.openUntilMs ≠ 0) (nowMs : ℕ)
    (ok : Bool) : breaker.record nowMs ok = breaker := by
  simp [record, hopen]

theorem recordProbe_of_ne {token : ProbeToken}
    (hne : breaker.activeProbe ≠ token.value) (nowMs : ℕ) (ok : Bool) :
    breaker.recordProbe nowMs token ok = breaker := by
  simp [recordProbe, hne]

theorem deadline_ne_zero (nowMs : ℕ) : breaker.deadline nowMs ≠ 0 := by
  rw [deadline]
  omega

/-! ## Who decides recovery -/

/-- A breaker with the history of its tokens, the newest first. -/
structure Trace where
  breaker : Breaker
  issued : List ProbeToken := []
  reported : List ProbeToken := []

namespace Trace

def step (trace : Trace) (call : Call) : Trace where
  breaker := trace.breaker.step call
  issued := (trace.breaker.granted call).toList ++ trace.issued
  reported := call.reported.toList ++ trace.reported

/-- A report carries a token that the breaker has handed out. -/
def Allowed (trace : Trace) (call : Call) : Prop :=
  ∀ token ∈ call.reported, token ∈ trace.issued

instance (trace : Trace) (call : Call) : Decidable (trace.Allowed call) :=
  inferInstanceAs (Decidable (∀ token ∈ call.reported, _))

/-- Tokens are handed out in increasing order, and the one that decides is the
newest and has not been reported. -/
structure Inv (trace : Trace) : Prop where
  enabled : trace.breaker.enabled = true
  issued_le : ∀ token ∈ trace.issued,
    0 < token.value ∧ token.value ≤ trace.breaker.nextProbe
  reported_issued : ∀ token ∈ trace.reported, token ∈ trace.issued
  active : trace.breaker.activeProbe ≠ 0 →
    trace.issued.head? = some ⟨trace.breaker.activeProbe⟩ ∧
      ⟨trace.breaker.activeProbe⟩ ∉ trace.reported
  closed : trace.breaker.openUntilMs = 0 → trace.breaker.activeProbe = 0

theorem inv_new {cfg : Config.Breaker} (henabled : cfg.enabled = true) :
    Inv { breaker := .new cfg } where
  enabled := henabled
  issued_le := by simp
  reported_issued := by simp
  active := fun h => absurd rfl h
  closed := fun _ => rfl

theorem reported_step {trace : Trace} {call : Call}
    (hallowed : trace.Allowed call) (h : trace.Inv) :
    ∀ token ∈ (trace.step call).reported, token ∈ (trace.step call).issued := by
  intro token htoken
  refine List.mem_append_right _ ?_
  rcases List.mem_append.mp htoken with hcall | hbefore
  · exact hallowed token (Option.mem_toList.mp hcall)
  · exact h.reported_issued token hbefore

theorem Inv.step {trace : Trace} {call : Call} (hallowed : trace.Allowed call)
    (h : trace.Inv) : (trace.step call).Inv := by
  have hreported := reported_step hallowed h
  have htransition := transition_step trace.breaker call
  simp only [Trace.step] at hreported ⊢
  generalize trace.breaker.step call = after at htransition hreported ⊢
  cases htransition with
  | idle hgrant hreport =>
      rw [hgrant] at hreported ⊢
      refine ⟨h.enabled, h.issued_le, hreported, fun hactive => ?_, h.closed⟩
      refine ⟨(h.active hactive).1, fun hmem => ?_⟩
      rcases List.mem_append.mp hmem with hcall | hbefore
      · exact hreport h.enabled _ (Option.mem_toList.mp hcall) rfl
      · exact (h.active hactive).2 hbefore
  | probe hopen hdue hgrant =>
      rw [hgrant] at hreported ⊢
      refine ⟨h.enabled, ?_, hreported, fun _ => ⟨rfl, fun hmem => ?_⟩,
        fun hclosed => absurd hclosed (deadline_ne_zero _)⟩
      · intro token htoken
        rcases List.mem_cons.mp htoken with rfl | hbefore
        · exact ⟨Nat.succ_pos _, le_rfl⟩
        · have hle := h.issued_le token hbefore
          exact ⟨hle.1, Nat.le_succ_of_le hle.2⟩
      · -- a reported token was issued before, so it is smaller than this one
        have hle := (h.issued_le _ (h.reported_issued _ hmem)).2
        exact Nat.not_succ_le_self _ hle
  | observe hclosed window =>
      exact ⟨h.enabled, h.issued_le, hreported, h.active, h.closed⟩
  | trip hclosed window =>
      refine ⟨h.enabled, h.issued_le, hreported, h.active, fun hzero => ?_⟩
      exact absurd hzero (deadline_ne_zero _)
  | recover | rearm =>
      exact ⟨h.enabled, h.issued_le, hreported, fun hne => absurd rfl hne,
        fun _ => rfl⟩

theorem inv_run {cfg : Config.Breaker} (henabled : cfg.enabled = true)
    {calls : List Call}
    (hcalls : Guarded step Allowed { breaker := .new cfg } calls) :
    (run step { breaker := .new cfg } calls).Inv :=
  run_invariant_of_guarded (fun _ _ hallowed h => h.step hallowed)
    (inv_new henabled) hcalls

/-- A token that is not the newest, or was reported, does not decide. -/
theorem Inv.activeProbe_ne {trace : Trace} (h : trace.Inv) {token : ProbeToken}
    (hissued : token ∈ trace.issued)
    (hstale : trace.issued.head? ≠ some token ∨ token ∈ trace.reported) :
    trace.breaker.activeProbe ≠ token.value := by
  intro heq
  have hpos := (h.issued_le token hissued).1
  obtain ⟨hhead, hfresh⟩ := h.active (by omega)
  rw [heq] at hhead hfresh
  exact hstale.elim (fun hne => hne hhead) hfresh

/-- An open breaker is closed by the current probe only. -/
theorem Inv.recovered {trace : Trace} (h : trace.Inv) {call : Call}
    (hallowed : trace.Allowed call) (hopen : trace.breaker.openUntilMs ≠ 0)
    (hclosed : (trace.breaker.step call).openUntilMs = 0) :
    ∃ nowMs token, call = .recordProbe nowMs token true ∧
      trace.issued.head? = some token ∧ token ∉ trace.reported := by
  have htransition := transition_step trace.breaker call
  generalize trace.breaker.step call = after at htransition hclosed
  cases htransition with
  | idle | observe => exact absurd hclosed hopen
  | probe | trip | rearm => exact absurd hclosed (deadline_ne_zero _)
  | @recover nowMs token hactive =>
      have hissued : token ∈ trace.issued := hallowed token rfl
      by_contra hnone
      refine h.activeProbe_ne hissued ?_ hactive
      by_contra hcurrent
      rw [not_or, not_not] at hcurrent
      exact hnone ⟨nowMs, token, rfl, hcurrent⟩

end Trace

theorem state_eq_closed {breaker : Breaker} :
    breaker.state = .closed ↔ breaker.openUntilMs = 0 := by
  rw [state]
  split_ifs with h <;> simp [h]

theorem state_eq_open {breaker : Breaker} :
    breaker.state = .open ↔ breaker.openUntilMs ≠ 0 := by
  rw [state]
  split_ifs with h <;> simp [h]

/-- Only the current probe decides recovery: along every run of an enabled
breaker, whose reports carry tokens that it handed out, it closes in a
successful report of the newest token, not reported before; an ordinary outcome
and a stale report leave the deadline and the window of an open breaker as they
are; and no report opens a closed breaker. -/
theorem only_current_probe_decides {cfg : Config.Breaker}
    (henabled : cfg.enabled = true) {calls : List Call}
    (hcalls : Guarded Trace.step Trace.Allowed { breaker := .new cfg } calls)
    {trace : Trace}
    (htrace : run Trace.step { breaker := .new cfg } calls = trace) :
    (∀ call, trace.Allowed call → trace.breaker.state = .open →
      (trace.breaker.step call).state = .closed →
        ∃ nowMs token, call = .recordProbe nowMs token true ∧
          trace.issued.head? = some token ∧ token ∉ trace.reported) ∧
      (trace.breaker.state = .open → ∀ nowMs ok,
        (trace.breaker.record nowMs ok).openUntilMs =
            trace.breaker.openUntilMs ∧
          (trace.breaker.record nowMs ok).window = trace.breaker.window) ∧
      (trace.breaker.state = .open → ∀ nowMs ok, ∀ token ∈ trace.issued,
        trace.issued.head? ≠ some token ∨ token ∈ trace.reported →
          (trace.breaker.recordProbe nowMs token ok).openUntilMs =
              trace.breaker.openUntilMs ∧
            (trace.breaker.recordProbe nowMs token ok).window =
              trace.breaker.window) ∧
      (trace.breaker.state = .closed → ∀ nowMs ok, ∀ token ∈ trace.issued,
        (trace.breaker.recordProbe nowMs token ok).state = .closed) := by
  have h : trace.Inv := htrace ▸ Trace.inv_run henabled hcalls
  refine ⟨fun call hallowed hopen hclosed => ?_, fun hopen nowMs ok => ?_,
    fun _ nowMs ok token hissued hstale => ?_,
    fun hclosed nowMs ok token hissued => ?_⟩
  · exact h.recovered hallowed (state_eq_open.mp hopen)
      (state_eq_closed.mp hclosed)
  · rw [record_of_open (state_eq_open.mp hopen)]
    exact ⟨rfl, rfl⟩
  · rw [recordProbe_of_ne (h.activeProbe_ne hissued hstale)]
    exact ⟨rfl, rfl⟩
  · have hzero := h.closed (state_eq_closed.mp hclosed)
    have hpos := (h.issued_le token hissued).1
    rwa [recordProbe_of_ne (by omega)]

/-- One failure opens a breaker that trips on the first; its probe, granted at
the deadline, is the token that decides. -/
theorem only_current_probe_decides_first_probe :
    let cfg : Config.Breaker := { enabled := true, minRequests := 1 }
    let calls : List Call := [.record 0 false, .allowance 30000]
    let trace := run Trace.step { breaker := .new cfg } calls
    trace.breaker.state = .open ∧ trace.issued = [⟨1⟩] ∧
      trace.Allowed (.recordProbe 30001 ⟨1⟩ true) ∧
      (trace.breaker.step (.recordProbe 30001 ⟨1⟩ true)).state = .closed ∧
      trace.issued.head? = some ⟨1⟩ ∧ ⟨1⟩ ∉ trace.reported := by
  intro cfg calls trace
  have hcalls : Guarded Trace.step Trace.Allowed { breaker := .new cfg }
      calls := by decide
  have hopen : trace.breaker.state = .open := by decide
  have hallowed : trace.Allowed (.recordProbe 30001 ⟨1⟩ true) := by decide
  have hclosed : (trace.breaker.step (.recordProbe 30001 ⟨1⟩ true)).state =
      .closed := by decide
  obtain ⟨nowMs, token, hcall, hcurrent⟩ :=
    (only_current_probe_decides rfl hcalls rfl).1 _ hallowed hopen hclosed
  cases hcall
  exact ⟨hopen, by decide, hallowed, hclosed, hcurrent⟩

/-! ## How often a probe is granted -/

/-- The calls after which the breaker waits out `open_for`: the grant of a
probe, a trip, and the report that the current probe failed. -/
def Arms (breaker : Breaker) (call : Call) : Prop :=
  breaker.granted call ≠ none ∨ breaker.trips < (breaker.step call).trips ∨
    ∃ nowMs token, call = .recordProbe nowMs token false ∧
      breaker.activeProbe = token.value

/-- While the breaker is open, its deadline is not before a time. -/
def Waits (breaker : Breaker) (untilMs : ℕ) : Prop :=
  breaker.enabled = true → breaker.openUntilMs ≠ 0 →
    untilMs ≤ breaker.openUntilMs

variable {breaker : Breaker} {call : Call}

@[simp] theorem openForMs_step (breaker : Breaker) (call : Call) :
    (breaker.step call).openForMs = breaker.openForMs := by
  have htransition := transition_step breaker call
  generalize breaker.step call = after at htransition ⊢
  cases htransition <;> rfl

theorem openForMs_run (breaker : Breaker) (calls : List Call) :
    (run step breaker calls).openForMs = breaker.openForMs :=
  run_invariant (P := fun b => b.openForMs = breaker.openForMs)
    (fun b call h => (openForMs_step b call).trans h) rfl calls

theorem le_deadline {nowMs : ℕ} (hroom : nowMs + breaker.openForMs < 2 ^ 64) :
    nowMs + breaker.openForMs ≤ breaker.deadline nowMs := by
  rw [deadline]
  omega

theorem Arms.waits (harms : breaker.Arms call)
    (hroom : call.nowMs + breaker.openForMs < 2 ^ 64) :
    (breaker.step call).Waits (call.nowMs + breaker.openForMs) := by
  rw [Arms] at harms
  have htransition := transition_step breaker call
  generalize breaker.step call = after at htransition harms ⊢
  intro henabled hopen
  cases htransition with
  | idle hgrant hreport =>
      obtain hgranted | htrip | ⟨nowMs, token, rfl, hactive⟩ := harms
      · exact absurd hgrant hgranted
      · exact absurd htrip (lt_irrefl _)
      · exact absurd hactive (hreport henabled token rfl)
  | observe hclosed => exact absurd hclosed hopen
  | recover hactive => exact absurd rfl hopen
  | probe | trip | rearm => exact le_deadline hroom

theorem Waits.step {untilMs : ℕ} (h : breaker.Waits untilMs)
    (hlater : untilMs ≤ call.nowMs + breaker.openForMs)
    (hroom : call.nowMs + breaker.openForMs < 2 ^ 64) :
    (breaker.step call).Waits untilMs := by
  have htransition := transition_step breaker call
  generalize breaker.step call = after at htransition ⊢
  cases htransition with
  | idle | observe => exact h
  | recover => exact fun _ hopen => absurd rfl hopen
  | probe | trip | rearm => exact fun _ _ => hlater.trans (le_deadline hroom)

theorem Waits.run {untilMs : ℕ} {calls : List Call} (h : breaker.Waits untilMs)
    (hlater : ∀ call ∈ calls, untilMs ≤ call.nowMs + breaker.openForMs)
    (hroom : ∀ call ∈ calls, call.nowMs + breaker.openForMs < 2 ^ 64) :
    (Support.run Breaker.step breaker calls).Waits untilMs := by
  induction calls generalizing breaker with
  | nil => exact h
  | cons call calls ih =>
      rw [List.forall_mem_cons] at hlater hroom
      refine ih (h.step hlater.1 hroom.1) ?_ ?_
      · simpa using hlater.2
      · simpa using hroom.2

/-- A probe is granted by an enabled and open breaker, past its deadline. -/
theorem Waits.le_of_granted {untilMs nowMs : ℕ} (h : breaker.Waits untilMs)
    (hgranted : breaker.granted (.allowance nowMs) ≠ none) :
    untilMs ≤ nowMs := by
  simp only [granted, allowance] at hgranted
  split_ifs at hgranted with henabled hclosed hearly
  · exact absurd rfl hgranted
  · exact absurd rfl hgranted
  · exact absurd rfl hgranted
  · exact (h (by simpa using henabled) hclosed).trans (not_lt.mp hearly)

/-- The rate of probes: in a run at non-decreasing times, a probe is granted no
earlier than `open_for` after any earlier probe, trip or failure of the current
probe. -/
theorem probe_openFor_after {cfg : Config.Breaker} {before between : List Call}
    {event : Call} {nowMs : ℕ}
    (htimes : (before ++ event :: (between ++ [.allowance nowMs])).Pairwise
      fun earlier later => earlier.nowMs ≤ later.nowMs)
    (hroom : ∀ call ∈ before ++ event :: (between ++ [.allowance nowMs]),
      call.nowMs + millis cfg.openFor < 2 ^ 64)
    (hevent : (Support.run step (new cfg) before).Arms event)
    (hprobe : (Support.run step (new cfg) (before ++ event :: between)).granted
      (.allowance nowMs) ≠ none) :
    event.nowMs + millis cfg.openFor ≤ nowMs := by
  have hopenFor : (Support.run step (new cfg) before).openForMs =
      millis cfg.openFor := openForMs_run _ _
  rw [run_append, run_cons] at hprobe
  generalize Support.run step (new cfg) before = breaker at *
  rw [← hopenFor] at hroom ⊢
  simp only [List.pairwise_append, List.pairwise_cons, List.mem_append,
    List.mem_cons] at htimes hroom
  have hwaits := hevent.waits (hroom event (.inr (.inl rfl)))
  refine (hwaits.run (fun call hcall => ?_) fun call hcall => ?_).le_of_granted
    hprobe
  · rw [openForMs_step]
    exact Nat.add_le_add_right (htimes.2.1.1 call (.inl hcall)) _
  · rw [openForMs_step]
    exact hroom call (.inr (.inr (.inl hcall)))

/-- After the probe at the deadline, the next one is a full `open_for` later. -/
theorem probe_openFor_after_second_probe :
    let cfg : Config.Breaker := { enabled := true, minRequests := 1 }
    let before : List Call := [.record 0 false]
    (Support.run step (new cfg) before).granted (.allowance 30000) ≠ none ∧
      (Support.run step (new cfg) (before ++ [.allowance 30000])).granted
        (.allowance 60000) ≠ none ∧
      30000 + millis cfg.openFor ≤ 60000 := by
  intro cfg before
  have hfirst : (Support.run step (new cfg) before).granted
      (.allowance 30000) ≠ none := by decide
  have hsecond : (Support.run step (new cfg)
      (before ++ [.allowance 30000])).granted (.allowance 60000) ≠ none := by
    decide
  refine ⟨hfirst, hsecond, ?_⟩
  have hpairs : (before ++ Call.allowance 30000 ::
      ([] ++ [.allowance 60000])).Pairwise
        fun earlier later => earlier.nowMs ≤ later.nowMs := by decide
  exact probe_openFor_after hpairs (by decide) (.inl hfirst) hsecond

end Breaker

end Harmost.Upstream
