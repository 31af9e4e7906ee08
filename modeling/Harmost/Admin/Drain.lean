import Harmost.Support.Text
import Harmost.Support.Threads

/-!
# Draining

Between "stop sending me work" and "stop serving" the process drains: readiness
fails while everything is still served, so that a load balancer withdraws the
instance in its own time.  A drain begins with a signal, and a second one does
not restart it.  The instant and the reason are behind a lock; the flag that
readiness reads is not, and it is stored before the lock is released.

`SIGTERM` is handed on to the server only when the drain has gone on for its
period.  Threads that begin a drain, wait or ask for readiness take turns in any
order, and the clock goes on between the turns.
-/

namespace Harmost.Admin

open Harmost.Support

/-- `ShutdownSignal` of the server. -/
inductive ShutdownSignal where
  | gracefulUpgrade
  | gracefulTerminate
  | fastShutdown
  deriving DecidableEq

/-- Why readiness said no. -/
inductive NotReady where
  | draining
  | noHealthyUpstream
  deriving DecidableEq

structure DrainState where
  draining : Bool := false
  /-- When draining began, and why. -/
  since : Option (ℕ × Str) := none
  /-- Is the lock of `since` held? -/
  locked : Bool := false
  /-- The monotonic clock, in nanoseconds. -/
  clock : ℕ := 0

namespace Drain

/-- One access to the drain state or to the clock. -/
inductive Access where
  | lock
  | unlock
  | loadSince
  | storeSince (instant : ℕ) (reason : Str)
  | storeDraining
  | loadDraining
  | healthyCount
  | now
  /-- The deadline of a sleep that starts now. -/
  | sleep (duration : ℕ)
  /-- The end of a sleep. -/
  | wake (deadline : ℕ)
  /-- The signal reaches the server. -/
  | handOn (signal : ShutdownSignal)

/-- What an access returns.  Handing a signal on returns the time. -/
abbrev Reply : Access → Type
  | .loadSince => Option (ℕ × Str)
  | .loadDraining => Bool
  | .healthyCount | .now | .sleep _ | .handOn _ => ℕ
  | _ => Unit

/-- The time that passes before an access, and how many upstreams are healthy
then. -/
structure Outside where
  passed : ℕ := 0
  healthy : ℕ := 0

abbrev ask (query : Access) : Prog Reply (Reply query) :=
  Prog.ask query

/-- One access, when its time has come. -/
def answerNow (s : DrainState) (healthy : ℕ) :
    (query : Access) → Option (Reply query × DrainState)
  | .lock => if s.locked then none else some ((), { s with locked := true })
  | .unlock => some ((), { s with locked := false })
  | .loadSince => some (s.since, s)
  | .storeSince instant reason =>
      some ((), { s with since := some (instant, reason) })
  | .storeDraining => some ((), { s with draining := true })
  | .loadDraining => some (s.draining, s)
  | .healthyCount => some (healthy, s)
  | .now => some (s.clock, s)
  | .sleep duration => some (s.clock + duration, s)
  | .wake deadline => if deadline ≤ s.clock then some ((), s) else none
  | .handOn _ => some (s.clock, s)

def answer (s : DrainState) (query : Access) (outside : Outside) :
    Option (Reply query × DrainState) :=
  answerNow { s with clock := s.clock + outside.passed } outside.healthy query

/-! ## The methods -/

/-- The first reason and instant are kept. -/
def record (reason : Str) : Option (ℕ × Str) → Prog Reply Unit
  | none => do
      let instant : ℕ ← ask .now
      ask (.storeSince instant reason)
  | some _ => pure ()

/-- Enter drain state. -/
def begin (reason : Str) : Prog Reply Unit := do
  let _ ← ask .lock
  let since : Option (ℕ × Str) ← ask .loadSince
  let _ ← record reason since
  let _ ← ask .storeDraining
  ask .unlock

/-- The time since an instant.  The lock is held until it has been taken. -/
def elapsed : Option (ℕ × Str) → Prog Reply (Option ℕ)
  | none => pure none
  | some (instant, _) => do
      let now : ℕ ← ask .now
      pure (some (now - instant))

def drainingFor : Prog Reply (Option ℕ) := do
  let _ ← ask .lock
  let since : Option (ℕ × Str) ← ask .loadSince
  let result ← elapsed since
  let _ ← ask .unlock
  pure result

/-- `tokio::time::sleep`, if there is anything left to wait. -/
def sleep (remaining : ℕ) : Prog Reply Unit :=
  if remaining = 0 then pure ()
  else do
    let deadline : ℕ ← ask (.sleep remaining)
    ask (.wake deadline)

/-- `DrainShutdownSignalWatch::prepare`. -/
def prepare (drainPeriod : ℕ) (signal : ShutdownSignal) : Prog Reply Unit :=
  if signal ≠ .gracefulTerminate then do
    let _ ← ask (.handOn signal)
    pure ()
  else do
    let _ ← begin "sigterm".toList
    let elapsed ← drainingFor
    let _ ← sleep (drainPeriod - elapsed.getD 0)
    let _ ← ask (.handOn signal)
    pure ()

/-- The readiness decision. -/
def readiness (requireHealthyUpstream : Bool) :
    Prog Reply (Except NotReady Unit) := do
  let draining : Bool ← ask .loadDraining
  if draining then pure (.error .draining)
  else if requireHealthyUpstream then do
    let healthy : ℕ ← ask .healthyCount
    pure (if healthy = 0 then .error .noHealthyUpstream else .ok ())
  else pure (.ok ())

/-- What a thread is asked to do. -/
inductive Task where
  | sigusr1
  | signal (signal : ShutdownSignal)
  | readiness

/-- A thread keeps the last verdict on readiness that it got. -/
def body (drainPeriod : ℕ) (requireHealthyUpstream : Bool) :
    Task → Option (Except NotReady Unit) →
      Prog Reply (Option (Except NotReady Unit))
  | .sigusr1, verdict => do
      let _ ← begin "sigusr1".toList
      pure verdict
  | .signal signal, verdict => do
      let _ ← prepare drainPeriod signal
      pure verdict
  | .readiness, _ => do
      let verdict ← readiness requireHealthyUpstream
      pure (some verdict)

def component (drainPeriod : ℕ) (requireHealthyUpstream : Bool) :
    Component Reply DrainState Outside (Option (Except NotReady Unit)) Unit
      Task where
  answer := answer
  fresh := fun _ => none
  body := body drainPeriod requireHealthyUpstream

/-- The state after some moves. -/
def after (drainPeriod : ℕ) (requireHealthyUpstream : Bool)
    (moves : List (Move Outside Unit Task)) :
    World Reply DrainState (Option (Except NotReady Unit)) :=
  run (component drainPeriod requireHealthyUpstream).step ⟨{}, ∅, []⟩ moves

/-! ## What a thread knows -/

structure Account where
  /-- Does it hold the lock? -/
  holds : Bool := false
  /-- What it has seen behind the lock it holds. -/
  saw : Option (Option (ℕ × Str)) := none
  /-- Has it stored the flag? -/
  begun : Bool := false
  /-- The beginning of the drain, if it has read it. -/
  instant : Option ℕ := none
  /-- The latest time that it knows has come. -/
  clock : ℕ := 0

def discipline (drainPeriod : ℕ) : Discipline Reply Account where
  permits account
    | .lock => account.holds = false
    | .unlock => account.holds = true
    | .loadSince => account.holds = true
    | .storeSince instant _ =>
        account.holds = true ∧ account.saw = some none ∧
          instant ≤ account.clock
    | .storeDraining => account.holds = true ∧
        ∃ since, account.saw = some (some since)
    | .handOn .gracefulTerminate => account.begun = true ∧
        ∃ instant ∈ account.instant, instant + drainPeriod ≤ account.clock
    | _ => True
  expects account
    | .loadSince, since => account.begun = true → since ≠ none
    | .now, now => account.clock ≤ now ∧
        ∀ instant ∈ account.instant, instant ≤ now
    | .sleep duration, deadline => account.clock + duration ≤ deadline
    | .handOn _, now => account.clock ≤ now
    | _, _ => True
  next account
    | .lock, _ => { account with holds := true, saw := none }
    | .unlock, _ => { account with holds := false, saw := none }
    | .loadSince, since =>
        { account with saw := some since, instant := since.map Prod.fst }
    | .storeSince instant reason, _ =>
        { account with
          saw := some (some (instant, reason))
          instant := some instant }
    | .storeDraining, _ => { account with begun := true }
    | .now, now => { account with clock := now }
    | .wake deadline, _ => { account with clock := max account.clock deadline }
    | _, _ => account

variable {drainPeriod : ℕ} {account : Account}

theorem obeys_record (reason : Str) {since : Option (ℕ × Str)}
    (hholds : account.holds = true) (hsaw : account.saw = some since) :
    (discipline drainPeriod).Obeys
      (fun account' _ => account'.holds = true ∧
        ∃ since', account'.saw = some (some since'))
      account (record reason since) := by
  cases since with
  | none =>
      refine Discipline.obeys_ask.mpr ⟨trivial, fun instant _ => ?_⟩
      exact ⟨⟨hholds, hsaw, le_rfl⟩, fun _ _ => ⟨hholds, _, rfl⟩⟩
  | some since => exact ⟨hholds, since, hsaw⟩

theorem obeys_begin (reason : Str) (hfree : account.holds = false) :
    (discipline drainPeriod).Obeys
      (fun account' _ => account'.holds = false ∧ account'.begun = true)
      account (begin reason) := by
  refine Discipline.obeys_ask.mpr ⟨hfree, fun _ _ => ?_⟩
  refine Discipline.obeys_ask.mpr ⟨rfl, fun since _ => ?_⟩
  refine Discipline.obeys_bind.mpr ((obeys_record reason rfl rfl).mono ?_)
  rintro account' _ ⟨hholds, hsaw⟩
  refine Discipline.obeys_ask.mpr ⟨⟨hholds, hsaw⟩, fun _ _ => ?_⟩
  exact ⟨hholds, fun _ _ => ⟨rfl, rfl⟩⟩

/-- After a drain has begun there is an instant to count from. -/
theorem obeys_drainingFor (hfree : account.holds = false)
    (hbegun : account.begun = true) :
    (discipline drainPeriod).Obeys
      (fun account' result => account'.holds = false ∧ account'.begun = true ∧
        ∃ instant ∈ account'.instant, instant ≤ account'.clock ∧
          result = some (account'.clock - instant))
      account drainingFor := by
  refine Discipline.obeys_ask.mpr ⟨hfree, fun _ _ => ?_⟩
  refine Discipline.obeys_ask.mpr ⟨rfl, fun since hsince => ?_⟩
  cases since with
  | none => exact absurd rfl (hsince hbegun)
  | some since =>
      refine Discipline.obeys_ask.mpr ⟨trivial, fun now hnow => ?_⟩
      refine Discipline.obeys_ask.mpr ⟨rfl, fun _ _ => ?_⟩
      exact ⟨rfl, hbegun, since.1, rfl, hnow.2 since.1 rfl, rfl⟩

theorem obeys_sleep (hfree : account.holds = false)
    (hbegun : account.begun = true) {instant : ℕ}
    (hinstant : instant ∈ account.instant) (hle : instant ≤ account.clock) :
    (discipline drainPeriod).Obeys
      (fun account' _ => account'.holds = false ∧ account'.begun = true ∧
        ∃ instant ∈ account'.instant,
          instant + drainPeriod ≤ account'.clock)
      account (sleep (drainPeriod - (account.clock - instant))) := by
  rw [sleep]
  split
  · exact ⟨hfree, hbegun, instant, hinstant, by omega⟩
  · refine Discipline.obeys_ask.mpr ⟨trivial, fun deadline hdeadline => ?_⟩
    refine ⟨trivial, fun _ _ => ⟨hfree, hbegun, instant, hinstant, ?_⟩⟩
    refine le_trans ?_ (le_max_right _ _)
    have hlater : account.clock + (drainPeriod - (account.clock - instant)) ≤
        deadline := hdeadline
    omega

theorem obeys_prepare (signal : ShutdownSignal)
    (hfree : account.holds = false) :
    (discipline drainPeriod).Obeys (fun account' _ => account'.holds = false)
      account (prepare drainPeriod signal) := by
  cases signal with
  | gracefulUpgrade | fastShutdown => exact ⟨trivial, fun _ _ => hfree⟩
  | gracefulTerminate =>
      rw [prepare, if_neg (not_not.mpr rfl), Discipline.obeys_bind]
      refine (obeys_begin _ hfree).mono ?_
      rintro account' _ ⟨hfree', hbegun⟩
      rw [Discipline.obeys_bind]
      refine (obeys_drainingFor hfree' hbegun).mono ?_
      rintro account' _ ⟨hfree', hbegun, instant, hinstant, hle, rfl⟩
      rw [Option.getD_some, Discipline.obeys_bind]
      refine (obeys_sleep hfree' hbegun hinstant hle).mono ?_
      rintro account' _ ⟨hfree', hpermits⟩
      exact ⟨hpermits, fun _ _ => hfree'⟩

theorem obeys_readiness (requireHealthyUpstream : Bool)
    (hfree : account.holds = false) :
    (discipline drainPeriod).Obeys (fun account' _ => account'.holds = false)
      account (readiness requireHealthyUpstream) := by
  refine Discipline.obeys_ask.mpr ⟨trivial, fun draining _ => ?_⟩
  cases draining with
  | true => exact hfree
  | false =>
      cases requireHealthyUpstream with
      | true => exact ⟨trivial, fun _ _ => hfree⟩
      | false => exact hfree

theorem obeys_body (requireHealthyUpstream : Bool) (task : Task)
    (account : Account) (verdict : Option (Except NotReady Unit))
    (hfree : account.holds = false) :
    (discipline drainPeriod).Obeys (fun account' _ => account'.holds = false)
      account (body drainPeriod requireHealthyUpstream task verdict) := by
  cases task with
  | sigusr1 =>
      refine Discipline.obeys_bind.mpr ((obeys_begin _ hfree).mono ?_)
      exact fun _ _ h => h.1
  | signal signal =>
      exact Discipline.obeys_bind.mpr (obeys_prepare signal hfree)
  | readiness => exact Discipline.obeys_bind.mpr (obeys_readiness _ hfree)

/-! ## All threads -/

/-- What a thread believes is so. -/
structure Knows (s : DrainState) (account : Account) : Prop where
  clock : account.clock ≤ s.clock
  begun : account.begun = true → s.draining = true
  instant : ∀ instant ∈ account.instant,
    ∃ reason, s.since = some (instant, reason)
  saw : ∀ since, account.saw = some since →
    account.holds = true ∧ s.since = since

/-- A drain goes on, since the instant and for the reason that it began. -/
structure Later (s s' : DrainState) : Prop where
  clock : s.clock ≤ s'.clock
  draining : s.draining = true → s'.draining = true
  since : ∀ since ∈ s.since, s'.since = some since

theorem Later.trans {s s' s'' : DrainState} (h : Later s s')
    (h' : Later s' s'') : Later s s'' where
  clock := h.clock.trans h'.clock
  draining := fun hdraining => h'.draining (h.draining hdraining)
  since := fun since hsince => h'.since since (h.since since hsince)

variable {s s' : DrainState}

theorem later_pass (s : DrainState) (passed : ℕ) :
    Later s { s with clock := s.clock + passed } :=
  ⟨Nat.le_add_right _ _, id, fun _ => id⟩

/-- What others do does not make wrong what a thread believes. -/
theorem Knows.later (h : Knows s account) (hlater : Later s s')
    (hsince : s'.since = s.since ∨ account.holds = false) :
    Knows s' account where
  clock := h.clock.trans hlater.clock
  begun := fun hbegun => hlater.draining (h.begun hbegun)
  instant := by
    intro instant hinstant
    obtain ⟨reason, hsome⟩ := h.instant instant hinstant
    exact ⟨reason, hlater.since _ hsome⟩
  saw := by
    intro since hsaw
    obtain ⟨hholds, hseen⟩ := h.saw since hsaw
    rcases hsince with hsame | hfree
    · exact ⟨hholds, hsame.trans hseen⟩
    · exact absurd (hfree.symm.trans hholds) Bool.false_ne_true

/-- The state after an access. -/
def effect (s : DrainState) : Access → DrainState
  | .lock => { s with locked := true }
  | .unlock => { s with locked := false }
  | .storeSince instant reason => { s with since := some (instant, reason) }
  | .storeDraining => { s with draining := true }
  | _ => s

variable {query : Access} {outside : Outside} {reply : Reply query}

/-- What an answer says: the lock was free, the deadline has passed, and the
values are the current ones. -/
def Says (s : DrainState) : (query : Access) → Reply query → Prop
  | .lock, _ => s.locked = false
  | .loadSince, since => since = s.since
  | .loadDraining, draining => draining = s.draining
  | .now, now => now = s.clock
  | .sleep duration, deadline => deadline = s.clock + duration
  | .wake deadline, _ => deadline ≤ s.clock
  | .handOn _, now => now = s.clock
  | _, _ => True

theorem answer_spec (h : answer s query outside = some (reply, s')) :
    Says { s with clock := s.clock + outside.passed } query reply ∧
      s' = effect { s with clock := s.clock + outside.passed } query := by
  rw [answer] at h
  generalize { s with clock := s.clock + outside.passed } = now at h ⊢
  cases query with
  | lock =>
      rw [answerNow] at h
      split at h
      · cases h
      · rename_i hfree
        cases h
        exact ⟨Bool.eq_false_of_not_eq_true hfree, rfl⟩
  | wake deadline =>
      rw [answerNow] at h
      split at h
      · cases h
        exact ⟨‹_›, rfl⟩
      · cases h
  | unlock | storeSince | storeDraining | healthyCount =>
      cases h
      exact ⟨trivial, rfl⟩
  | loadSince | loadDraining | now | sleep | handOn =>
      cases h
      exact ⟨rfl, rfl⟩

theorem later_effect (hknows : Knows s account)
    (hpermits : (discipline drainPeriod).permits account query) :
    Later s (effect s query) := by
  cases query with
  | storeSince instant reason =>
      have hnone := (hknows.saw none hpermits.2.1).2
      refine ⟨le_rfl, id, fun since hsome => ?_⟩
      exact absurd (hnone.symm.trans hsome) (Option.some_ne_none _).symm
  | storeDraining => exact ⟨le_rfl, fun _ => rfl, fun _ => id⟩
  | _ => exact ⟨le_rfl, id, fun _ => id⟩

/-- Only the holder of the lock changes what is behind it. -/
theorem since_effect
    (hpermits : (discipline drainPeriod).permits account query) :
    (effect s query).since = s.since ∨ account.holds = true := by
  cases query with
  | storeSince => exact .inr hpermits.1
  | _ => exact .inl rfl

/-- A thread learns what is so. -/
theorem knows_next (hknows : Knows s account)
    (hpermits : (discipline drainPeriod).permits account query)
    (htold : Says s query reply) :
    Knows (effect s query)
      ((discipline drainPeriod).next account query reply) := by
  cases query with
  | lock | unlock => exact ⟨hknows.clock, hknows.begun, hknows.instant, nofun⟩
  | loadSince =>
      obtain rfl : reply = s.since := htold
      refine ⟨hknows.clock, hknows.begun, fun instant hinstant => ?_, ?_⟩
      · obtain ⟨since, hsince, rfl⟩ := Option.map_eq_some_iff.mp hinstant
        exact ⟨since.2, hsince⟩
      · exact fun since h => ⟨hpermits, Option.some.inj h⟩
  | storeSince instant reason =>
      refine ⟨hknows.clock, hknows.begun, fun instant' h => ?_, ?_⟩
      · cases h
        exact ⟨reason, rfl⟩
      · exact fun since h => ⟨hpermits.1, Option.some.inj h⟩
  | storeDraining =>
      exact ⟨hknows.clock, fun _ => rfl, hknows.instant, hknows.saw⟩
  | now =>
      obtain rfl : reply = s.clock := htold
      exact ⟨le_rfl, hknows.begun, hknows.instant, hknows.saw⟩
  | wake deadline =>
      exact ⟨max_le hknows.clock htold, hknows.begun, hknows.instant,
        hknows.saw⟩
  | loadDraining | healthyCount | sleep | handOn => exact hknows

/-- The drain as it is, and as the threads know it. -/
structure Inv (drainPeriod : ℕ) (s : DrainState)
    (log : List (ℕ × Sigma Reply)) (accounts : AssocMap ℕ Account) : Prop where
  locked : accounts.total (fun _ account => account.holds.toNat) =
    s.locked.toNat
  knows : ∀ thread account, accounts.lookup thread = some account →
    Knows s account
  began : s.draining = true → s.since ≠ none
  past : ∀ since ∈ s.since, since.1 ≤ s.clock
  handed : ∀ thread now,
    (thread, ⟨.handOn .gracefulTerminate, now⟩) ∈ log →
      s.draining = true ∧
        ∃ since ∈ s.since, since.1 + drainPeriod ≤ now

variable {log : List (ℕ × Sigma Reply)} {accounts : AssocMap ℕ Account}
  {thread : ℕ}

/-- Time passes. -/
theorem Inv.pass (h : Inv drainPeriod s log accounts) (passed : ℕ) :
    Inv drainPeriod { s with clock := s.clock + passed } log accounts where
  locked := h.locked
  knows := fun thread account hlookup =>
    (h.knows thread account hlookup).later (later_pass s passed) (.inl rfl)
  began := h.began
  past := fun since hsince => (h.past since hsince).trans (Nat.le_add_right _ _)
  handed := h.handed

theorem Inv.expects (h : Inv drainPeriod s log accounts)
    (hlookup : accounts.lookup thread = some account)
    (htold : Says s query reply) :
    (discipline drainPeriod).expects account query reply := by
  have hknows := h.knows thread account hlookup
  cases query with
  | loadSince =>
      obtain rfl : reply = s.since := htold
      exact fun hbegun => h.began (hknows.begun hbegun)
  | now =>
      obtain rfl : reply = s.clock := htold
      refine ⟨hknows.clock, fun instant hinstant => ?_⟩
      obtain ⟨reason, hsince⟩ := hknows.instant instant hinstant
      exact h.past _ hsince
  | sleep duration =>
      obtain rfl : reply = s.clock + duration := htold
      exact Nat.add_le_add_right hknows.clock _
  | handOn signal =>
      obtain rfl : reply = s.clock := htold
      exact hknows.clock
  | _ => trivial

/-- While one thread holds the lock no other does. -/
theorem Inv.holds_eq_false (h : Inv drainPeriod s log accounts) {other : ℕ}
    {account' : Account} (hlookup : accounts.lookup thread = some account)
    (hother : accounts.lookup other = some account') (hne : other ≠ thread)
    (hholds : account.holds = true) : account'.holds = false := by
  have htwo := AssocMap.add_le_total
    (fun _ (account : Account) => account.holds.toNat) hne hlookup hother
  have hone := Bool.toNat_le s.locked
  rw [h.locked, hholds] at htwo
  cases hother' : account'.holds with
  | false => rfl
  | true =>
      rw [hother'] at htwo
      simp only [Bool.toNat_true] at htwo
      omega

theorem holds_next (hpermits : (discipline drainPeriod).permits account query)
    (htold : Says s query reply) (hle : account.holds.toNat ≤ s.locked.toNat) :
    ((discipline drainPeriod).next account query reply).holds.toNat +
        s.locked.toNat =
      account.holds.toNat + (effect s query).locked.toNat := by
  cases query with
  | lock =>
      have hfree : s.locked = false := htold
      have hholds : account.holds = false := hpermits
      rw [hfree, hholds]
      rfl
  | unlock =>
      have hholds : account.holds = true := hpermits
      rw [hholds] at hle ⊢
      have hone := Bool.toNat_le s.locked
      change 0 + s.locked.toNat = 1 + 0
      simp only [Bool.toNat_true] at hle
      omega
  | _ => rfl

section

variable (h : Inv drainPeriod s log accounts)
  (hlookup : accounts.lookup thread = some account)
include h hlookup

/-- The flag is stored with an instant behind it. -/
theorem Inv.began_effect
    (hpermits : (discipline drainPeriod).permits account query) :
    (effect s query).draining = true → (effect s query).since ≠ none := by
  cases query with
  | storeSince => exact fun _ => Option.some_ne_none _
  | storeDraining =>
      obtain ⟨-, since, hsaw⟩ := hpermits
      have hsince := ((h.knows thread account hlookup).saw _ hsaw).2
      exact fun _ hnone => Option.some_ne_none _ (hsince.symm.trans hnone)
  | _ => exact h.began

theorem Inv.past_effect
    (hpermits : (discipline drainPeriod).permits account query) :
    ∀ since ∈ (effect s query).since, since.1 ≤ (effect s query).clock := by
  cases query with
  | storeSince instant reason =>
      intro since hsince
      cases hsince
      exact hpermits.2.2.trans (h.knows thread account hlookup).clock
  | _ => exact h.past

/-- A drain that `SIGTERM` has waited for. -/
theorem Inv.handed_now (hpermits : (discipline drainPeriod).permits account
      (.handOn .gracefulTerminate)) :
    s.draining = true ∧
      ∃ since ∈ s.since, since.1 + drainPeriod ≤ s.clock := by
  obtain ⟨hbegun, instant, hinstant, hle⟩ := hpermits
  have hknows := h.knows thread account hlookup
  obtain ⟨reason, hsince⟩ := hknows.instant instant hinstant
  exact ⟨hknows.begun hbegun, _, hsince, hle.trans hknows.clock⟩

theorem Inv.turn (hpermits : (discipline drainPeriod).permits account query)
    (htold : Says s query reply) :
    Inv drainPeriod (effect s query) ((thread, ⟨query, reply⟩) :: log)
      (accounts.insert thread
        ((discipline drainPeriod).next account query reply)) := by
  have hknows := h.knows thread account hlookup
  have hlater := later_effect hknows hpermits
  refine ⟨?_, fun other account' hother => ?_, h.began_effect hlookup hpermits,
    h.past_effect hlookup hpermits, fun other now hentry => ?_⟩
  · have hinsert := AssocMap.total_insert
      (fun _ (account : Account) => account.holds.toNat) hlookup
      ((discipline drainPeriod).next account query reply)
    have hle := AssocMap.le_total
      (fun _ (account : Account) => account.holds.toNat) hlookup
    have hlocked := h.locked
    have hnext := holds_next hpermits htold (hle.trans_eq hlocked)
    omega
  · rcases AssocMap.lookup_insert_cases hother with ⟨-, rfl⟩ | ⟨hne, hbefore⟩
    · exact knows_next hknows hpermits htold
    · refine (h.knows other account' hbefore).later hlater ?_
      exact (since_effect hpermits).imp id
        (h.holds_eq_false hlookup hbefore hne)
  · have hhanded : s.draining = true ∧
        ∃ since ∈ s.since, since.1 + drainPeriod ≤ now := by
      rcases List.mem_cons.mp hentry with hnew | hbefore
      · obtain ⟨-, hsigma⟩ := Prod.ext_iff.mp hnew
        cases hsigma
        obtain rfl : now = s.clock := htold
        exact h.handed_now hlookup hpermits
      · exact h.handed other now hbefore
    obtain ⟨hdraining, since, hsince, hle⟩ := hhanded
    exact ⟨hlater.draining hdraining, since, hlater.since since hsince, hle⟩

end

theorem keeps (drainPeriod : ℕ) (requireHealthyUpstream : Bool) :
    (component drainPeriod requireHealthyUpstream).Keeps
      (discipline drainPeriod) (fun _ => {})
      (fun account _ => account.holds = false) (Inv drainPeriod) where
  fresh := fun _ => rfl
  body := obeys_body requireHealthyUpstream
  spawn := by
    intro s log accounts thread _ h hnew
    refine ⟨?_, fun other account hother => ?_, h.began, h.past, h.handed⟩
    · rw [AssocMap.total_insert_of_notMem _ (AList.lookup_eq_none.mp hnew),
        h.locked]
      exact Nat.zero_add _
    · rcases AssocMap.lookup_insert_cases hother with ⟨-, rfl⟩ | ⟨-, hbefore⟩
      · exact ⟨Nat.zero_le _, nofun, nofun, nofun⟩
      · exact h.knows other account hbefore
  turn := by
    intro s log accounts thread account query outside reply s' h hlookup
      hpermits hanswer
    obtain ⟨htold, rfl⟩ := answer_spec hanswer
    have hpassed := h.pass outside.passed
    exact ⟨hpassed.expects hlookup htold, hpassed.turn hlookup hpermits htold⟩

/-- The threads know what they should. -/
def Sound (drainPeriod : ℕ)
    (w : World Reply DrainState (Option (Except NotReady Unit))) : Prop :=
  ∃ accounts, Component.Accounted (discipline drainPeriod)
      (fun _ : Unit => {}) (fun account _ => account.holds = false) w
      accounts ∧ Inv drainPeriod w.object w.log accounts

variable {requireHealthyUpstream : Bool}

theorem sound_after (moves : List (Move Outside Unit Task)) :
    Sound drainPeriod (after drainPeriod requireHealthyUpstream moves) := by
  refine (keeps drainPeriod requireHealthyUpstream).run _
    ⟨∅, Component.accounted_empty _, ?_⟩ moves
  exact ⟨rfl, nofun, nofun, nofun, nofun⟩

/-- When `SIGTERM` reaches the server, the drain has been on record for its
period, and readiness fails. -/
theorem sigterm_after_drainPeriod (drainPeriod : ℕ)
    (requireHealthyUpstream : Bool) (moves : List (Move Outside Unit Task))
    (thread now : ℕ)
    (hentry : (thread, ⟨.handOn .gracefulTerminate, now⟩) ∈
      (after drainPeriod requireHealthyUpstream moves).log) :
    let s := (after drainPeriod requireHealthyUpstream moves).object
    s.draining = true ∧
      ∃ instant reason, s.since = some (instant, reason) ∧
        instant + drainPeriod ≤ now := by
  obtain ⟨accounts, -, hinv⟩ := sound_after moves
  obtain ⟨hdraining, since, hsince, hle⟩ := hinv.handed thread now hentry
  exact ⟨hdraining, since.1, since.2, hsince, hle⟩

/-- A `SIGTERM` that waits for the end of its period. -/
def terminates : List (Move Outside Unit Task) :=
  .spawn 0 () :: .call 0 (.signal .gracefulTerminate) ::
    (List.replicate 11 (.turn 0 { passed := 1 }) ++
      List.replicate 2 (.turn 0 { passed := 14 }))

theorem sigterm_after_drainPeriod_terminates :
    (after 20 false terminates).object.draining = true ∧
      ∃ instant reason, (after 20 false terminates).object.since =
          some (instant, reason) ∧ instant + 20 ≤ 39 :=
  sigterm_after_drainPeriod 20 false terminates 0 39
    (List.mem_cons_self (l := (after 20 false terminates.dropLast).log))

/-- What a move adds to the log. -/
def Reads (s : DrainState) (log log' : List (ℕ × Sigma Reply)) : Prop :=
  log' = log ∨ ∃ entry, log' = entry :: log ∧
    ∀ draining, entry.2 = ⟨.loadDraining, draining⟩ → draining = s.draining

variable {w w' : World Reply DrainState (Option (Except NotReady Unit))}

theorem later_step (h : Sound drainPeriod w)
    (hstep : (component drainPeriod requireHealthyUpstream).Step w w') :
    Later w.object w'.object ∧ Reads w.object w.log w'.log := by
  obtain ⟨accounts, haccounts, hinv⟩ := h
  cases hstep with
  | idle | spawn | call => exact ⟨⟨le_rfl, id, fun _ => id⟩, .inl rfl⟩
  | turn hthread hanswer =>
      obtain ⟨account, hlookup, hobeys, -⟩ := haccounts.exists_account hthread
      obtain ⟨htold, rfl⟩ := answer_spec hanswer
      refine ⟨(later_pass _ _).trans (later_effect
          ((hinv.pass _).knows _ account hlookup) hobeys.1),
        .inr ⟨_, rfl, fun draining hentry => ?_⟩⟩
      cases hentry
      exact htold

/-- Once draining, the process goes on draining, since the instant and for the
reason that the drain began with, and whoever asks for readiness from then on
reads that it drains. -/
theorem drain_goes_on (drainPeriod : ℕ) (requireHealthyUpstream : Bool)
    (moves later : List (Move Outside Unit Task)) :
    let w := after drainPeriod requireHealthyUpstream moves
    let w' := after drainPeriod requireHealthyUpstream (moves ++ later)
    Later w.object w'.object ∧
      (w.object.draining = true → w.object.since ≠ none ∧
        ∃ newer, w'.log = newer ++ w.log ∧
          ∀ thread draining,
            (thread, ⟨.loadDraining, draining⟩) ∈ newer → draining = true) := by
  intro w w'
  have hw : Sound drainPeriod w := sound_after moves
  have hrun : w' = run (component drainPeriod requireHealthyUpstream).step w
      later := run_append _ _ moves later
  have hkept : Sound drainPeriod w' ∧ Later w.object w'.object ∧
      (w.object.draining = true → ∃ newer, w'.log = newer ++ w.log ∧
        ∀ thread draining,
          (thread, ⟨.loadDraining, draining⟩) ∈ newer → draining = true) := by
    rw [hrun]
    refine run_invariant (P := fun w' => Sound drainPeriod w' ∧
      Later w.object w'.object ∧
      (w.object.draining = true → ∃ newer, w'.log = newer ++ w.log ∧
        ∀ thread draining,
          (thread, ⟨.loadDraining, draining⟩) ∈ newer → draining = true)) ?_
      ⟨hw, ⟨le_rfl, id, fun _ => id⟩, fun _ => ⟨[], rfl, by simp⟩⟩ later
    rintro w₁ move ⟨hsound, hlater, hlog⟩
    have hstep := (component drainPeriod requireHealthyUpstream).step_spec w₁
      move
    obtain ⟨hnext, hreads⟩ := later_step hsound hstep
    refine ⟨(keeps drainPeriod requireHealthyUpstream).step hstep hsound,
      hlater.trans hnext, fun hdraining => ?_⟩
    obtain ⟨newer, hnewer, htrue⟩ := hlog hdraining
    rcases hreads with hsame | ⟨entry, hcons, hread⟩
    · exact ⟨newer, hsame.trans hnewer, htrue⟩
    · refine ⟨entry :: newer, by rw [hcons, hnewer]; rfl, ?_⟩
      intro thread draining hmem
      rcases List.mem_cons.mp hmem with rfl | hbefore
      · exact (hread draining rfl).trans (hlater.draining hdraining)
      · exact htrue thread draining hbefore
  obtain ⟨accounts, -, hinv⟩ := hw
  exact ⟨hkept.2.1, fun hdraining => ⟨hinv.began hdraining,
    hkept.2.2 hdraining⟩⟩

theorem drain_goes_on_terminates :
    ∃ newer, (after 20 false (terminates ++
        [.call 0 .readiness, .turn 0 {}])).log =
          newer ++ (after 20 false terminates).log ∧
      ∀ thread draining,
        (thread, ⟨.loadDraining, draining⟩) ∈ newer → draining = true :=
  ((drain_goes_on 20 false terminates [.call 0 .readiness, .turn 0 {}]).2
    (by rfl)).2

end Drain

end Harmost.Admin
