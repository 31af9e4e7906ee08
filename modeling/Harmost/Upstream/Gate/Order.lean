import Harmost.Upstream.Gate

/-!
# The calls of a breaker have an order

Calls of a breaker overlap, and only some of them take its lock.  Still there
is one order of all calls in which each takes effect at once, between its
beginning and its end, and returns what the breaker returns when it is called
in that order.  The order is read off the accesses:

* an allowance takes effect with the load that answers it, and one that is
  granted the probe with the store of the new deadline;
* the record of an outcome takes effect with the load of the deadline or, after
  a failure, with the totals below the threshold or the attempt to open;
* the report of a probe takes effect with the load of another token, or with
  the store of the deadline.

Whoever holds the lock may be between the accesses of a transition.  The
invariant says for each stage how far the breaker of the order is then ahead of
the one in memory.
-/

namespace Harmost.Upstream

open Harmost.Support

namespace Gate

open Breaker (Call Transition)

/-! ## The order -/

def draws : Access → ℕ
  | .nextProbe => 1
  | _ => 0

/-- How many tokens have been drawn. -/
def drawn : List (ℕ × Sigma Reply) → ℕ
  | [] => 0
  | (_, entry) :: log => draws entry.1 + drawn log

/-- The call that takes effect with an access, and its answer.  A probe takes
effect before its token is drawn. -/
def point (breaker : Breaker) (drawn : ℕ) :
    Stage → (query : Access) → Reply query → Option Answered
  | .expired nowMs, .storeUntil _, _ =>
      some (.allowance nowMs, some (.probe ⟨drawn + 1⟩))
  | .claimed _, .nextProbe, _ => none
  | stage, query, reply => (go breaker stage query reply).2

/-- What a thread has come to by its own accesses. -/
def accountOf (breaker : Breaker) (thread : ℕ) :
    List (ℕ × Sigma Reply) → Account
  | [] => {}
  | (other, ⟨query, reply⟩) :: log =>
      if other = thread then
        (accountOf breaker thread log).next breaker query reply
      else accountOf breaker thread log

/-- The calls in the order they take effect in, the latest first. -/
def history (breaker : Breaker) :
    List (ℕ × Sigma Reply) → List (ℕ × Answered)
  | [] => []
  | (thread, ⟨query, reply⟩) :: log =>
      ((point breaker (drawn log) (accountOf breaker thread log).stage query
        reply).map (thread, ·)).toList ++ history breaker log

/-- The calls of one thread. -/
def entriesOf (thread : ℕ) (history : List (ℕ × Answered)) : List Answered :=
  history.filterMap fun entry =>
    if entry.1 = thread then some entry.2 else none

/-- What a call returns. -/
def answerTo (b : Breaker) : Call → Answer
  | .allowance nowMs => some (b.allowance nowMs).1
  | _ => none

/-- The calls, made one after the other, have these answers and lead to `b`. -/
inductive Explains (start : Breaker) : List (ℕ × Answered) → Breaker → Prop
  | nil : Explains start [] start
  | cons {history : List (ℕ × Answered)} {b b' : Breaker} {call : Call}
      (thread : ℕ) (h : Explains start history b)
      (htransition : Transition b call b') :
      Explains start ((thread, call, answerTo b call) :: history) b'

/-! ## What a thread knows -/

/-- The probes of the two breakers are the same. -/
def Agree (s : Gate) (b : Breaker) : Prop :=
  b.nextProbe = s.nextProbe ∧ b.activeProbe = s.activeProbe

/-- What holds while a thread with the lock is at a stage. -/
def Facts (s : Gate) (b : Breaker) : Stage → Prop
  | .locked _ | .releasing => Agree s b
  | .expired nowMs => Agree s b ∧ s.openUntilMs ≠ 0 ∧ s.openUntilMs ≤ nowMs
  | .claimed _ =>
      b.nextProbe = s.nextProbe + 1 ∧ b.activeProbe = s.nextProbe + 1
  | .drawn probe =>
      s.nextProbe = probe + 1 ∧ b.nextProbe = probe + 1 ∧
        b.activeProbe = probe + 1
  | .matched _ token _ => Agree s b ∧ s.activeProbe = token.value
  | .cleared _ token _ =>
      b.nextProbe = s.nextProbe ∧ b.activeProbe = token.value ∧
        s.activeProbe = 0
  | _ => True

/-- The breaker in memory and the one of the order, for one thread. -/
structure View (breaker : Breaker) (s : Gate) (b : Breaker) (stage : Stage) :
    Prop where
  enabled : b.enabled = breaker.enabled
  openForMs : b.openForMs = breaker.openForMs
  openUntilMs : b.openUntilMs = s.openUntilMs
  quiet : s.locked = false → Agree s b
  facts : Facts s b stage
  locked : stage.holds = true → s.locked = true
  on : stage ≠ .settled → breaker.enabled = true

/-- The answers of a thread, with the one it is about to be told. -/
def told (s : Gate) (account : Account) : List Answered :=
  match account.stage with
  | .claimed nowMs =>
      (.allowance nowMs, some (.probe ⟨s.nextProbe + 1⟩)) :: account.results
  | _ => account.results

/-- Opened breakers that are not counted yet. -/
def Stage.pending : Stage → ℕ
  | .tripped => 1
  | _ => 0

/-- What an access without the lock leaves as it is. -/
structure Frame (s s' : Gate) (b b' : Breaker) : Prop where
  nextProbe : s'.nextProbe = s.nextProbe
  activeProbe : s'.activeProbe = s.activeProbe
  nextProbe' : b'.nextProbe = b.nextProbe
  activeProbe' : b'.activeProbe = b.activeProbe
  openUntilMs : s.openUntilMs ≠ 0 → s'.openUntilMs = s.openUntilMs
  locked : s.locked = true → s'.locked = true

/-- The call that takes effect, if there is one, is a call of the breaker of
the order. -/
def Explained (b b' : Breaker) : Option Answered → Prop
  | none => b' = b
  | some (call, answer) => answer = answerTo b call ∧ Transition b call b'

/-- What one access does: it takes a thread from one account to another, and
with it a call may take effect. -/
structure Sound (breaker : Breaker) (s : Gate) (b : Breaker)
    (account account' : Account) (effect : Option Answered) (query : Access)
    (s' : Gate) (b' : Breaker) : Prop where
  explained : Explained b b' effect
  view : View breaker s' b' account'.stage
  told : told s' account' = effect.toList ++ told s account
  frame : account.stage.holds = false → Frame s s' b b'
  acquires : account'.stage.holds = true →
    account.stage.holds = true ∨ s.locked = false
  draws : draws query + s.nextProbe = s'.nextProbe
  trips : b'.trips + s.trips + account.stage.pending =
    b.trips + s'.trips + account'.stage.pending

/-! ## The invariant -/

/-- The accesses so far have an order that `b` is the outcome of. -/
structure Linear (breaker : Breaker) (s : Gate) (log : List (ℕ × Sigma Reply))
    (b : Breaker) : Prop where
  explains : Explains breaker (history breaker log) b
  view : ∀ thread, View breaker s b (accountOf breaker thread log).stage
  told : ∀ thread, entriesOf thread (history breaker log) =
    told s (accountOf breaker thread log)
  alone : ∀ thread other,
    (accountOf breaker thread log).stage.holds = true →
      (accountOf breaker other log).stage.holds = true → thread = other
  drawn : drawn log = s.nextProbe

variable {breaker : Breaker} {s s' : Gate} {b b' : Breaker} {stage : Stage}
  {account account' : Account} {effect : Option Answered} {query : Access}
  {reply : Reply query} {log : List (ℕ × Sigma Reply)} {thread other : ℕ}

theorem facts_of_not_holds (h : stage.holds = false) : Facts s b stage := by
  cases stage <;> trivial

/-- A thread with the lock can rely on what it knows. -/
theorem Frame.facts (h : Frame s s' b b') (hfacts : Facts s b stage) :
    Facts s' b' stage := by
  obtain ⟨hnext, hactive, hnext', hactive', huntil, -⟩ := h
  cases stage with
  | expired nowMs =>
      obtain ⟨hagree, hne, hle⟩ := hfacts
      simpa only [Facts, Agree, hnext, hactive, hnext', hactive', huntil hne]
        using ⟨hagree, hne, hle⟩
  | _ =>
      first
      | exact trivial
      | simpa only [Facts, Agree, hnext, hactive, hnext', hactive'] using hfacts

theorem told_of_not_holds (h : account.stage.holds = false) (s s' : Gate) :
    told s account = told s' account := by
  unfold told
  split
  · rename_i hstage
    rw [hstage] at h
    cases h
  · rfl

theorem told_congr (h : s'.nextProbe = s.nextProbe) (account : Account) :
    told s' account = told s account := by
  simp only [told, h]

theorem accountOf_cons_self :
    accountOf breaker thread ((thread, ⟨query, reply⟩) :: log) =
      (accountOf breaker thread log).next breaker query reply :=
  if_pos rfl

theorem accountOf_cons_of_ne (hne : thread ≠ other) :
    accountOf breaker other ((thread, ⟨query, reply⟩) :: log) =
      accountOf breaker other log :=
  if_neg hne

theorem entriesOf_point_self (effect : Option Answered)
    (history : List (ℕ × Answered)) :
    entriesOf thread ((effect.map (thread, ·)).toList ++ history) =
      effect.toList ++ entriesOf thread history := by
  cases effect <;> simp [entriesOf]

theorem entriesOf_point_of_ne (hne : thread ≠ other)
    (effect : Option Answered) (history : List (ℕ × Answered)) :
    entriesOf other ((effect.map (thread, ·)).toList ++ history) =
      entriesOf other history := by
  cases effect <;> simp [entriesOf, hne]

theorem Explains.explained {history : List (ℕ × Answered)}
    (h : Explains breaker history b) {effect : Option Answered}
    (heffect : Explained b b' effect) (thread : ℕ) :
    Explains breaker ((effect.map (thread, ·)).toList ++ history) b' := by
  rcases effect with _ | ⟨call, answer⟩
  · obtain rfl : b' = b := heffect
    exact h
  · obtain ⟨rfl, htransition⟩ := heffect
    exact .cons thread h htransition

section

variable
  (hsound : Sound breaker s b (accountOf breaker thread log) account' effect
    query s' b')
  (h : Linear breaker s log b)
include hsound h

/-- An access of a thread, seen from another one. -/
theorem Sound.view_other (hne : thread ≠ other) :
    View breaker s' b' (accountOf breaker other log).stage where
  enabled := hsound.view.enabled
  openForMs := hsound.view.openForMs
  openUntilMs := hsound.view.openUntilMs
  quiet := hsound.view.quiet
  on := (h.view other).on
  facts := by
    cases hholds : (accountOf breaker thread log).stage.holds with
    | false => exact (hsound.frame hholds).facts (h.view other).facts
    | true =>
        refine facts_of_not_holds (Bool.eq_false_iff.mpr fun hother => ?_)
        exact hne (h.alone thread other hholds hother)
  locked := by
    intro hother
    cases hholds : (accountOf breaker thread log).stage.holds with
    | false => exact (hsound.frame hholds).locked ((h.view other).locked hother)
    | true => exact absurd (h.alone thread other hholds hother) hne

theorem Sound.told_other (hne : thread ≠ other) :
    Gate.told s' (accountOf breaker other log) =
      Gate.told s (accountOf breaker other log) := by
  cases hholds : (accountOf breaker thread log).stage.holds with
  | false => exact told_congr (hsound.frame hholds).nextProbe _
  | true =>
      refine told_of_not_holds (Bool.eq_false_iff.mpr fun hother => ?_) s' s
      exact hne (h.alone thread other hholds hother)

/-- A thread that comes to hold the lock is the only one. -/
theorem Sound.alone_other (hself : account'.stage.holds = true)
    (hother : (accountOf breaker other log).stage.holds = true) :
    thread = other := by
  rcases hsound.acquires hself with hheld | hfree
  · exact h.alone thread other hheld hother
  · exact absurd ((h.view other).locked hother) (by simp [hfree])

end

theorem Linear.turn (h : Linear breaker s log b)
    (hsound : Sound breaker s b (accountOf breaker thread log)
      ((accountOf breaker thread log).next breaker query reply)
      (point breaker s.nextProbe (accountOf breaker thread log).stage query
        reply) query s' b') :
    Linear breaker s' ((thread, ⟨query, reply⟩) :: log) b' where
  explains := by
    have hexplained := hsound.explained
    rw [← h.drawn] at hexplained
    exact h.explains.explained hexplained thread
  view := by
    intro other
    by_cases hother : thread = other
    · subst hother
      rw [accountOf_cons_self]
      exact hsound.view
    · rw [accountOf_cons_of_ne hother]
      exact hsound.view_other h hother
  told := by
    intro other
    rw [history]
    by_cases hother : thread = other
    · subst hother
      rw [accountOf_cons_self, entriesOf_point_self, h.told, hsound.told,
        h.drawn]
    · rw [accountOf_cons_of_ne hother, entriesOf_point_of_ne hother, h.told,
        hsound.told_other h hother]
  alone := by
    intro t u ht hu
    by_cases htu : t = u
    · exact htu
    · by_cases htt : thread = t
      · subst htt
        rw [accountOf_cons_self] at ht
        rw [accountOf_cons_of_ne htu] at hu
        exact hsound.alone_other h ht hu
      · rw [accountOf_cons_of_ne htt] at ht
        by_cases hut : thread = u
        · subst hut
          rw [accountOf_cons_self] at hu
          exact (hsound.alone_other h hu ht).symm
        · rw [accountOf_cons_of_ne hut] at hu
          exact h.alone t u ht hu
  drawn := by
    rw [Gate.drawn, h.drawn]
    exact hsound.draws

end Gate

end Harmost.Upstream
