import Harmost.Config.Settings
import Harmost.Support.AssocMap
import Harmost.Support.Run
import Harmost.Upstream.Window

/-!
# The retry budget

A request that failed may be sent again when the retries of the window are
within a share of the requests of the window.  Who wants to retry takes a flag
first, then reads what has been spent and what is allowed, and gives the flag
back when it does not fit.  Any number of requests do so at once.
-/

namespace Harmost.Upstream

open Harmost.Support

/-- Why a retry was or was not allowed. -/
inductive RetryDecision where
  | allowed
  | ineligible
  /-- It has already used `max_attempts`. -/
  | attemptsExhausted
  | budgetExhausted
  deriving DecidableEq, Repr

structure RetryBudget where
  enabled : Bool
  maxAttempts : ℕ
  percent : ℕ
  minimum : ℕ
  window : RollingRatio

namespace RetryBudget

def new (cfg : Config.Retry) : RetryBudget where
  enabled := cfg.enabled
  maxAttempts := cfg.maxAttempts
  percent := cfg.budgetPercent
  minimum := cfg.budgetMin
  window := .new cfg.window

variable (budget : RetryBudget)

def setWindow (window : RollingRatio) : RetryBudget :=
  { budget with window }

@[simp] theorem window_setWindow (window : RollingRatio) :
    (budget.setWindow window).window = window :=
  rfl

@[simp] theorem setWindow_setWindow (window window' : RollingRatio) :
    (budget.setWindow window).setWindow window' = budget.setWindow window' :=
  rfl

/-- Count one origin request. -/
def recordAttempt (nowMs : ℕ) : RetryBudget :=
  if budget.enabled then
    budget.setWindow (budget.window.record nowMs false)
  else budget

/-- How many retries the current window allows.  The multiplication saturates
at 64 bits. -/
def allowance (nowMs : ℕ) : ℕ :=
  max (min ((budget.window.totals nowMs).1 * budget.percent) (2 ^ 64 - 1) / 100)
    budget.minimum

/-- Spend one retry, if there is one to spend. -/
def charge (nowMs attemptsUsed : ℕ) : RetryBudget × RetryDecision :=
  if !budget.enabled then (budget, .ineligible)
  else if budget.maxAttempts ≤ attemptsUsed then (budget, .attemptsExhausted)
  else
    let (window, spent) := budget.window.flag nowMs
    if (budget.setWindow window).allowance nowMs < spent then
      (budget.setWindow (window.unflag nowMs), .budgetExhausted)
    else (budget.setWindow window, .allowed)

end RetryBudget

/-- Where a call of `charge` is. -/
inductive Call where
  /-- It is about to flag. -/
  | flagging (nowMs : ℕ)
  /-- It is about to read the window. -/
  | reading (nowMs : ℕ)
  /-- It is about to read the allowance. -/
  | allowing (nowMs spent : ℕ)
  /-- It is about to give back. -/
  | givingBack (nowMs : ℕ)
  /-- It has returned `Allowed`, after these two reads. -/
  | allowed (spent allowance : ℕ)
  | refused (decision : RetryDecision)
  deriving DecidableEq

namespace Call

def nowMs? : Call → Option ℕ
  | .flagging nowMs | .reading nowMs | .allowing nowMs _ | .givingBack nowMs =>
      some nowMs
  | .allowed _ _ | .refused _ => none

def decision? : Call → Option RetryDecision
  | .allowed _ _ => some .allowed
  | .refused decision => some decision
  | _ => none

/-- The flags of a call. -/
def flags : Call → ℕ
  | .reading _ | .allowing _ _ | .givingBack _ | .allowed _ _ => 1
  | .flagging _ | .refused _ => 0

/-- Has the call returned `Allowed`?  As a number. -/
def grants : Call → ℕ
  | .allowed _ _ => 1
  | _ => 0

/-- Has the call read less than this, and not been refused?  As a number. -/
def readsBelow (n : ℕ) : Call → ℕ
  | .allowing _ spent | .allowed spent _ => if spent < n then 1 else 0
  | _ => 0

theorem readsBelow_le_flags (n : ℕ) (c : Call) : c.readsBelow n ≤ c.flags := by
  cases c with
  | allowing | allowed => simp only [readsBelow, flags]; split <;> omega
  | flagging | reading | givingBack | refused => exact Nat.zero_le _

theorem flags_of_decision {c : Call} {decision : RetryDecision}
    (h : c.decision? = some decision) : c.flags = c.grants := by
  cases c <;> simp_all [decision?, flags, grants]

end Call

/-- A budget, and the calls of `charge` so far. -/
structure Contention where
  budget : RetryBudget
  calls : AssocMap ℕ Call := ∅

namespace Contention

inductive Op where
  | recordAttempt (nowMs : ℕ)
  | charge (call nowMs attemptsUsed : ℕ)
  /-- The next access to the window of a call. -/
  | advance (call : ℕ)

variable (s : Contention)

def goTo (call : ℕ) (c : Call) : Contention :=
  { s with calls := s.calls.insert call c }

def access (window : RollingRatio) (call : ℕ) (c : Call) : Contention where
  budget := s.budget.setWindow window
  calls := s.calls.insert call c

/-- The checks of `charge` before the first access. -/
def enter (nowMs attemptsUsed : ℕ) : Call :=
  if !s.budget.enabled then .refused .ineligible
  else if s.budget.maxAttempts ≤ attemptsUsed then .refused .attemptsExhausted
  else .flagging nowMs

def step (s : Contention) : Op → Contention
  | .recordAttempt nowMs => { s with budget := s.budget.recordAttempt nowMs }
  | .charge call nowMs attemptsUsed =>
      match s.calls.lookup call with
      | none => s.goTo call (s.enter nowMs attemptsUsed)
      | some _ => s
  | .advance call =>
      match s.calls.lookup call with
      | some (.flagging nowMs) =>
          s.access (s.budget.window.mark nowMs) call (.reading nowMs)
      | some (.reading nowMs) =>
          s.goTo call (.allowing nowMs (s.budget.window.totals nowMs).2)
      | some (.allowing nowMs spent) =>
          if s.budget.allowance nowMs < spent then
            s.goTo call (.givingBack nowMs)
          else s.goTo call (.allowed spent (s.budget.allowance nowMs))
      | some (.givingBack nowMs) =>
          s.access (s.budget.window.unflag nowMs) call
            (.refused .budgetExhausted)
      | _ => s

theorem enter_cases (nowMs attemptsUsed : ℕ) :
    s.enter nowMs attemptsUsed = .flagging nowMs ∨
      ∃ decision, s.enter nowMs attemptsUsed = .refused decision := by
  unfold enter
  split
  · exact .inr ⟨_, rfl⟩
  · split
    · exact .inr ⟨_, rfl⟩
    · exact .inl rfl

/-- A call that nobody interferes with is `charge`. -/
theorem run_charge {call : ℕ} (hnew : s.calls.lookup call = none)
    (nowMs attemptsUsed : ℕ) :
    let s' := run step s
      (.charge call nowMs attemptsUsed :: List.replicate 4 (.advance call))
    s'.budget = (s.budget.charge nowMs attemptsUsed).1 ∧
      (s'.calls.lookup call).bind Call.decision? =
        some (s.budget.charge nowMs attemptsUsed).2 := by
  intro s'
  have hs' : s' = run step (s.goTo call (s.enter nowMs attemptsUsed))
      (List.replicate 4 (.advance call)) := by
    simp only [s', run_cons, step, hnew]
  rw [hs']
  by_cases henabled : s.budget.enabled = true
  · by_cases hattempts : s.budget.maxAttempts ≤ attemptsUsed
    · simp [enter, goTo, step, henabled, hattempts, RetryBudget.charge,
        Call.decision?]
    · by_cases hspent : (s.budget.setWindow
          (s.budget.window.mark nowMs)).allowance nowMs <
            ((s.budget.window.mark nowMs).totals nowMs).2
      · simp [enter, goTo, access, step, henabled, hattempts, hspent,
          RetryBudget.charge, RollingRatio.flag, Call.decision?]
      · simp [enter, goTo, access, step, henabled, hattempts, hspent,
          RetryBudget.charge, RollingRatio.flag, Call.decision?]
  · simp [enter, goTo, step, henabled, RetryBudget.charge, Call.decision?]

/-! ## Calls of one epoch -/

/-- The flags of all calls. -/
def flags : ℕ :=
  s.calls.total fun _ c => c.flags

/-- How many calls have returned `Allowed`. -/
def granted : ℕ :=
  s.calls.total fun _ c => c.grants

/-- How many calls have read less than this, and have not been refused. -/
def readers (n : ℕ) : ℕ :=
  s.calls.total fun _ c => c.readsBelow n

theorem readers_le_flags (n : ℕ) : s.readers n ≤ s.flags :=
  AssocMap.total_le_total (fun _ c => c.readsBelow_le_flags n) s.calls

/-- Every time is of one epoch, and the counter of flags does not overflow. -/
def OneEpoch (epoch : ℕ) (s : Contention) : Op → Prop
  | .recordAttempt nowMs | .charge _ nowMs _ =>
      s.budget.window.epochOf nowMs = epoch
  | .advance call =>
      match s.calls.lookup call with
      | some (.flagging _) =>
          (s.budget.window.current epoch).flagged + 1 < 2 ^ 32
      | _ => True

instance (epoch : ℕ) (s : Contention) (op : Op) :
    Decidable (OneEpoch epoch s op) := by
  cases op with
  | recordAttempt | charge => exact inferInstanceAs (Decidable (_ = _))
  | advance call =>
      dsimp only [OneEpoch]
      split <;> infer_instance

/-- What holds in an epoch whose window had `base` flags at the start. -/
structure Inv (base epoch : ℕ) (s : Contention) : Prop where
  timely : ∀ call c nowMs, s.calls.lookup call = some c →
    c.nowMs? = some nowMs → s.budget.window.epochOf nowMs = epoch
  counted : (s.budget.window.totalsAt epoch).2 = base + s.flags
  /-- The flags of the calls are in the bucket of the epoch. -/
  present : s.flags ≤ (s.budget.window.current epoch).flagged
  /-- Fewer than `n` calls have read fewer than `n` flags beyond `base`. -/
  spread : ∀ n, 0 < n → s.readers (base + n) < n
  afforded : ∀ call spent allowance,
    s.calls.lookup call = some (.allowed spent allowance) → spent ≤ allowance

theorem inv_start (budget : RetryBudget) (epoch : ℕ) :
    Inv (budget.window.totalsAt epoch).2 epoch ⟨budget, ∅⟩ where
  timely := fun call c nowMs h => by simp at h
  counted := (Nat.add_zero _).symm
  present := Nat.zero_le _
  spread := fun n hn => hn
  afforded := fun call spent allowance h => by simp at h

variable {s} {base epoch : ℕ}

/-- A call takes its next access.  The counters of the epoch follow its flags,
and a reading that is new counts every flag there is. -/
theorem Inv.access (h : s.Inv base epoch) {call : ℕ} {c c' : Call}
    {window : RollingRatio} (hcall : s.calls.lookup call = some c)
    (hepoch : ∀ nowMs, window.epochOf nowMs = s.budget.window.epochOf nowMs)
    (htotals : (window.totalsAt epoch).2 + c.flags =
      (s.budget.window.totalsAt epoch).2 + c'.flags)
    (hcurrent : (window.current epoch).flagged + c.flags =
      (s.budget.window.current epoch).flagged + c'.flags)
    (htimely : ∀ nowMs, c'.nowMs? = some nowMs → c.nowMs? = some nowMs)
    (hreads : ∀ n, c'.readsBelow (base + n) ≤ c.readsBelow (base + n) ∨
      s.flags < n ∧ c'.flags = c.flags)
    (hafforded : ∀ spent allowance, c' = .allowed spent allowance →
      spent ≤ allowance) : (s.access window call c').Inv base epoch := by
  have hflags : c.flags + (s.access window call c').flags =
      c'.flags + s.flags :=
    AssocMap.total_insert (fun _ c => c.flags) hcall c'
  constructor
  case timely =>
      intro call' d nowMs hlookup hnow
      refine (hepoch nowMs).trans ?_
      rcases AssocMap.lookup_insert_cases hlookup with ⟨rfl, rfl⟩ | ⟨-, hold⟩
      · exact h.timely call' c nowMs hcall (htimely nowMs hnow)
      · exact h.timely call' d nowMs hold hnow
  case counted =>
      have hcounted := h.counted
      change (window.totalsAt epoch).2 = base + (s.access window call c').flags
      omega
  case present =>
      have hpresent := h.present
      change (s.access window call c').flags ≤ (window.current epoch).flagged
      omega
  case spread =>
      intro n hn
      rcases hreads n with hle | ⟨hlt, hsame⟩
      · have hreaders : c.readsBelow (base + n) +
            (s.access window call c').readers (base + n) =
              c'.readsBelow (base + n) + s.readers (base + n) :=
          AssocMap.total_insert (fun _ c => c.readsBelow (base + n)) hcall c'
        have hbefore := h.spread n hn
        omega
      · -- whoever has read has a flag
        have hreaders := (s.access window call c').readers_le_flags (base + n)
        omega
  case afforded =>
      intro call' spent allowance hlookup
      rcases AssocMap.lookup_insert_cases hlookup with ⟨-, hc'⟩ | ⟨-, hold⟩
      · exact hafforded spent allowance hc'.symm
      · exact h.afforded call' spent allowance hold

/-- A call goes on without an access that counts. -/
theorem Inv.goTo (h : s.Inv base epoch) {call : ℕ} {c c' : Call}
    (hcall : s.calls.lookup call = some c) (hflags : c'.flags = c.flags)
    (htimely : ∀ nowMs, c'.nowMs? = some nowMs → c.nowMs? = some nowMs)
    (hreads : ∀ n, c'.readsBelow (base + n) ≤ c.readsBelow (base + n) ∨
      s.flags < n)
    (hafforded : ∀ spent allowance, c' = .allowed spent allowance →
      spent ≤ allowance) : (s.goTo call c').Inv base epoch := by
  have hsame : s.goTo call c' = s.access s.budget.window call c' := rfl
  rw [hsame]
  exact h.access hcall (fun _ => rfl) (by rw [hflags]) (by rw [hflags]) htimely
    (fun n => (hreads n).imp_right fun hlt => ⟨hlt, hflags⟩) hafforded

/-- A new call has read nothing and has no flag. -/
theorem Inv.enter (h : s.Inv base epoch) {call nowMs : ℕ}
    (hcall : s.calls.lookup call = none)
    (hepoch : s.budget.window.epochOf nowMs = epoch) (attemptsUsed : ℕ) :
    (s.goTo call (s.enter nowMs attemptsUsed)).Inv base epoch := by
  obtain ⟨c, hc, hflags, hreads, htimely, hgrants⟩ :
      ∃ c, s.enter nowMs attemptsUsed = c ∧ c.flags = 0 ∧
        (∀ n, c.readsBelow n = 0) ∧
        (∀ nowMs', c.nowMs? = some nowMs' → nowMs' = nowMs) ∧
        ∀ spent allowance, c ≠ .allowed spent allowance := by
    rcases s.enter_cases nowMs attemptsUsed with heq | ⟨decision, heq⟩
    · exact ⟨_, heq, rfl, fun _ => rfl, fun _ h => (Option.some.inj h).symm,
        nofun⟩
    · exact ⟨_, heq, rfl, fun _ => rfl, nofun, nofun⟩
  rw [hc]
  have hnew : call ∉ s.calls := AList.lookup_eq_none.mp hcall
  have hsame : (s.goTo call c).flags = s.flags := by
    have hinsert := AssocMap.total_insert_of_notMem
      (fun _ c => Call.flags c) hnew c
    rwa [hflags, Nat.zero_add] at hinsert
  constructor
  case timely =>
      intro call' d nowMs' hlookup hnow
      rcases AssocMap.lookup_insert_cases hlookup with ⟨-, rfl⟩ | ⟨-, hold⟩
      · rwa [htimely nowMs' hnow]
      · exact h.timely call' d nowMs' hold hnow
  case counted => exact hsame.symm ▸ h.counted
  case present => exact hsame.symm ▸ h.present
  case spread =>
      intro n hn
      have hinsert := AssocMap.total_insert_of_notMem
        (fun _ c => Call.readsBelow (base + n) c) hnew c
      rw [hreads, Nat.zero_add] at hinsert
      exact hinsert.trans_lt (h.spread n hn)
  case afforded =>
      intro call' spent allowance hlookup
      rcases AssocMap.lookup_insert_cases hlookup with ⟨-, hc'⟩ | ⟨-, hold⟩
      · exact absurd hc'.symm (hgrants spent allowance)
      · exact h.afforded call' spent allowance hold

theorem Inv.recordAttempt (h : s.Inv base epoch) {nowMs : ℕ}
    (hepoch : s.budget.window.epochOf nowMs = epoch) :
    Inv base epoch { s with budget := s.budget.recordAttempt nowMs } := by
  unfold RetryBudget.recordAttempt
  split
  · obtain ⟨htotals, hcurrent⟩ := RollingRatio.flagged_record hepoch
    exact ⟨h.timely, htotals.trans h.counted, h.present.trans_eq hcurrent.symm,
      h.spread, h.afforded⟩
  · exact h

theorem Inv.advance (h : s.Inv base epoch) {call : ℕ}
    (hone : s.OneEpoch epoch (.advance call)) :
    (s.step (.advance call)).Inv base epoch := by
  simp only [step]
  split
  · rename_i nowMs hcall
    have hepoch := h.timely call _ nowMs hcall rfl
    have hroom : (s.budget.window.current epoch).flagged + 1 < 2 ^ 32 := by
      simpa only [OneEpoch, hcall] using hone
    obtain ⟨htotals, hcurrent⟩ := RollingRatio.flagged_mark hepoch hroom
    refine h.access hcall (RollingRatio.epochOf_count _ _ _) ?_ ?_
      (fun _ hnow => hnow) (fun n => .inl le_rfl) nofun
    · simpa only [Call.flags, Nat.add_zero] using htotals
    · simpa only [Call.flags, Nat.add_zero] using hcurrent
  · rename_i nowMs hcall
    have hepoch := h.timely call _ nowMs hcall rfl
    refine h.goTo hcall rfl (fun _ hnow => hnow) (fun n => ?_) nofun
    -- it reads the flags of all calls
    rw [RollingRatio.totals, hepoch, h.counted]
    simp only [Call.readsBelow]
    split
    · exact .inr (by omega)
    · exact .inl le_rfl
  · rename_i nowMs spent hcall
    split
    · exact h.goTo hcall rfl (fun _ hnow => hnow)
        (fun n => .inl (Nat.zero_le _)) nofun
    · rename_i hafford
      refine h.goTo hcall rfl nofun (fun n => .inl le_rfl)
        (fun spent' allowance heq => ?_)
      obtain ⟨rfl, rfl⟩ := Call.allowed.inj heq
      exact Nat.not_lt.mp hafford
  · rename_i nowMs hcall
    have hepoch := h.timely call _ nowMs hcall rfl
    have hpos : 0 < (s.budget.window.current epoch).flagged :=
      (AssocMap.le_total (fun _ c => Call.flags c) hcall).trans h.present
    obtain ⟨htotals, hcurrent⟩ := RollingRatio.flagged_unflag hepoch hpos
    refine h.access hcall (RollingRatio.epochOf_count _ _ _) ?_ ?_
      nofun (fun n => .inl le_rfl) nofun
    · simpa only [Call.flags, Nat.add_zero] using htotals
    · simpa only [Call.flags, Nat.add_zero] using hcurrent
  · exact h

theorem Inv.step (h : s.Inv base epoch) {op : Op}
    (hone : s.OneEpoch epoch op) : (s.step op).Inv base epoch := by
  cases op with
  | recordAttempt nowMs => exact h.recordAttempt hone
  | charge call nowMs attemptsUsed =>
      simp only [Contention.step]
      split
      · rename_i hcall
        exact h.enter hcall hone attemptsUsed
      · exact h
  | advance call => exact h.advance hone

/-- The last to read the window, of those that have been allowed, has seen the
flags of all of them. -/
theorem Inv.granted_le (h : s.Inv base epoch) (hgranted : 0 < s.granted) :
    ∃ call spent allowance,
      s.calls.lookup call = some (.allowed spent allowance) ∧
        base + s.granted ≤ allowance := by
  obtain ⟨call, c, hcall, hlt⟩ :=
    AssocMap.exists_lt_of_total_lt (h.spread s.granted hgranted)
  cases c with
  | allowed spent allowance =>
      have hspent : base + s.granted ≤ spent := by
        by_contra hbelow
        simp [Call.readsBelow, Call.grants, Nat.not_le.mp hbelow] at hlt
      exact ⟨call, spent, allowance, hcall,
        hspent.trans (h.afforded call spent allowance hcall)⟩
  | flagging | reading | allowing | givingBack | refused =>
      exact absurd hlt (Nat.not_lt_zero _)

/-- Once every call has returned, the flags are those of the allowed ones. -/
theorem flags_eq_granted
    (hreturned : ∀ call c, s.calls.lookup call = some c →
      c.decision?.isSome) : s.flags = s.granted := by
  refine AssocMap.total_congr fun call c hcall => ?_
  obtain ⟨decision, hdecision⟩ :=
    Option.isSome_iff_exists.mp (hreturned call c hcall)
  exact Call.flags_of_decision hdecision

/-! ## Runs -/

/-- However many calls of `charge` and `record_attempt` come together in one
epoch: the flags from before and the calls that have been allowed are within an
allowance that one of these calls has read, and once every call has returned,
exactly the allowed ones have been added to the flags. -/
theorem charge_contention (budget : RetryBudget) (epoch : ℕ) (ops : List Op)
    (hops : Guarded step (OneEpoch epoch) ⟨budget, ∅⟩ ops) :
    let s := run step ⟨budget, ∅⟩ ops
    let base := (budget.window.totalsAt epoch).2
    (0 < s.granted → ∃ call spent allowance,
      s.calls.lookup call = some (.allowed spent allowance) ∧
        base + s.granted ≤ allowance) ∧
      ((∀ call c, s.calls.lookup call = some c → c.decision?.isSome) →
        (s.budget.window.totalsAt epoch).2 = base + s.granted) := by
  intro s base
  have h : s.Inv base epoch :=
    run_invariant_of_guarded (fun _ _ hone hinv => hinv.step hone)
      (inv_start budget epoch) hops
  refine ⟨h.granted_le, fun hreturned => ?_⟩
  rw [h.counted, flags_eq_granted hreturned]

/-- Two calls flag before either reads the allowance of one: the one that has
read the window first is allowed. -/
theorem charge_contention_two_calls :
    let budget := RetryBudget.new { enabled := true, budgetMin := 1 }
    let ops : List Op :=
      [.charge 0 5 1, .charge 1 7 1, .advance 0, .advance 0, .advance 1,
        .advance 1, .advance 0, .advance 1, .advance 1]
    Guarded step (OneEpoch 0) ⟨budget, ∅⟩ ops ∧
      0 < (run step ⟨budget, ∅⟩ ops).granted ∧
      ∃ call spent allowance,
        (run step ⟨budget, ∅⟩ ops).calls.lookup call =
            some (.allowed spent allowance) ∧
          (budget.window.totalsAt 0).2 + (run step ⟨budget, ∅⟩ ops).granted ≤
            allowance := by
  intro budget ops
  have hops : Guarded step (OneEpoch 0) ⟨budget, ∅⟩ ops := by decide
  have hgranted : 0 < (run step ⟨budget, ∅⟩ ops).granted := by decide
  exact ⟨hops, hgranted, (charge_contention budget 0 ops hops).1 hgranted⟩

end Contention

end Harmost.Upstream
