import Harmost.Proxy.Origin.Hooks

/-!
# What a request may do

The hooks of a request obey one discipline, whatever the other requests do
meanwhile: it leaves the slot it has, it reports the attempt it has not
reported, with the token that came with it, and it makes an attempt after the
first only if the retry budget was charged.
-/

namespace Harmost.Proxy.Origin

open Harmost.Support
open Harmost.Http
open Harmost.Upstream
open Harmost.Classifier (RequestClass)

/-- What the accesses of a request so far entitle it to. -/
structure Account where
  /-- May it be retried at all? -/
  eligible : Bool
  /-- The backend it has a slot on. -/
  slot : Option ℕ := none
  /-- A token that it was handed and has made no attempt with. -/
  granted : Option (ℕ × ProbeToken) := none
  /-- The last attempt, if its outcome has not been reported. -/
  unreported : Option (ℕ × Option ProbeToken) := none
  entered : ℕ := 0
  /-- The retries it has been charged for and has not given back. -/
  charged : ℕ := 0

namespace Account

/-- The token of an attempt that has not been reported. -/
def pending (account : Account) : Option (ℕ × ProbeToken) :=
  account.unreported.bind fun attempt =>
    attempt.2.map fun token => (attempt.1, token)

/-- The tokens that it may yet report. -/
def tokens (account : Account) : List (ℕ × ProbeToken) :=
  account.granted.toList ++ account.pending.toList

end Account

/-- A slot is left once, an outcome is reported once and with the token of its
attempt, and every attempt but the first has been charged for. -/
def discipline (cfg : Config.Retry) : Discipline Reply Account where
  permits account
    | .enter id probe =>
        account.slot = none ∧
          (∀ token ∈ probe, account.granted = some (id, token)) ∧
          account.entered ≤ account.charged ∧
          (cfg.maxAttempts < 2 ^ 32 →
            account.entered < max 1 cfg.maxAttempts)
    | .leave id => account.slot = some id
    | .observeLatency id _ => account.slot = some id
    | .recordOutcome id probe _ _ => account.unreported = some (id, probe)
    | .mark _ => account.eligible = true
    | .unflag _ => 0 < account.charged ∧ account.entered ≤ account.charged
    | _ => True
  next account
    | .enter id probe, _ =>
        { account with
          slot := some id
          granted := none
          unreported := some (id, probe)
          entered := account.entered + 1 }
    | .leave _, _ => { account with slot := none }
    | .recordOutcome _ _ _ _, _ => { account with unreported := none }
    | .allowance id _, some (.probe token) =>
        { account with granted := some (id, token) }
    | .mark _, _ => { account with charged := account.charged + 1 }
    | .unflag _, _ => { account with charged := account.charged - 1 }
    | _, _ => account

/-- The account of a request at rest. -/
structure Rest (cfg : Config.Retry) (account : Account) (ctx : OriginCtx) :
    Prop where
  slot : account.slot = ctx.originSlot.map InFlightGuard.id
  unreported : ctx.outcomeRecorded = false → ∀ slot ∈ ctx.originSlot,
    account.unreported = some (slot.id, slot.probe)
  attempts : ctx.attempts = min account.entered (2 ^ 32 - 1)
  charged : account.entered + (if ctx.retry then 1 else 0) ≤
    account.charged + 1
  bounded : cfg.maxAttempts < 2 ^ 32 →
    account.entered + (if ctx.retry then 1 else 0) ≤ max 1 cfg.maxAttempts
  eligible : account.eligible =
    (cfg.enabled && Upstream.eligible ctx.method ctx.class')
  uncharged : account.eligible = false → account.charged = 0

variable {routing : Routing} {cfg : Config.Retry} {account : Account}

/-! ## A selection -/

theorem obeys_consider (best : Option (Backend × ℕ)) (backend : Backend) :
    (discipline cfg).Obeys
      (fun account' best' => account' = account ∧
        ∃ score, best' = some (backend, score) ∨ best' = best ∧ best ≠ none)
      account (Cut.consider best backend) := by
  rw [Cut.consider, Cut.score, Discipline.obeys_bind]
  refine Discipline.obeys_ask.mpr ⟨trivial, fun inFlight _ => ?_⟩
  refine Discipline.obeys_ask.mpr ⟨trivial, fun ewmaMicros _ => ⟨rfl, ?_⟩⟩
  split
  · exact ⟨_, .inl rfl⟩
  · rename_i hall
    refine ⟨0, .inr ⟨rfl, ?_⟩⟩
    rintro rfl
    exact hall rfl

theorem obeys_scan {candidates : List Backend} (hne : candidates ≠ [])
    (offset : ℕ) {best : Option (Backend × ℕ)}
    (hbest : ∀ b ∈ best, b.1 ∈ candidates) (steps : List ℕ) :
    (discipline cfg).Obeys
      (fun account' best' => account' = account ∧
        (∀ b ∈ best', b.1 ∈ candidates) ∧
        (steps ≠ [] ∨ best ≠ none → best' ≠ none))
      account (Cut.scan candidates offset best steps) := by
  induction steps generalizing best with
  | nil => exact ⟨rfl, hbest, by simp⟩
  | cons step steps ih =>
      have hlt := Nat.mod_lt ((offset + step) % 2 ^ 64)
        (List.length_pos_iff.mpr hne)
      have hget := List.getElem?_eq_getElem hlt
      have hmem := List.getElem_mem hlt
      rw [Cut.scan, hget]
      dsimp only
      rw [Discipline.obeys_bind]
      refine (obeys_consider best _).mono ?_
      rintro _ best' ⟨rfl, score, hbest'⟩
      have hnone : best' ≠ none := by
        rcases hbest' with rfl | ⟨rfl, hsome⟩
        · exact Option.some_ne_none _
        · exact hsome
      have hin : ∀ b ∈ best', b.1 ∈ candidates := by
        rcases hbest' with rfl | ⟨rfl, -⟩
        · rintro b hb
          cases hb
          exact hmem
        · exact hbest
      refine (ih hin).mono ?_
      rintro account' best'' ⟨rfl, hin', hsome⟩
      exact ⟨rfl, hin', fun _ => hsome (.inr hnone)⟩

theorem obeys_pick {candidates : List Backend} (hne : candidates ≠ [])
    (path : Str) :
    (discipline cfg).Obeys
      (fun account' result => account' = account ∧
        ∃ backend ∈ candidates, result = some backend)
      account (Cut.pick routing candidates path) := by
  have hpos := List.length_pos_iff.mpr hne
  have hindex := exists_getElem?_mod hne
  rw [Cut.pick, if_neg (mt List.isEmpty_iff.mp hne)]
  cases routing.strategy with
  | roundRobin => exact ⟨trivial, fun cursor _ => ⟨rfl, hindex cursor⟩⟩
  | hashByPath => exact ⟨rfl, hindex _⟩
  | leastLoaded =>
      refine Discipline.obeys_ask.mpr ⟨trivial, fun offset _ => ?_⟩
      refine Discipline.obeys_bind.mpr ((obeys_scan hne offset
        (fun _ hb => absurd hb (Option.not_mem_none _)) _).mono ?_)
      rintro account' best ⟨rfl, hin, hsome⟩
      have hrange : List.range candidates.length ≠ [] :=
        mt List.range_eq_nil.mp (Nat.ne_of_gt hpos)
      obtain ⟨b, rfl⟩ := Option.ne_none_iff_exists'.mp (hsome (.inl hrange))
      exact ⟨rfl, b.1, hin b rfl, rfl⟩

/-- What a selection comes to: a backend of the pool if there is one, and a
token only if the breaker of that backend has just handed it out. -/
def Selected (routing : Routing) (account account' : Account)
    (result : Option SelectedBackend) : Prop :=
  (∃ granted, account' = { account with granted }) ∧
    (result = none → routing.backends = []) ∧
    ∀ selected ∈ result, selected.backend ∈ routing.backends ∧
      ∀ token ∈ selected.probe,
        account'.granted = some (selected.backend.id, token)

theorem selected_some {account' : Account} {backend : Backend}
    {probe : Option ProbeToken}
    (haccount : ∃ granted, account' = { account with granted })
    (hmem : backend ∈ routing.backends)
    (hprobe : ∀ token ∈ probe, account'.granted = some (backend.id, token)) :
    Selected routing account account' (some ⟨backend, probe⟩) := by
  refine ⟨haccount, fun hnone => absurd hnone (Option.some_ne_none _), ?_⟩
  intro selected hselected
  cases hselected
  exact ⟨hmem, hprobe⟩

theorem obeys_pickOrdinary {candidates : List Backend}
    (hne : candidates ≠ []) (hsub : candidates ⊆ routing.backends)
    {account' : Account}
    (haccount : ∃ granted, account' = { account with granted })
    (path : Str) :
    (discipline cfg).Obeys (Selected routing account) account'
      (Cut.pickOrdinary routing candidates path) := by
  rw [Cut.pickOrdinary, Discipline.obeys_bind]
  refine (obeys_pick hne path).mono ?_
  rintro _ _ ⟨rfl, backend, hmem, rfl⟩
  exact selected_some haccount (hsub hmem)
    fun _ htoken => absurd htoken (Option.not_mem_none _)

theorem obeys_healthy :
    (discipline cfg).Obeys
      (fun account' kept => account' = account ∧ kept ⊆ routing.backends)
      account (Cut.healthy routing) :=
  Discipline.obeys_filter fun _ _ => ⟨trivial, fun _ _ => rfl⟩

theorem obeys_withBreaker (state : BreakerState) (candidates : List Backend) :
    (discipline cfg).Obeys
      (fun account' kept => account' = account ∧ kept ⊆ candidates) account
      (Cut.withBreaker state candidates) :=
  Discipline.obeys_filter fun _ _ => ⟨trivial, fun _ _ => rfl⟩

theorem obeys_spendProbe (nowMs : ℕ) {backends : List Backend}
    (hsub : backends ⊆ routing.backends) {before : Account}
    (hbefore : ∃ granted, before = { account with granted }) :
    (discipline cfg).Obeys
      (fun account' result =>
        (∃ granted, account' = { account with granted }) ∧
          (result ≠ none → Selected routing account account' result))
      before (Cut.spendProbe nowMs backends) := by
  induction backends with
  | nil => exact ⟨hbefore, fun h => absurd rfl h⟩
  | cons backend rest ih =>
      obtain ⟨hmem, hrest⟩ := List.cons_subset.mp hsub
      rw [Cut.spendProbe]
      refine Discipline.obeys_ask.mpr ⟨trivial, fun allowance _ => ?_⟩
      rcases allowance with _ | (_ | _ | token)
      · exact ih hrest
      · exact ih hrest
      · exact ⟨hbefore, fun _ => selected_some hbefore hmem
          fun _ htoken => absurd htoken (Option.not_mem_none _)⟩
      · obtain ⟨granted, rfl⟩ := hbefore
        refine ⟨⟨_, rfl⟩, fun _ => selected_some ⟨_, rfl⟩ hmem ?_⟩
        intro token' htoken
        cases htoken
        rfl

/-- Whatever the others do to the pool meanwhile. -/
theorem obeys_selectAt (path : Str) (nowMs : ℕ) :
    (discipline cfg).Obeys (Selected routing account) account
      (Cut.selectAt routing path nowMs) := by
  have hsame : ∃ granted, account = { account with granted } := ⟨_, rfl⟩
  rw [Cut.selectAt]
  split
  · rename_i hempty
    exact ⟨hsame, fun _ => List.isEmpty_iff.mp hempty,
      fun _ h => absurd h (Option.not_mem_none _)⟩
  rename_i hbackends
  rw [Discipline.obeys_bind]
  refine obeys_healthy.mono ?_
  rintro _ healthy ⟨rfl, hhealthy⟩
  split
  · exact obeys_pickOrdinary (mt List.isEmpty_iff.mpr hbackends)
      (List.Subset.refl _) hsame path
  rename_i hsome
  have hne := mt List.isEmpty_iff.mpr hsome
  split
  · exact obeys_pickOrdinary hne hhealthy hsame path
  rw [Discipline.obeys_bind]
  refine (obeys_withBreaker _ healthy).mono ?_
  rintro _ ejected ⟨rfl, hejected⟩
  rw [Discipline.obeys_bind]
  refine (obeys_spendProbe nowMs (List.Subset.trans hejected hhealthy)
    hsame).mono ?_
  rintro account' spent ⟨haccount', hspent⟩
  cases spent with
  | some selected => exact hspent (Option.some_ne_none _)
  | none =>
      dsimp only
      split
      · exact obeys_pickOrdinary hne hhealthy haccount' path
      rw [Discipline.obeys_bind]
      refine (obeys_withBreaker _ healthy).mono ?_
      rintro _ available ⟨rfl, havailable⟩
      split
      · exact obeys_pickOrdinary hne hhealthy haccount' path
      · rename_i hopen
        exact obeys_pickOrdinary (mt List.isEmpty_iff.mpr hopen)
          (List.Subset.trans havailable hhealthy) haccount' path

/-! ## The hooks -/

variable {ctx : OriginCtx}

theorem obeys_releaseOriginSlot
    (hslot : account.slot = ctx.originSlot.map InFlightGuard.id) :
    (discipline cfg).Obeys
      (fun account' ctx' => account' = { account with slot := none } ∧
        ctx' = { ctx with originSlot := none })
      account (releaseOriginSlot ctx) := by
  obtain ⟨method, class', originSlot, attempts, recorded, retry⟩ := ctx
  cases originSlot with
  | none =>
      refine ⟨?_, rfl⟩
      have hnone : account.slot = none := hslot
      rw [← hnone]
  | some slot => exact ⟨hslot, fun _ _ => ⟨rfl, rfl⟩⟩

section

variable (h : Rest cfg account ctx)
include h

theorem Rest.release :
    Rest cfg { account with slot := none } { ctx with originSlot := none } where
  slot := rfl
  unreported := nofun
  attempts := h.attempts
  charged := h.charged
  bounded := h.bounded
  eligible := h.eligible
  uncharged := h.uncharged

theorem obeys_recordOriginOutcome (ok : Bool) :
    (discipline cfg).Obeys (Rest cfg) account
      (recordOriginOutcome ctx ok) := by
  rw [recordOriginOutcome]
  split
  · exact h
  rename_i hrecorded
  split
  · exact h
  rename_i slot hslot
  refine Discipline.obeys_ask.mpr ⟨trivial, fun nowMs _ => ?_⟩
  refine Discipline.obeys_ask.mpr ⟨?_, fun _ _ => ?_⟩
  · exact h.unreported (Bool.eq_false_of_not_eq_true hrecorded) slot hslot
  · exact
      { slot := h.slot
        unreported := fun hfalse => absurd hfalse.symm Bool.false_ne_true
        attempts := h.attempts
        charged := h.charged
        bounded := h.bounded
        eligible := h.eligible
        uncharged := h.uncharged }

theorem Rest.regrant (granted : Option (ℕ × ProbeToken)) :
    Rest cfg { account with granted } ctx where
  slot := h.slot
  unreported := h.unreported
  attempts := h.attempts
  charged := h.charged
  bounded := h.bounded
  eligible := h.eligible
  uncharged := h.uncharged

theorem Rest.stop :
    Rest cfg account { ctx with retry := false } where
  slot := h.slot
  unreported := h.unreported
  attempts := h.attempts
  charged := (Nat.le_add_right _ _).trans h.charged
  bounded := fun hmax => (Nat.le_add_right _ _).trans (h.bounded hmax)
  eligible := h.eligible
  uncharged := h.uncharged

/-- An error that was charged for may be followed by an attempt. -/
theorem Rest.charge (heligible : account.eligible = true)
    (hattempts : ctx.attempts < cfg.maxAttempts) :
    Rest cfg { account with charged := account.charged + 1 }
      { ctx with retry := true } where
  slot := h.slot
  unreported := h.unreported
  attempts := h.attempts
  charged := by
    have hcharged := (Nat.le_add_right _ _).trans h.charged
    simp only [if_true]
    omega
  bounded := by
    intro hmax
    have hmin := h.attempts
    simp only [if_true]
    omega
  eligible := h.eligible
  uncharged := fun hfalse =>
    absurd (hfalse.symm.trans heligible) Bool.false_ne_true

theorem obeys_decideRetry :
    (discipline cfg).Obeys
      (fun account' decision => Rest cfg account'
        { ctx with retry := decision = .allowed })
      account (decideRetry cfg ctx) := by
  rw [decideRetry]
  split
  · exact h.stop
  rename_i henabled
  split
  · rename_i hctx
    have heligible : account.eligible = true := by
      rw [h.eligible, hctx, Bool.and_true]
      simpa using henabled
    refine Discipline.obeys_ask.mpr ⟨trivial, fun nowMs _ => ?_⟩
    rw [Cut.charge, if_neg henabled]
    split
    · exact h.stop
    rename_i hattempts
    refine Discipline.obeys_ask.mpr ⟨heligible, fun _ _ => ?_⟩
    refine Discipline.obeys_ask.mpr ⟨trivial, fun spent _ => ?_⟩
    refine Discipline.obeys_ask.mpr ⟨trivial, fun allowance _ => ?_⟩
    rw [Cut.settle]
    split
    · refine Discipline.obeys_ask.mpr ⟨⟨Nat.succ_pos _, ?_⟩, fun _ _ => ?_⟩
      · exact (Nat.le_add_right _ _).trans h.charged
      · exact h.stop
    · exact h.charge heligible (not_le.mp hattempts)
  · exact h.stop

end

theorem obeys_attempt {before : Account} (h : Rest cfg before ctx)
    (hretry : ctx.retry = true) {selected : SelectedBackend}
    (hgranted : ∃ granted, account = { before with granted })
    (hprobe : ∀ token ∈ selected.probe,
      account.granted = some (selected.backend.id, token)) :
    (discipline cfg).Obeys (Rest cfg) account (attempt ctx selected) := by
  obtain ⟨granted, rfl⟩ := hgranted
  have hcharged := h.charged
  have hbounded := h.bounded
  rw [hretry, if_pos rfl] at hcharged hbounded
  rw [attempt]
  refine Discipline.obeys_ask.mpr ⟨trivial, fun nowMs _ => ?_⟩
  refine Discipline.obeys_ask.mpr ⟨trivial, fun _ _ => ?_⟩
  rw [Discipline.obeys_bind]
  refine Discipline.Obeys.mono (obeys_releaseOriginSlot ?_) ?_
  · exact h.slot
  rintro _ _ ⟨rfl, rfl⟩
  refine Discipline.obeys_ask.mpr ⟨⟨rfl, hprobe, ?_, hbounded⟩, fun _ _ => ?_⟩
  · exact Nat.le_of_succ_le_succ hcharged
  · exact
      { slot := rfl
        unreported := by
          intro _ slot hslot
          cases hslot
          rfl
        attempts := by
          have hattempts := h.attempts
          show min (ctx.attempts + 1) _ = min (before.entered + 1) _
          omega
        charged := by
          show before.entered + 1 + 0 ≤ before.charged + 1
          omega
        bounded := hbounded
        eligible := h.eligible
        uncharged := h.uncharged }

theorem obeys_upstreamPeer (h : Rest cfg account ctx) (path : Str) :
    (discipline cfg).Obeys (Rest cfg) account
      (upstreamPeer routing ctx path) := by
  rw [upstreamPeer]
  split
  · rename_i hretry
    refine Discipline.obeys_ask.mpr ⟨trivial, fun nowMs _ => ?_⟩
    refine Discipline.obeys_bind.mpr ((obeys_selectAt path nowMs).mono ?_)
    rintro account' result ⟨hgranted, -, hresult⟩
    cases result with
    | some selected =>
        exact obeys_attempt h hretry hgranted (hresult selected rfl).2
    | none =>
        obtain ⟨granted, rfl⟩ := hgranted
        exact (h.regrant granted).stop
  · exact h

theorem obeys_body (what : Hook) (account : Account) (ctx : OriginCtx)
    (h : Rest cfg account ctx) :
    (discipline cfg).Obeys (Rest cfg) account (body routing cfg what ctx) := by
  cases what with
  | upstreamPeer path => exact obeys_upstreamPeer h path
  | failToConnect =>
      refine Discipline.obeys_bind.mpr
        ((obeys_recordOriginOutcome h false).mono ?_)
      intro account' ctx' h'
      exact Discipline.obeys_bind.mpr (obeys_decideRetry h')
  | errorWhileProxy e clientReused retryBufferTruncated =>
      refine Discipline.obeys_bind.mpr
        ((obeys_recordOriginOutcome h false).mono ?_)
      intro account' ctx' h'
      split
      · exact Discipline.obeys_bind.mpr (obeys_decideRetry h')
      · exact h'.stop
  | upstreamResponseFilter status micros =>
      rw [body, upstreamResponseFilter]
      split
      · rename_i slot hslot
        refine Discipline.obeys_ask.mpr ⟨?_, fun _ _ => ?_⟩
        · exact h.slot.trans (congrArg _ hslot)
        · exact obeys_recordOriginOutcome h _
      · exact obeys_recordOriginOutcome h _
  | upstreamResponseBodyFilter late endOfStream =>
      rw [body, upstreamResponseBodyFilter]
      split
      · exact h
      split
      · refine (obeys_releaseOriginSlot h.slot).mono ?_
        rintro _ _ ⟨rfl, rfl⟩
        exact h.release
      · exact h
  | logging =>
      refine (obeys_releaseOriginSlot h.slot).mono ?_
      rintro _ _ ⟨rfl, rfl⟩
      exact h.release
  | setHealthy id healthy => exact ⟨trivial, fun _ _ => h⟩

/-! ## What an access does to an account -/

/-- The token that an access reports. -/
def reported : Sigma Reply → Option (ℕ × ProbeToken)
  | ⟨.recordOutcome id (some token) _ _, _⟩ => some (id, token)
  | _ => none

/-- The token that an access hands out. -/
def issued : Sigma Reply → Option (ℕ × ProbeToken)
  | ⟨.allowance id _, some (.probe token)⟩ => some (id, token)
  | _ => none

def isEnter : Sigma Reply → Bool
  | ⟨.enter _ _, _⟩ => true
  | _ => false

def isMark : Sigma Reply → Bool
  | ⟨.mark _, _⟩ => true
  | _ => false

def isUnflag : Sigma Reply → Bool
  | ⟨.unflag _, _⟩ => true
  | _ => false

/-- A slot on a backend, as a number. -/
def Account.holds (id : ℕ) (account : Account) : ℕ :=
  if account.slot = some id then 1 else 0

theorem Account.holds_le_one (account : Account) (id : ℕ) :
    account.holds id ≤ 1 := by
  rw [Account.holds]
  split <;> omega

variable {query : Access} (answer : Reply query)

theorem entered_next :
    ((discipline cfg).next account query answer).entered =
      account.entered + (isEnter ⟨query, answer⟩).toNat := by
  cases query with
  | allowance => cases answer with
      | none => rfl
      | some allowance => cases allowance <;> rfl
  | _ => rfl

theorem charged_next
    (hpermits : (discipline cfg).permits account query) :
    ((discipline cfg).next account query answer).charged +
        (isUnflag ⟨query, answer⟩).toNat =
      account.charged + (isMark ⟨query, answer⟩).toNat := by
  cases query with
  | allowance => cases answer with
      | none => rfl
      | some allowance => cases allowance <;> rfl
  | unflag => exact Nat.sub_add_cancel hpermits.1
  | _ => rfl

theorem eligible_next :
    ((discipline cfg).next account query answer).eligible =
      account.eligible := by
  cases query with
  | allowance => cases answer with
      | none => rfl
      | some allowance => cases allowance <;> rfl
  | _ => rfl

/-- What is permitted of the accesses that cost something. -/
theorem permits_cost (hpermits : (discipline cfg).permits account query) :
    (isEnter ⟨query, answer⟩ = true → isUnflag ⟨query, answer⟩ = false ∧
        account.entered ≤ account.charged ∧
        (cfg.maxAttempts < 2 ^ 32 →
          account.entered < max 1 cfg.maxAttempts)) ∧
      (isUnflag ⟨query, answer⟩ = true →
        account.entered ≤ account.charged) ∧
      (isMark ⟨query, answer⟩ = true → account.eligible = true) := by
  cases query with
  | enter => exact ⟨fun _ => ⟨rfl, hpermits.2.2⟩, nofun, nofun⟩
  | unflag => exact ⟨nofun, fun _ => hpermits.2, nofun⟩
  | mark => exact ⟨nofun, nofun, fun _ => hpermits⟩
  | _ => exact ⟨nofun, nofun, nofun⟩

/-- A token that is reported, or may yet be, was handed out or could be
reported before. -/
theorem count_tokens_next
    (hpermits : (discipline cfg).permits account query)
    (key : ℕ × ProbeToken) :
    (reported ⟨query, answer⟩).toList.count key +
        ((discipline cfg).next account query answer).tokens.count key ≤
      account.tokens.count key + (issued ⟨query, answer⟩).toList.count key := by
  have hsame : 0 + account.tokens.count key ≤ account.tokens.count key :=
    (Nat.zero_add _).le
  cases query with
  | enter id probe =>
      cases probe with
      | none => exact Nat.zero_le _
      | some token =>
          have hgranted : account.granted.toList = [(id, token)] :=
            congrArg Option.toList (hpermits.2.1 token rfl)
          simp only [Account.tokens, hgranted, List.count_append]
          change 0 + (0 + [(id, token)].count key) ≤ _
          omega
  | recordOutcome id probe nowMs ok =>
      have hpending : account.pending = probe.map fun token => (id, token) :=
        congrArg (Option.bind · _) hpermits
      simp only [Account.tokens, hpending, List.count_append]
      cases probe with
      | none => exact (Nat.zero_add _).le
      | some token => exact (Nat.add_comm _ _).le
  | allowance id nowMs =>
      cases answer with
      | none => exact hsame
      | some allowance =>
          cases allowance with
          | probe token =>
              simp only [Account.tokens, List.count_append]
              change 0 + ([(id, token)].count key +
                account.pending.toList.count key) ≤ _ + [(id, token)].count key
              omega
          | denied => exact hsame
          | normal => exact hsame
  | _ => exact hsame

/-- The slots of a request move as the counters do. -/
theorem holds_next (hpermits : (discipline cfg).permits account query)
    (id : ℕ) :
    ((discipline cfg).next account query answer).holds id + given id query =
      account.holds id + taken id query := by
  cases query with
  | enter other probe =>
      have hslot : account.slot = none := hpermits.1
      simp [Account.holds, hslot, discipline, given, taken]
  | leave other =>
      have hslot : account.slot = some other := hpermits
      simp [Account.holds, hslot, discipline, given, taken]
  | allowance other nowMs =>
      cases answer with
      | none => rfl
      | some allowance => cases allowance <;> rfl
  | _ => rfl

end Harmost.Proxy.Origin
