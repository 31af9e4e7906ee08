import Harmost.Proxy.Origin.Discipline
import Harmost.Support.Lists

/-!
# Slots, outcomes and retries of all requests

In every order of turns the in-flight counter of a backend is the number of
requests that hold a slot on it, an attempt is reported once, to the breaker it
was made for, and an attempt that is not the first of its request has been paid
for out of the retry budget.
-/

namespace Harmost.Proxy.Origin

open Harmost.Support
open Harmost.Http
open Harmost.Upstream
open Harmost.Classifier (RequestClass)

variable {cfg : Config.Retry}

/-- The tokens that have been reported. -/
def reports (log : List (ℕ × Sigma Reply)) : List (ℕ × ProbeToken) :=
  log.filterMap fun entry => reported entry.2

/-- How many accesses are of a kind. -/
def accesses (kind : Sigma Reply → Bool) (log : List (ℕ × Sigma Reply)) : ℕ :=
  log.countP fun entry => kind entry.2

/-- A quantity of accounts, over all of them. -/
def summed (f : Account → ℕ) (accounts : AssocMap ℕ Account) : ℕ :=
  accounts.total fun _ account => f account

/-- The shared state in terms of the accounts: the counters are the slots that
are held, and a token is in one place at most, where it may be reported or where
it was. -/
structure Inv (n : ℕ) (shared : Shared) (log : List (ℕ × Sigma Reply))
    (accounts : AssocMap ℕ Account) : Prop where
  length : shared.upstreams.state.length = n
  slots : ∀ id, ∀ s ∈ shared.upstreams.state[id]?,
    s.inFlight < 2 ^ 64 ∧
      s.inFlight ≡ summed (Account.holds id) accounts [MOD 2 ^ 64]
  tokens : ∀ key, (reports log).count key +
      summed (fun account => account.tokens.count key) accounts ≤
    if key.2.value ≤ shared.upstreams.nextProbe key.1 then 1 else 0
  entered : accesses isEnter log = summed Account.entered accounts
  charged : accesses isMark log =
    accesses isUnflag log + summed Account.charged accounts

variable {n : ℕ} {shared : Shared} {log : List (ℕ × Sigma Reply)}
  {accounts : AssocMap ℕ Account} {thread : ℕ} {account : Account}
  {query : Access} {clock : ℕ}

theorem accesses_cons (kind : Sigma Reply → Bool) (entry : ℕ × Sigma Reply) :
    accesses kind (entry :: log) =
      accesses kind log + (kind entry.2).toNat :=
  countP_cons_toNat _ entry log

theorem count_reports_cons (entry : ℕ × Sigma Reply) (key : ℕ × ProbeToken) :
    (reports (entry :: log)).count key =
      (reported entry.2).toList.count key + (reports log).count key := by
  rw [reports, List.filterMap_cons, reports]
  cases reported entry.2 with
  | none => exact (Nat.zero_add _).symm
  | some token =>
      rw [← List.count_append]
      rfl

theorem Inv.spawn (h : Inv n shared log accounts)
    (hnew : accounts.lookup thread = none) (eligible : Bool) :
    Inv n shared log (accounts.insert thread { eligible }) := by
  have hfresh : ∀ f : Account → ℕ, f { eligible } = 0 →
      summed f (accounts.insert thread { eligible }) = summed f accounts := by
    intro f hzero
    rw [summed, AssocMap.total_insert_of_notMem _
      (AList.lookup_eq_none.mp hnew), hzero, Nat.zero_add, summed]
  refine ⟨h.length, fun id => ?_, fun key => ?_, ?_, ?_⟩
  · rw [hfresh (Account.holds id) rfl]
    exact h.slots id
  · rw [hfresh (fun account => account.tokens.count key) rfl]
    exact h.tokens key
  · rw [hfresh Account.entered rfl, h.entered]
  · rw [hfresh Account.charged rfl, h.charged]

theorem over_insert (f : Account → ℕ)
    (haccount : accounts.lookup thread = some account) (account' : Account) :
    f account + summed f (accounts.insert thread account') =
      f account' + summed f accounts :=
  AssocMap.total_insert (fun _ account => f account) haccount account'

section Turn

variable {answer : Reply query} {after : Shared}
  (hanswer : shared.answer clock query = (answer, after))
include hanswer

/-- A token is handed out for the first time. -/
theorem nextProbe_of_issued {key : ℕ × ProbeToken}
    (hissued : issued ⟨query, answer⟩ = some key) :
    key.2.value = shared.upstreams.nextProbe key.1 + 1 ∧
      after.upstreams.nextProbe key.1 = key.2.value := by
  cases query with
  | allowance id nowMs =>
      cases answer with
      | none => cases hissued
      | some allowance =>
          cases allowance with
          | probe token =>
              cases hissued
              exact Shared.nextProbe_of_probe hanswer
          | denied | normal => cases hissued
  | _ => cases hissued

variable (h : Inv n shared log accounts)
  (haccount : accounts.lookup thread = some account)
  (hpermits : (discipline cfg).permits account query)
include h haccount hpermits

theorem Inv.slots_turn (id : ℕ) :
    ∀ s ∈ after.upstreams.state[id]?, s.inFlight < 2 ^ 64 ∧
      s.inFlight ≡ summed (Account.holds id) (accounts.insert thread
        ((discipline cfg).next account query answer)) [MOD 2 ^ 64] := by
  intro s hs
  obtain ⟨before, hbefore, rfl⟩ := Shared.exists_effect hanswer hs
  obtain ⟨hlt, hslots⟩ := h.slots id before hbefore
  refine ⟨inFlight_effect_lt hlt id query, ?_⟩
  have hover := over_insert (Account.holds id) haccount
    ((discipline cfg).next account query answer)
  have hholds := holds_next answer hpermits id
  have hsum : summed (Account.holds id) accounts + taken id query =
      summed (Account.holds id) (accounts.insert thread
        ((discipline cfg).next account query answer)) + given id query := by
    omega
  refine Nat.ModEq.add_right_cancel' (given id query) ?_
  rw [← hsum]
  exact (inFlight_effect id before query).trans (hslots.add_right _)

theorem Inv.tokens_turn (key : ℕ × ProbeToken) :
    (reports ((thread, ⟨query, answer⟩) :: log)).count key +
        summed (fun account => account.tokens.count key)
          (accounts.insert thread
            ((discipline cfg).next account query answer)) ≤
      if key.2.value ≤ after.upstreams.nextProbe key.1 then 1 else 0 := by
  have hbefore := h.tokens key
  have hover := over_insert (fun account => account.tokens.count key) haccount
    ((discipline cfg).next account query answer)
  have hnext := count_tokens_next answer hpermits key
  have hle := Shared.nextProbe_le_of_answer hanswer key.1
  rw [count_reports_cons]
  dsimp only at hover ⊢
  by_cases hissued : issued ⟨query, answer⟩ = some key
  · obtain ⟨hvalue, hafter⟩ := nextProbe_of_issued hanswer hissued
    have hone : (issued ⟨query, answer⟩).toList.count key = 1 := by
      rw [hissued]
      exact List.count_singleton_self
    rw [if_neg (by omega)] at hbefore
    rw [if_pos hafter.ge]
    omega
  · have hnone : (issued ⟨query, answer⟩).toList.count key = 0 :=
      List.count_eq_zero.mpr fun hmem => hissued (Option.mem_toList.mp hmem)
    have hmono : (if key.2.value ≤ shared.upstreams.nextProbe key.1 then 1
        else 0) ≤ if key.2.value ≤ after.upstreams.nextProbe key.1 then 1
          else 0 := by
      split_ifs <;> omega
    omega

theorem Inv.turn :
    Inv n after ((thread, ⟨query, answer⟩) :: log)
      (accounts.insert thread
        ((discipline cfg).next account query answer)) where
  length := (Shared.length_state_of_answer hanswer).trans h.length
  slots := h.slots_turn hanswer haccount hpermits
  tokens := h.tokens_turn hanswer haccount hpermits
  entered := by
    have hover := over_insert Account.entered haccount
      ((discipline cfg).next account query answer)
    have hbefore := h.entered
    rw [entered_next answer] at hover
    rw [accesses_cons]
    dsimp only
    omega
  charged := by
    have hover := over_insert Account.charged haccount
      ((discipline cfg).next account query answer)
    have hbefore := h.charged
    have hnext := charged_next answer hpermits
    rw [accesses_cons, accesses_cons]
    dsimp only
    omega

end Turn

/-- The account that a request starts with. -/
def opening (cfg : Config.Retry) (request : Method × RequestClass) : Account :=
  { eligible := cfg.enabled && Upstream.eligible request.1 request.2 }

/-- The hooks keep the invariant. -/
theorem keeps (routing : Routing) (cfg : Config.Retry) (n : ℕ) :
    (component routing cfg).Keeps (discipline cfg) (opening cfg) (Rest cfg)
      (Inv n) where
  fresh := fun _ =>
    { slot := rfl
      unreported := nofun
      attempts := rfl
      charged := le_rfl
      bounded := fun _ => le_max_left _ _
      eligible := rfl
      uncharged := fun _ => rfl }
  body := obeys_body
  spawn := fun _ h hnew => h.spawn hnew _
  turn := fun h haccount hpermits hanswer =>
    ⟨trivial, h.turn (Option.some.inj hanswer) haccount hpermits⟩

theorem inv_start (addresses : List Str) (strategy : Config.LoadBalancing)
    (breaker : Config.Breaker) (cfg : Config.Retry) :
    Inv addresses.length (start addresses strategy breaker cfg).object []
      ∅ where
  length := by
    simp [start, UpstreamPool.new, UpstreamPool.enumerate]
  slots := by
    intro id s hs
    have hmem := List.mem_of_getElem? hs
    obtain ⟨-, -, rfl⟩ := List.mem_map.mp hmem
    exact ⟨Nat.two_pow_pos 64, Nat.ModEq.refl _⟩
  tokens := fun _ => Nat.zero_le _
  entered := rfl
  charged := rfl

theorem accounted_after (addresses : List Str)
    (strategy : Config.LoadBalancing) (breaker : Config.Breaker)
    (cfg : Config.Retry)
    (moves : List (Move ℕ (Method × RequestClass) Hook)) :
    let w := after addresses strategy breaker cfg moves
    ∃ accounts, Component.Accounted (discipline cfg) (opening cfg) (Rest cfg) w
        accounts ∧ Inv addresses.length w.object w.log accounts :=
  (keeps _ cfg addresses.length).run _
    ⟨∅, Component.accounted_empty _, inv_start addresses strategy breaker cfg⟩
    moves

/-! ## Slots -/

/-- Does the request rest with a slot on the backend?  As a number. -/
def restsOn (id : ℕ) : Prog Reply OriginCtx → ℕ
  | .done ctx => if ctx.originSlot.map InFlightGuard.id = some id then 1 else 0
  | .access _ _ => 0

/-- Is the request inside a hook?  As a number. -/
def inHook : Prog Reply OriginCtx → ℕ
  | .done _ => 0
  | .access _ _ => 1

theorem holds_bounds {account : Account} {program : Prog Reply OriginCtx}
    (h : (discipline cfg).Obeys (Rest cfg) account program) (id : ℕ) :
    restsOn id program ≤ account.holds id ∧
      account.holds id ≤ restsOn id program + inHook program := by
  cases program with
  | done ctx =>
      have hrest : Rest cfg account ctx := h
      have hholds : account.holds id = restsOn id (.done ctx) := by
        rw [Account.holds, hrest.slot]
        rfl
      exact ⟨hholds.ge, hholds.le⟩
  | access query resume => exact ⟨Nat.zero_le _, account.holds_le_one id⟩

/-- As long as there are fewer requests than a machine word can count, the
in-flight counter of a backend is at least the number of requests that rest
with a slot on it, and at most that and the requests that are inside a hook.
When no hook is running it is exact. -/
theorem inFlight_counts_slots (addresses : List Str)
    (strategy : Config.LoadBalancing) (breaker : Config.Breaker)
    (cfg : Config.Retry)
    (moves : List (Move ℕ (Method × RequestClass) Hook)) (id : ℕ)
    (hid : id < addresses.length)
    (hfew : (after addresses strategy breaker cfg moves).threads.entries.length
      < 2 ^ 64) :
    let w := after addresses strategy breaker cfg moves
    AssocMap.total (fun _ => restsOn id) w.threads ≤
        w.object.upstreams.inFlight id ∧
      w.object.upstreams.inFlight id ≤
        AssocMap.total (fun _ => restsOn id) w.threads +
          AssocMap.total (fun _ => inHook) w.threads := by
  intro w
  obtain ⟨accounts, haccounts, hinv⟩ :=
    accounted_after addresses strategy breaker cfg moves
  have hlower : AssocMap.total (fun _ => restsOn id) w.threads ≤
      summed (Account.holds id) accounts :=
    haccounts.total_le fun _ _ hobeys => (holds_bounds hobeys id).1
  have hupper : summed (Account.holds id) accounts ≤
      AssocMap.total (fun _ => restsOn id) w.threads +
        AssocMap.total (fun _ => inHook) w.threads := by
    rw [← AssocMap.total_add]
    exact haccounts.le_total
      (f := fun program => restsOn id program + inHook program)
      fun _ _ hobeys => (holds_bounds hobeys id).2
  have hlt : summed (Account.holds id) accounts < 2 ^ 64 := by
    refine lt_of_le_of_lt ?_ hfew
    rw [← AssocMap.total_one]
    exact haccounts.le_total (f := fun _ => 1)
      fun account _ _ => account.holds_le_one id
  have hs := List.getElem?_eq_getElem (hinv.length.symm ▸ hid)
  obtain ⟨hword, hmod⟩ := hinv.slots id _ hs
  have hexact : w.object.upstreams.inFlight id =
      summed (Account.holds id) accounts := by
    rw [UpstreamPool.inFlight, hs]
    exact hmod.eq_of_lt_of_lt hword hlt
  rw [hexact]
  exact ⟨hlower, hupper⟩

/-- One request makes an attempt. -/
def attemptOnce : List (Move ℕ (Method × RequestClass) Hook) :=
  .spawn 0 (.get, .publicDocument) :: .call 0 (.upstreamPeer ['/']) ::
    List.replicate 6 (.turn 0 5)

theorem inFlight_counts_slots_once :
    (after [['a']] .roundRobin {} { enabled := true }
      attemptOnce).object.upstreams.inFlight 0 = 1 := by
  have hbounds := inFlight_counts_slots [['a']] .roundRobin {}
    { enabled := true } attemptOnce 0 (by decide) (by decide)
  exact Nat.le_antisymm hbounds.2 hbounds.1

/-! ## Outcomes -/

def isOutcome : Sigma Reply → Bool
  | ⟨.recordOutcome _ _ _ _, _⟩ => true
  | _ => false

/-- The access that handed a token out, with no attempt since. -/
def GrantedIn (history : List (Sigma Reply)) (id : ℕ) (token : ProbeToken) :
    Prop :=
  ∃ between nowMs older,
    history = between ++ ⟨.allowance id nowMs, some (.probe token)⟩ :: older ∧
      ∀ entry ∈ between, isEnter entry = false

/-- The attempt that an outcome belongs to, with neither an attempt nor an
outcome since. -/
def AttemptedIn (history : List (Sigma Reply)) (id : ℕ)
    (probe : Option ProbeToken) : Prop :=
  ∃ between older, history = between ++ ⟨.enter id probe, ()⟩ :: older ∧
    (∀ entry ∈ between, isEnter entry = false ∧ isOutcome entry = false) ∧
    ∀ token ∈ probe, GrantedIn older id token

variable {history : List (Sigma Reply)}

theorem GrantedIn.cons {id : ℕ} {token : ProbeToken}
    (h : GrantedIn history id token) {entry : Sigma Reply}
    (hentry : isEnter entry = false) :
    GrantedIn (entry :: history) id token := by
  obtain ⟨between, nowMs, older, rfl, hbetween⟩ := h
  exact ⟨entry :: between, nowMs, older, rfl,
    List.forall_mem_cons.mpr ⟨hentry, hbetween⟩⟩

theorem AttemptedIn.cons {id : ℕ} {probe : Option ProbeToken}
    (h : AttemptedIn history id probe) {entry : Sigma Reply}
    (hentry : isEnter entry = false ∧ isOutcome entry = false) :
    AttemptedIn (entry :: history) id probe := by
  obtain ⟨between, older, rfl, hbetween, htoken⟩ := h
  exact ⟨entry :: between, older, rfl,
    List.forall_mem_cons.mpr ⟨hentry, hbetween⟩, htoken⟩

/-- What the account of a request says about its tokens is in its history. -/
theorem history_of_trace {request : Method × RequestClass}
    {account : Account}
    (h : (discipline cfg).Trace (opening cfg request) history account) :
    (∀ id token, account.granted = some (id, token) →
        GrantedIn history id token) ∧
      ∀ id probe, account.unreported = some (id, probe) →
        AttemptedIn history id probe := by
  induction h with
  | nil =>
      refine ⟨fun id token hnone => ?_, fun id probe hnone => ?_⟩
      · cases hnone
      · cases hnone
  | @cons history account query htrace hpermits answer _ ih =>
      obtain ⟨hgranted, hunreported⟩ := ih
      cases query with
      | enter id probe =>
          refine ⟨nofun, fun id' probe' hsome => ?_⟩
          cases hsome
          refine ⟨[], history, rfl, nofun, ?_⟩
          exact fun token htoken =>
            hgranted id token (hpermits.2.1 token htoken)
      | recordOutcome id probe nowMs ok =>
          exact ⟨fun id' token h => (hgranted id' token h).cons rfl, nofun⟩
      | allowance id nowMs =>
          have hkept : ∀ id' token, account.granted = some (id', token) →
              GrantedIn (⟨.allowance id nowMs, answer⟩ :: history) id' token :=
            fun id' token h => (hgranted id' token h).cons rfl
          cases answer with
          | none =>
              exact ⟨hkept,
                fun id' probe h => (hunreported id' probe h).cons ⟨rfl, rfl⟩⟩
          | some allowance =>
              refine ⟨?_, fun id' probe h => ?_⟩
              · cases allowance with
                | probe token =>
                    intro id' token' hsome
                    cases hsome
                    exact ⟨[], nowMs, history, rfl, nofun⟩
                | denied => exact hkept
                | normal => exact hkept
              · refine (hunreported id' probe ?_).cons ⟨rfl, rfl⟩
                cases allowance <;> exact h
      | _ =>
          exact ⟨fun id' token h => (hgranted id' token h).cons rfl,
            fun id' probe h => (hunreported id' probe h).cons ⟨rfl, rfl⟩⟩

/-- An outcome that a request reports is that of its last attempt, which it has
not reported before: it goes to the breaker of the backend that the attempt was
made to, and with a token only if that breaker handed it to this request for the
attempt.  No token is ever reported twice. -/
theorem outcome_of_last_attempt (addresses : List Str)
    (strategy : Config.LoadBalancing) (breaker : Config.Breaker)
    (cfg : Config.Retry)
    (moves : List (Move ℕ (Method × RequestClass) Hook)) :
    let w := after addresses strategy breaker cfg moves
    (∀ thread newer id probe nowMs ok answer older,
        w.own thread =
            newer ++ ⟨.recordOutcome id probe nowMs ok, answer⟩ :: older →
          AttemptedIn older id probe) ∧
      (reports w.log).Nodup := by
  intro w
  obtain ⟨accounts, haccounts, hinv⟩ :=
    accounted_after addresses strategy breaker cfg moves
  constructor
  · intro thread newer id probe nowMs ok answer older hown
    obtain ⟨request, account, htrace, hpermits⟩ := haccounts.exists_permits hown
    exact (history_of_trace htrace).2 id probe hpermits
  · rw [List.nodup_iff_count_le_one]
    intro key
    refine (Nat.le_add_right _ _).trans ((hinv.tokens key).trans ?_)
    split
    · exact le_rfl
    · exact Nat.zero_le 1

/-- The attempt fails, and the retry budget allows another. -/
def connectFails : List (Move ℕ (Method × RequestClass) Hook) :=
  attemptOnce ++ .call 0 .failToConnect :: List.replicate 6 (.turn 0 7)

theorem outcome_of_last_attempt_connectFails :
    AttemptedIn
      [⟨.nowMs, (7 : ℕ)⟩, ⟨.enter 0 none, ()⟩, ⟨.recordAttempt 5, ()⟩,
        ⟨.nowMs, (5 : ℕ)⟩, ⟨.nextCursor, (0 : ℕ)⟩, ⟨.isHealthy 0, false⟩,
        ⟨.nowMs, (5 : ℕ)⟩] 0 none :=
  (outcome_of_last_attempt [['a']] .roundRobin {} { enabled := true }
    connectFails).1 0
      [⟨.retryAllowance 7, (3 : ℕ)⟩, ⟨.spent 7, (1 : ℕ)⟩, ⟨.mark 7, ()⟩,
        ⟨.nowMs, (7 : ℕ)⟩] 0 none 7 false () _ rfl

/-! ## Retries -/

theorem counts_of_trace {request : Method × RequestClass} {account : Account}
    (h : (discipline cfg).Trace (opening cfg request) history account) :
    account.entered = history.countP isEnter ∧
      account.charged + history.countP isUnflag = history.countP isMark ∧
      account.entered ≤ account.charged + 1 ∧
      (cfg.maxAttempts < 2 ^ 32 → account.entered ≤ max 1 cfg.maxAttempts) ∧
      account.eligible = (opening cfg request).eligible ∧
      (account.eligible = false → history.countP isMark = 0) := by
  induction h with
  | nil =>
      exact ⟨rfl, rfl, Nat.zero_le _, fun _ => Nat.zero_le _, rfl, fun _ => rfl⟩
  | @cons history account query htrace hpermits answer _ ih =>
      obtain ⟨hentered, hcharged, hpaid, hmax, heligible, hmark⟩ := ih
      obtain ⟨henter, hunflag, hcost⟩ := permits_cost answer hpermits
      have hnext := charged_next answer hpermits
      rw [entered_next answer, eligible_next answer]
      simp only [countP_cons_toNat]
      refine ⟨by omega, by omega, ?_, fun hlt => ?_, heligible,
        fun hfalse => ?_⟩
      · cases he : isEnter ⟨query, answer⟩ with
        | true =>
            rw [(henter he).1] at hnext
            have hle := (henter he).2.1
            simp only [Bool.toNat_true, Bool.toNat_false] at hnext ⊢
            omega
        | false =>
            cases hu : isUnflag ⟨query, answer⟩ with
            | true =>
                have hle := hunflag hu
                rw [hu] at hnext
                simp only [Bool.toNat_true, Bool.toNat_false] at hnext ⊢
                omega
            | false =>
                rw [hu] at hnext
                simp only [Bool.toNat_false] at hnext ⊢
                omega
      · cases he : isEnter ⟨query, answer⟩ with
        | true => exact (henter he).2.2 hlt
        | false => exact hmax hlt
      · rw [hmark hfalse]
        cases hm : isMark ⟨query, answer⟩ with
        | true => exact absurd (hfalse.symm.trans (hcost hm)) Bool.false_ne_true
        | false => rfl

/-- The origin is asked at most `max_attempts` times for one request, and once
for a request that is not safe to repeat, whose class is not, or with retries
disabled; such a request does not touch the retry budget either.  Over all
requests, what the origin is asked beyond once for each of them is paid for out
of the budget. -/
theorem attempts_paid (addresses : List Str)
    (strategy : Config.LoadBalancing) (breaker : Config.Breaker)
    (cfg : Config.Retry) (hmax : cfg.maxAttempts < 2 ^ 32)
    (moves : List (Move ℕ (Method × RequestClass) Hook)) :
    let w := after addresses strategy breaker cfg moves
    (∀ thread, (w.own thread).countP isEnter ≤ max 1 cfg.maxAttempts) ∧
      (∀ thread ctx, w.threads.lookup thread = some (.done ctx) →
        (cfg.enabled && Upstream.eligible ctx.method ctx.class') = false →
          (w.own thread).countP isEnter ≤ 1 ∧
            (w.own thread).countP isMark = 0) ∧
      accesses isEnter w.log + accesses isUnflag w.log ≤
        w.threads.entries.length + accesses isMark w.log := by
  intro w
  obtain ⟨accounts, haccounts, hinv⟩ :=
    accounted_after addresses strategy breaker cfg moves
  refine ⟨fun thread => ?_, fun thread ctx hthread hineligible => ?_, ?_⟩
  · by_cases hne : w.own thread = []
    · rw [hne]
      exact Nat.zero_le _
    · obtain ⟨request, account, htrace⟩ := haccounts.exists_trace hne
      obtain ⟨hentered, -, -, hbound, -⟩ := counts_of_trace htrace
      exact hentered.symm.trans_le (hbound hmax)
  · obtain ⟨account, -, hrest, request, htrace⟩ :=
      haccounts.exists_account hthread
    have hrest : Rest cfg account ctx := hrest
    have heligible := hrest.eligible.trans hineligible
    obtain ⟨hentered, hcharged, hpaid, -, -, hmark⟩ := counts_of_trace htrace
    rw [hrest.uncharged heligible] at hpaid
    exact ⟨hentered.symm.trans_le hpaid, hmark heligible⟩
  · have hpaid : summed Account.entered accounts ≤
        summed Account.charged accounts + w.threads.entries.length := by
      refine le_trans ?_ (Nat.add_le_add_left (haccounts.length_le) _)
      rw [← AssocMap.total_one, summed, summed, ← AssocMap.total_add]
      refine AssocMap.total_le_total_of_lookup fun thread account hlookup => ?_
      obtain ⟨request, htrace⟩ := haccounts.trace_of_lookup hlookup
      exact (counts_of_trace htrace).2.2.1
    have hentered := hinv.entered
    have hcharged := hinv.charged
    change accesses isEnter w.log = _ at hentered
    change accesses isMark w.log = accesses isUnflag w.log + _ at hcharged
    omega

/-- The one attempt was free, and leave for a second one is paid for. -/
theorem attempts_paid_connectFails :
    let w := after [['a']] .roundRobin {} { enabled := true } connectFails
    (w.own 0).countP isEnter = 1 ∧ (w.own 0).countP isMark = 1 ∧
      (∀ thread, (w.own thread).countP isEnter ≤ 2) ∧
      accesses isEnter w.log + accesses isUnflag w.log ≤
        w.threads.entries.length + accesses isMark w.log := by
  intro w
  obtain ⟨hmost, -, hpaid⟩ := attempts_paid [['a']] .roundRobin {}
    { enabled := true } (by decide) connectFails
  exact ⟨rfl, rfl, hmost, hpaid⟩

end Harmost.Proxy.Origin
