import Harmost.Upstream.Gate.Follow

/-!
# Calls in any interleaving

However the accesses of the threads interleave, the breaker behaves as if its
calls were made one after the other.  What is proved of such runs therefore
holds of every interleaving, among it that no token is handed out twice.
-/

namespace Harmost.Upstream

open Harmost.Support

namespace Gate

open Breaker (Call Transition)

variable {breaker : Breaker} {s s' : Gate} {b b' : Breaker} {stage : Stage}
  {account account' : Account} {effect : Option Answered} {query : Access}
  {reply : Reply query} {log : List (ℕ × Sigma Reply)} {thread other : ℕ}

/-! ## Any interleaving -/

/-- The accounts are those of the log, and the openings that are not counted
yet are the only ones missing. -/
def Inv (breaker : Breaker) (s : Gate) (log : List (ℕ × Sigma Reply))
    (accounts : AssocMap ℕ Account) : Prop :=
  (∀ thread, accountOf breaker thread log =
      (accounts.lookup thread).getD {}) ∧
    ∃ b, Linear breaker s log b ∧ b.trips = s.trips +
      AssocMap.total (fun _ account => account.stage.pending) accounts

theorem linear_new (cfg : Config.Breaker) :
    Linear (.new cfg) {} [] (.new cfg) where
  explains := .nil
  view := fun _ =>
    { enabled := rfl
      openForMs := rfl
      openUntilMs := rfl
      quiet := fun _ => ⟨rfl, rfl⟩
      facts := trivial
      locked := nofun
      on := fun h => absurd rfl h }
  told := fun _ => rfl
  alone := fun _ _ h => absurd h Bool.noConfusion
  drawn := rfl

theorem Inv.spawn {accounts : AssocMap ℕ Account}
    (h : Inv breaker s log accounts) (hnew : accounts.lookup thread = none) :
    Inv breaker s log (accounts.insert thread {}) := by
  obtain ⟨haccounts, b, hlinear, htrips⟩ := h
  refine ⟨fun other => ?_, b, hlinear, ?_⟩
  · by_cases hother : other = thread
    · subst hother
      rw [haccounts, hnew, AList.lookup_insert]
      rfl
    · rw [haccounts, AList.lookup_insert_ne hother]
  · rw [AssocMap.total_insert_of_notMem _ (AList.lookup_eq_none.mp hnew),
      htrips]
    exact congrArg (s.trips + ·) (Nat.zero_add _).symm

theorem Inv.turn {accounts : AssocMap ℕ Account} {outside : ℕ × ℕ}
    (h : Inv breaker s log accounts)
    (haccount : accounts.lookup thread = some account)
    (hpermits : Permits breaker account.stage query)
    (hanswer : answer s query outside = some (reply, s')) :
    Inv breaker s' ((thread, ⟨query, reply⟩) :: log)
      (accounts.insert thread (account.next breaker query reply)) := by
  obtain ⟨haccounts, b, hlinear, htrips⟩ := h
  have hself : accountOf breaker thread log = account := by
    rw [haccounts, haccount]
    rfl
  have hview := hlinear.view thread
  rw [hself] at hview
  obtain ⟨b', hsound⟩ :
      Follows breaker s b account.results account.stage query reply s' :=
    follows hview hpermits hanswer
  refine ⟨fun other => ?_, b', ?_, ?_⟩
  · by_cases hother : other = thread
    · subst hother
      rw [accountOf_cons_self, hself, AList.lookup_insert]
      rfl
    · rw [accountOf_cons_of_ne (Ne.symm hother), haccounts,
        AList.lookup_insert_ne hother]
  · refine hlinear.turn ?_
    rwa [hself]
  · have htotal := AssocMap.total_insert
      (fun (_ : ℕ) (account : Account) => account.stage.pending) haccount
      (account.next breaker query reply)
    have hcounted : b'.trips + s.trips + account.stage.pending =
        b.trips + s'.trips +
          (account.next breaker query reply).stage.pending :=
      hsound.trips
    omega

theorem keeps (breaker : Breaker) :
    (component breaker).Keeps (discipline breaker) (fun _ => {}) Rests
      (Inv breaker) where
  fresh := fun _ => rfl
  body := by
    rintro call _ results rfl
    exact obeys_body call results
  spawn := fun _ hinv hnew => hinv.spawn hnew
  turn := fun hinv haccount hpermits hanswer =>
    ⟨trivial, hinv.turn haccount hpermits hanswer⟩

/-- An order of the calls explains what the threads were told, and what is in
memory. -/
structure Linearized (breaker : Breaker)
    (w : World Reply Gate (List Answered)) (history : List (ℕ × Answered))
    (b : Breaker) : Prop where
  explains : Explains breaker history b
  /-- A thread between two calls has made the calls of the order that are its
  own, and was told their answers. -/
  told : ∀ thread results,
    w.threads.lookup thread = some (.done results) →
      entriesOf thread history = results
  openUntilMs : b.openUntilMs = w.object.openUntilMs
  probes : w.object.locked = false → Agree w.object b
  trips : w.AtRest → b.trips = w.object.trips

/-- Is a thread inside a call? -/
def busy : Prog Reply (List Answered) → ℕ
  | .done _ => 0
  | .access _ _ => 1

theorem pending_le_busy {program : Prog Reply (List Answered)}
    (h : (discipline breaker).Obeys Rests account program) :
    account.stage.pending ≤ busy program := by
  cases program with
  | done results =>
      obtain rfl : account = { results } := h
      exact le_rfl
  | access query resume =>
      unfold Stage.pending
      split
      · exact le_rfl
      · exact Nat.zero_le _

theorem total_busy {w : World Reply Gate (List Answered)} (h : w.AtRest) :
    AssocMap.total (fun _ => busy) w.threads = 0 := by
  have hle : AssocMap.total (fun _ => busy) w.threads ≤
      AssocMap.total (fun _ _ => 0) w.threads := by
    refine AssocMap.total_le_total_of_lookup fun thread program hthread => ?_
    obtain ⟨results, rfl⟩ := h thread program hthread
    exact le_rfl
  simpa [AssocMap.total] using hle

theorem history_suffix {log' : List (ℕ × Sigma Reply)} (h : log <:+ log') :
    history breaker log <:+ history breaker log' := by
  obtain ⟨newer, rfl⟩ := h
  induction newer with
  | nil => exact List.suffix_refl _
  | cons entry newer ih => exact ih.trans (List.suffix_append _ _)

theorem exists_linearized (cfg : Config.Breaker)
    (moves : List (Move (ℕ × ℕ) Unit Call)) :
    ∃ b, Linearized (.new cfg) (after (.new cfg) moves)
      (history (.new cfg) (after (.new cfg) moves).log) b := by
  obtain ⟨accounts, haccounted, hof, b, hlinear, htrips⟩ :=
    (keeps (.new cfg)).run ⟨{}, ∅, []⟩
      ⟨∅, Component.accounted_empty _, fun _ => rfl, _, linear_new cfg, rfl⟩
      moves
  change Component.Accounted _ _ _ (after (.new cfg) moves) _ at haccounted
  change Linear _ (after (.new cfg) moves).object
    (after (.new cfg) moves).log b at hlinear
  refine ⟨b, hlinear.explains, ?_, (hlinear.view 0).openUntilMs,
    (hlinear.view 0).quiet, ?_⟩
  · intro thread results hthread
    obtain ⟨account, haccount, hrests, -⟩ := haccounted.exists_account hthread
    obtain rfl : account = { results } := hrests
    have haccountOf : accountOf (.new cfg) thread (after (.new cfg) moves).log =
        { results } := by
      refine (hof thread).trans ?_
      rw [haccount]
      rfl
    rw [hlinear.told, haccountOf]
    rfl
  · intro hrest
    have hpending := haccounted.le_total
      (f := busy) (g := fun account => account.stage.pending)
      fun _ _ hobeys => pending_le_busy hobeys
    rw [total_busy hrest, Nat.le_zero] at hpending
    rw [htrips, hpending]
    rfl

/-- In any interleaving the calls have an order, in which each of them returned
what the breaker returns and did what it can do, whichever failures trip it; and
the order of an earlier moment is the beginning of that of a later one. -/
theorem calls_linearized (cfg : Config.Breaker)
    (moves later : List (Move (ℕ × ℕ) Unit Call)) :
    (∃ b, Linearized (.new cfg) (after (.new cfg) moves)
        (history (.new cfg) (after (.new cfg) moves).log) b) ∧
      history (.new cfg) (after (.new cfg) moves).log <:+
        history (.new cfg) (after (.new cfg) (moves ++ later)).log :=
  ⟨exists_linearized cfg moves,
    history_suffix (Component.log_run_append _ _ moves later)⟩

/-! ## Tokens -/

/-- The tokens among the answers. -/
def tokens (results : List Answered) : List ℕ :=
  results.filterMap fun answered =>
    match answered.2 with
    | some (.probe token) => some token.value
    | _ => none

theorem tokens_cons (answered : Answered) (results : List Answered) :
    tokens (answered :: results) = tokens [answered] ++ tokens results := by
  rw [← List.singleton_append, tokens, List.filterMap_append]
  rfl

theorem tokens_answerTo {call : Call} (htransition : Transition b call b') :
    (tokens [(call, answerTo b call)] = [] ∧ b'.nextProbe = b.nextProbe) ∨
      (tokens [(call, answerTo b call)] = [b.nextProbe + 1] ∧
        b'.nextProbe = b.nextProbe + 1) := by
  cases htransition with
  | idle hgrant =>
      refine .inl ⟨?_, rfl⟩
      cases call with
      | allowance nowMs =>
          simp only [Breaker.granted] at hgrant
          cases hallowance : (b.allowance nowMs).1 with
          | probe token => simp [hallowance] at hgrant
          | denied => simp [tokens, answerTo, hallowance]
          | normal => simp [tokens, answerTo, hallowance]
      | _ => rfl
  | probe hopen hdue hgrant =>
      rename_i nowMs
      refine .inr ⟨?_, rfl⟩
      simp only [Breaker.granted] at hgrant
      cases hallowance : (b.allowance nowMs).1 with
      | probe token =>
          simp only [hallowance, Option.some.injEq] at hgrant
          simp [tokens, answerTo, hallowance, hgrant]
      | _ => simp [hallowance] at hgrant
  | _ => exact .inl ⟨rfl, rfl⟩

/-- The tokens are handed out in increasing order. -/
theorem Explains.tokens {start : Breaker} {history : List (ℕ × Answered)}
    (h : Explains start history b) :
    (∀ token ∈ Gate.tokens (history.map Prod.snd), token ≤ b.nextProbe) ∧
      (Gate.tokens (history.map Prod.snd)).Pairwise (· > ·) := by
  induction h with
  | nil => exact ⟨nofun, .nil⟩
  | @cons history b b' call thread _ htransition ih =>
      obtain ⟨hle, hpairwise⟩ := ih
      rw [List.map_cons, tokens_cons]
      obtain ⟨hnone, hnext⟩ | ⟨hone, hnext⟩ := tokens_answerTo htransition
      · rw [hnone, hnext]
        exact ⟨hle, hpairwise⟩
      · rw [hone, hnext]
        refine ⟨?_, List.pairwise_cons.mpr ⟨?_, hpairwise⟩⟩
        · intro token htoken
          rcases List.mem_cons.mp htoken with rfl | hbefore
          · exact le_rfl
          · exact Nat.le_succ_of_le (hle token hbefore)
        · exact fun token hbefore => Nat.lt_succ_of_le (hle token hbefore)

theorem entriesOf_cons_self (answered : Answered)
    (history : List (ℕ × Answered)) :
    entriesOf thread ((thread, answered) :: history) =
      answered :: entriesOf thread history :=
  entriesOf_point_self (some answered) history

theorem entriesOf_cons_of_ne (hne : thread ≠ other) (answered : Answered)
    (history : List (ℕ × Answered)) :
    entriesOf other ((thread, answered) :: history) =
      entriesOf other history :=
  entriesOf_point_of_ne hne (some answered) history

theorem entriesOf_sublist (thread : ℕ) (history : List (ℕ × Answered)) :
    (entriesOf thread history).Sublist (history.map Prod.snd) := by
  induction history with
  | nil => exact .slnil
  | cons entry history ih =>
      obtain ⟨maker, answered⟩ := entry
      by_cases hmaker : maker = thread
      · subst hmaker
        rw [entriesOf_cons_self]
        exact ih.cons_cons answered
      · rw [entriesOf_cons_of_ne hmaker]
        exact ih.cons answered

theorem tokens_entriesOf_sublist (thread : ℕ)
    (history : List (ℕ × Answered)) :
    (tokens (entriesOf thread history)).Sublist
      (tokens (history.map Prod.snd)) :=
  (entriesOf_sublist thread history).filterMap _

theorem tokens_disjoint (hne : thread ≠ other)
    {history : List (ℕ × Answered)}
    (h : (tokens (history.map Prod.snd)).Pairwise (· > ·)) :
    (tokens (entriesOf thread history)).Disjoint
      (tokens (entriesOf other history)) := by
  induction history with
  | nil => exact List.disjoint_nil_left _
  | cons entry history ih =>
      obtain ⟨maker, answered⟩ := entry
      rw [List.map_cons, tokens_cons, List.pairwise_append] at h
      obtain ⟨-, hrest, hnew⟩ := h
      -- a token of the latest call is none of the earlier ones
      have hfresh : ∀ reader, (tokens [answered]).Disjoint
          (tokens (entriesOf reader history)) := by
        intro reader token htoken hbefore
        exact absurd (hnew token htoken token
          ((tokens_entriesOf_sublist reader history).subset hbefore))
          (lt_irrefl token)
      by_cases hthread : maker = thread
      · subst hthread
        rw [entriesOf_cons_self, entriesOf_cons_of_ne hne, tokens_cons]
        exact List.disjoint_append_left.mpr ⟨hfresh other, ih hrest⟩
      · rw [entriesOf_cons_of_ne hthread]
        by_cases hother : maker = other
        · subst hother
          rw [entriesOf_cons_self, tokens_cons]
          exact List.disjoint_append_right.mpr ⟨(hfresh thread).symm, ih hrest⟩
        · rw [entriesOf_cons_of_ne hother]
          exact ih hrest

/-- In any interleaving a thread is handed increasing tokens, and no two
threads the same one. -/
theorem tokens_handed_out_once (cfg : Config.Breaker)
    (moves : List (Move (ℕ × ℕ) Unit Call)) {results results' : List Answered}
    (hthread : (after (.new cfg) moves).threads.lookup thread =
      some (.done results))
    (hother : (after (.new cfg) moves).threads.lookup other =
      some (.done results')) :
    (tokens results).Pairwise (· > ·) ∧
      (thread ≠ other → (tokens results).Disjoint (tokens results')) := by
  obtain ⟨b, hlinearized⟩ := exists_linearized cfg moves
  obtain ⟨-, hpairwise⟩ := hlinearized.explains.tokens
  rw [← hlinearized.told thread results hthread,
    ← hlinearized.told other results' hother]
  exact ⟨hpairwise.sublist (tokens_entriesOf_sublist thread _),
    fun hne => tokens_disjoint hne hpairwise⟩

/-- Thread zero opens the breaker.  Then both threads see the deadline pass,
and thread one has to wait for the lock. -/
def overlapping : List (Move (ℕ × ℕ) Unit Call) :=
  [.spawn 0 (), .spawn 1 (), .call 0 (.record 0 false)] ++
    List.replicate 7 (.turn 0 (1, 1)) ++
    [.call 0 (.allowance 30000), .call 1 (.allowance 60000),
      .turn 0 (0, 0), .turn 1 (0, 0), .turn 0 (0, 0), .turn 1 (0, 0),
      .turn 0 (0, 0), .turn 1 (0, 0)] ++
    List.replicate 5 (.turn 0 (0, 0)) ++ List.replicate 6 (.turn 1 (0, 0))

theorem tokens_handed_out_once_overlapping :
    tokens [(.allowance 30000, some (.probe ⟨1⟩)), (.record 0 false, none)] =
        [1] ∧
      tokens [(.allowance 60000, some (.probe ⟨2⟩))] = [2] ∧
      (tokens [(.allowance 30000, some (.probe ⟨1⟩)),
        (.record 0 false, none)]).Disjoint
          (tokens [(.allowance 60000, some (.probe ⟨2⟩))]) :=
  ⟨rfl, rfl,
    (tokens_handed_out_once { enabled := true, minRequests := 1 } overlapping
      (rfl : AList.lookup 0 _ = _) (rfl : AList.lookup 1 _ = _)).2
      (by decide)⟩

end Gate

end Harmost.Upstream
