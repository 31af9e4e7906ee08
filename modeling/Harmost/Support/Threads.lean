import Harmost.Support.AssocMap
import Harmost.Support.Run

/-!
# Threads that share an object

A program uses a shared object one access at a time: it either has a result, or
it makes an access and goes on with what that returns.  Threads take turns in
any order, and a turn is one access.  Between two calls a thread rests, and its
program is then just its own data.

What a thread may do is said by a discipline.  The account of a thread is what
its accesses so far entitle it to, and which answers it can expect; a program
obeys the discipline if it makes no other access, whatever it is told.  From
there on two things hold in every order of turns: the history of each thread is
one that the discipline allows, and an invariant between the object and the
accounts holds if a permitted access keeps it.
-/

namespace Harmost.Support

/-- A program over an object that answers a query `q` with a `κ q`. -/
inductive Prog {ι : Type} (κ : ι → Type) (α : Type) where
  | done (result : α)
  | access (query : ι) (resume : κ query → Prog κ α)

namespace Prog

variable {ι : Type} {κ : ι → Type} {α β : Type}

protected def bind : Prog κ α → (α → Prog κ β) → Prog κ β
  | .done result, f => f result
  | .access query resume, f =>
      .access query fun answer => (resume answer).bind f

instance : Monad (Prog κ) where
  pure := .done
  bind := Prog.bind

/-- Make an access, and return the answer. -/
def ask (query : ι) : Prog κ (κ query) :=
  .access query .done

/-- Run a program while nobody else uses the object. -/
def alone {σ : Type} (answer : σ → (query : ι) → κ query × σ) :
    Prog κ α → σ → α × σ
  | .done result, s => (result, s)
  | .access query resume, s =>
      (resume (answer s query).1).alone answer (answer s query).2

section Alone

variable {σ : Type} {answer : σ → (query : ι) → κ query × σ}

@[simp] theorem alone_pure (result : α) (s : σ) :
    (pure result : Prog κ α).alone answer s = (result, s) :=
  rfl

@[simp] theorem alone_ask (query : ι) (s : σ) :
    (ask query : Prog κ (κ query)).alone answer s = answer s query :=
  rfl

@[simp] theorem alone_bind (program : Prog κ α) (f : α → Prog κ β) (s : σ) :
    (program >>= f).alone answer s =
      (f (program.alone answer s).1).alone answer
        (program.alone answer s).2 := by
  induction program generalizing s with
  | done result => rfl
  | access query resume ih => exact ih (answer s query).1 (answer s query).2

end Alone

/-- Keep the elements that pass a test, asked for one after the other. -/
def filter (test : α → Prog κ Bool) : List α → Prog κ (List α)
  | [] => pure []
  | a :: rest => do
      let passes ← test a
      let kept ← filter test rest
      pure (if passes then a :: kept else kept)

end Prog

/-! ## Disciplines -/

/-- What an account permits, which answers it expects, and how it changes with
them. -/
structure Discipline {ι : Type} (κ : ι → Type) (γ : Type) where
  permits : γ → ι → Prop
  expects : γ → (query : ι) → κ query → Prop := fun _ _ _ => True
  next : γ → (query : ι) → κ query → γ

namespace Discipline

variable {ι : Type} {κ : ι → Type} {α β γ : Type} (d : Discipline κ γ)

/-- Whatever the answers are of those that can be expected, every access is
permitted, and `post` holds of the account and the result at the end. -/
def Obeys (post : γ → α → Prop) : γ → Prog κ α → Prop
  | account, .done result => post account result
  | account, .access query resume =>
      d.permits account query ∧
        ∀ answer, d.expects account query answer →
          Obeys post (d.next account query answer) (resume answer)

/-- The history of one thread, the latest access first, is one that the
discipline allows, and it leads to an account. -/
inductive Trace (start : γ) : List (Sigma κ) → γ → Prop
  | nil : Trace start [] start
  | cons {history : List (Sigma κ)} {account : γ} {query : ι}
      (h : Trace start history account) (hpermits : d.permits account query)
      {answer : κ query} (hexpects : d.expects account query answer) :
      Trace start (⟨query, answer⟩ :: history) (d.next account query answer)

variable {d} {account : γ}

@[simp] theorem obeys_pure {post : γ → α → Prop} {result : α} :
    d.Obeys post account (pure result) ↔ post account result :=
  Iff.rfl

theorem obeys_ask {query : ι} {f : κ query → Prog κ β} {post : γ → β → Prop} :
    d.Obeys post account (Prog.ask query >>= f) ↔
      d.permits account query ∧ ∀ answer, d.expects account query answer →
        d.Obeys post (d.next account query answer) (f answer) :=
  Iff.rfl

@[simp] theorem obeys_bind {post : γ → β → Prop} {program : Prog κ α}
    {f : α → Prog κ β} :
    d.Obeys post account (program >>= f) ↔
      d.Obeys (fun account result => d.Obeys post account (f result)) account
        program := by
  induction program generalizing account with
  | done result => exact Iff.rfl
  | access query resume ih =>
      exact and_congr_right fun _ =>
        forall_congr' fun answer => imp_congr_right fun _ => ih answer

theorem Obeys.mono {P Q : γ → α → Prop} {program : Prog κ α}
    (h : d.Obeys P account program)
    (himp : ∀ account result, P account result → Q account result) :
    d.Obeys Q account program := by
  induction program generalizing account with
  | done result => exact himp account result h
  | access query resume ih =>
      exact ⟨h.1, fun answer hexpects => ih answer (h.2 answer hexpects)⟩

/-- A program that nobody interrupts ends as its discipline says. -/
theorem Obeys.alone {σ : Type} (answer : σ → (query : ι) → κ query × σ)
    (hexpects : ∀ account s query, d.expects account query (answer s query).1)
    {post : γ → α → Prop} {program : Prog κ α}
    (h : d.Obeys post account program) (s : σ) :
    ∃ account', post account' (program.alone answer s).1 := by
  induction program generalizing account s with
  | done result => exact ⟨account, h⟩
  | access query resume ih => exact ih _ (h.2 _ (hexpects account s query)) _

/-- A filter whose test leaves the account alone keeps some of the
elements. -/
theorem obeys_filter {test : α → Prog κ Bool} {l : List α}
    (htest : ∀ a ∈ l, d.Obeys (fun account' _ => account' = account) account
      (test a)) :
    d.Obeys (fun account' kept => account' = account ∧ kept ⊆ l) account
      (Prog.filter test l) := by
  induction l with
  | nil => exact ⟨rfl, List.Subset.refl _⟩
  | cons a rest ih =>
      obtain ⟨ha, hrest⟩ := List.forall_mem_cons.mp htest
      rw [Prog.filter, obeys_bind]
      refine ha.mono ?_
      rintro _ passes rfl
      rw [obeys_bind]
      refine (ih hrest).mono ?_
      rintro _ kept ⟨rfl, hkept⟩
      refine ⟨rfl, ?_⟩
      cases passes with
      | true => exact List.cons_subset_cons a hkept
      | false => exact List.subset_cons_of_subset a hkept

/-- Every access of a history was permitted by what came before it. -/
theorem Trace.exists_of_append {start : γ} {newer older : List (Sigma κ)}
    {query : ι} {answer : κ query}
    (h : d.Trace start (newer ++ ⟨query, answer⟩ :: older) account) :
    ∃ before, d.Trace start older before ∧ d.permits before query := by
  induction newer generalizing account with
  | nil =>
      rcases h with _ | ⟨htrace, hpermits, -⟩
      exact ⟨_, htrace, hpermits⟩
  | cons entry newer ih =>
      rcases h with _ | ⟨htrace, -, _⟩
      exact ih htrace

end Discipline

/-! ## Turns -/

/-- An object and the threads that use it. -/
structure World {ι : Type} (κ : ι → Type) (σ ℓ : Type) where
  object : σ
  threads : AssocMap ℕ (Prog κ ℓ) := ∅
  /-- Which thread made which access, the latest first. -/
  log : List (ℕ × Sigma κ) := []

/-- What there is to call, and how the object answers. -/
structure Component {ι : Type} (κ : ι → Type) (σ φ ℓ ν μ : Type) where
  /-- One access.  What the surroundings decide about it is an argument, and
  there is no answer while it has to wait. -/
  answer : σ → (query : ι) → φ → Option (κ query × σ)
  /-- The data of a new thread. -/
  fresh : ν → ℓ
  /-- What a call does. -/
  body : μ → ℓ → Prog κ ℓ

inductive Move (φ ν μ : Type) where
  | spawn (thread : ℕ) (with' : ν)
  | call (thread : ℕ) (what : μ)
  | turn (thread : ℕ) (outside : φ)

variable {ι : Type} {κ : ι → Type} {σ φ ℓ ν μ γ : Type}

namespace World

/-- The accesses of one thread. -/
def own (w : World κ σ ℓ) (thread : ℕ) : List (Sigma κ) :=
  w.log.filterMap fun entry => if entry.1 = thread then some entry.2 else none

/-- No thread is inside a call. -/
def AtRest (w : World κ σ ℓ) : Prop :=
  ∀ thread program, w.threads.lookup thread = some program →
    ∃ l, program = .done l

theorem own_cons_self {object : σ} {threads : AssocMap ℕ (Prog κ ℓ)}
    {log : List (ℕ × Sigma κ)} {thread : ℕ} {entry : Sigma κ} :
    own ⟨object, threads, (thread, entry) :: log⟩ thread =
      entry :: own ⟨object, threads, log⟩ thread := by
  simp [own]

theorem own_cons_of_ne {object : σ} {threads : AssocMap ℕ (Prog κ ℓ)}
    {log : List (ℕ × Sigma κ)} {thread other : ℕ} {entry : Sigma κ}
    (hne : thread ≠ other) :
    own ⟨object, threads, (thread, entry) :: log⟩ other =
      own ⟨object, threads, log⟩ other := by
  simp [own, hne]

end World

namespace Component

variable (C : Component κ σ φ ℓ ν μ)

/-- A move that does not apply changes nothing. -/
def step (w : World κ σ ℓ) : Move φ ν μ → World κ σ ℓ
  | .spawn thread with' =>
      match w.threads.lookup thread with
      | none =>
          { w with threads := w.threads.insert thread (.done (C.fresh with')) }
      | some _ => w
  | .call thread what =>
      match w.threads.lookup thread with
      | some (.done l) =>
          { w with threads := w.threads.insert thread (C.body what l) }
      | _ => w
  | .turn thread outside =>
      match w.threads.lookup thread with
      | some (.access query resume) =>
          match C.answer w.object query outside with
          | some (answer, object) =>
              { object
                threads := w.threads.insert thread (resume answer)
                log := (thread, ⟨query, answer⟩) :: w.log }
          | none => w
      | _ => w

/-- What one move can do. -/
inductive Step (w : World κ σ ℓ) : World κ σ ℓ → Prop
  | idle : Step w w
  | spawn {thread : ℕ} (with' : ν) (hnew : w.threads.lookup thread = none) :
      Step w
        { w with threads := w.threads.insert thread (.done (C.fresh with')) }
  | call {thread : ℕ} {l : ℓ} (what : μ)
      (hrests : w.threads.lookup thread = some (.done l)) :
      Step w { w with threads := w.threads.insert thread (C.body what l) }
  | turn {thread : ℕ} {query : ι} {resume : κ query → Prog κ ℓ} {outside : φ}
      {answer : κ query} {object : σ}
      (hthread : w.threads.lookup thread = some (.access query resume))
      (hanswer : C.answer w.object query outside = some (answer, object)) :
      Step w
        { object
          threads := w.threads.insert thread (resume answer)
          log := (thread, ⟨query, answer⟩) :: w.log }

theorem step_spec (w : World κ σ ℓ) (move : Move φ ν μ) :
    C.Step w (C.step w move) := by
  cases move with
  | spawn thread with' =>
      rw [step]
      split
      · exact .spawn with' ‹_›
      · exact .idle
  | call thread what =>
      rw [step]
      split
      · exact .call what ‹_›
      · exact .idle
  | turn thread outside =>
      rw [step]
      split
      · split
        · exact .turn ‹_› ‹_›
        · exact .idle
      · exact .idle

/-- What is logged stays. -/
theorem log_run_append (w : World κ σ ℓ) (moves later : List (Move φ ν μ)) :
    (run C.step w moves).log <:+ (run C.step w (moves ++ later)).log := by
  rw [run_append]
  generalize run C.step w moves = w
  induction later generalizing w with
  | nil => exact List.suffix_refl _
  | cons move later ih =>
      rw [run_cons]
      refine List.IsSuffix.trans ?_ (ih (C.step w move))
      have hstep := C.step_spec w move
      generalize C.step w move = w' at hstep
      cases hstep with
      | turn => exact List.suffix_cons _ _
      | _ => exact List.suffix_refl _

/-- The calls obey a discipline, and its accesses keep an invariant of the
object, the log and the accounts of the threads.  At rest, `rest` relates the
account of a thread to its data. -/
structure Keeps (d : Discipline κ γ) (start : ν → γ) (rest : γ → ℓ → Prop)
    (Inv : σ → List (ℕ × Sigma κ) → AssocMap ℕ γ → Prop) : Prop where
  fresh : ∀ with', rest (start with') (C.fresh with')
  body : ∀ what account l, rest account l →
    d.Obeys rest account (C.body what l)
  spawn : ∀ {object log accounts thread} with', Inv object log accounts →
    accounts.lookup thread = none →
      Inv object log (accounts.insert thread (start with'))
  turn : ∀ {object log accounts thread account query outside answer object'},
    Inv object log accounts → accounts.lookup thread = some account →
      d.permits account query →
        C.answer object query outside = some (answer, object') →
          d.expects account query answer ∧
            Inv object' ((thread, ⟨query, answer⟩) :: log)
              (accounts.insert thread (d.next account query answer))

/-- The threads have accounts: each has come to its account by its own
accesses, and what is left of its call obeys the discipline. -/
structure Accounted (d : Discipline κ γ) (start : ν → γ) (rest : γ → ℓ → Prop)
    (w : World κ σ ℓ) (accounts : AssocMap ℕ γ) : Prop where
  thread : ∀ thread, Option.Rel (fun account program =>
      d.Obeys rest account program ∧
        ∃ with', d.Trace (start with') (w.own thread) account)
    (accounts.lookup thread) (w.threads.lookup thread)
  logged : ∀ entry ∈ w.log, entry.1 ∈ accounts

variable {C} {d : Discipline κ γ} {start : ν → γ} {rest : γ → ℓ → Prop}
  {Inv : σ → List (ℕ × Sigma κ) → AssocMap ℕ γ → Prop} {w : World κ σ ℓ}
  {accounts : AssocMap ℕ γ}

theorem accounted_empty (object : σ) :
    Accounted d start rest (⟨object, ∅, []⟩ : World κ σ ℓ) ∅ where
  thread := fun _ => .none
  logged := nofun

variable {thread : ℕ}

section

variable (h : Accounted d start rest w accounts)
include h

theorem Accounted.exists_account {program : Prog κ ℓ}
    (hthread : w.threads.lookup thread = some program) :
    ∃ account, accounts.lookup thread = some account ∧
      d.Obeys rest account program ∧
        ∃ with', d.Trace (start with') (w.own thread) account := by
  have hrel := h.thread thread
  rw [hthread] at hrel
  generalize accounts.lookup thread = found at hrel
  cases hrel with
  | some hboth => exact ⟨_, rfl, hboth⟩

/-- A quantity of the threads, against one of their accounts. -/
theorem Accounted.total_le {f : Prog κ ℓ → ℕ} {g : γ → ℕ}
    (hle : ∀ account program, d.Obeys rest account program →
      f program ≤ g account) :
    AssocMap.total (fun _ => f) w.threads ≤
      AssocMap.total (fun _ => g) accounts := by
  refine AssocMap.total_le_total_of_rel
    (R := fun _ program account => d.Obeys rest account program) ?_
    fun _ program account hobeys => hle account program hobeys
  intro thread
  have hrel := h.thread thread
  generalize accounts.lookup thread = a?, w.threads.lookup thread = p? at hrel
  cases hrel with
  | some hboth => exact .some hboth.1
  | none => exact .none

theorem Accounted.le_total {f : Prog κ ℓ → ℕ} {g : γ → ℕ}
    (hle : ∀ account program, d.Obeys rest account program →
      g account ≤ f program) :
    AssocMap.total (fun _ => g) accounts ≤
      AssocMap.total (fun _ => f) w.threads :=
  AssocMap.total_le_total_of_rel h.thread
    fun _ account program hboth => hle account program hboth.1

theorem Accounted.lookup_eq_none (hthread : w.threads.lookup thread = none) :
    accounts.lookup thread = none := by
  have hrel := h.thread thread
  rw [hthread] at hrel
  generalize accounts.lookup thread = found at hrel
  cases hrel with
  | none => rfl

theorem Accounted.own_eq_nil (hnew : accounts.lookup thread = none) :
    w.own thread = [] := by
  rw [World.own, List.filterMap_eq_nil_iff]
  intro entry hentry
  refine if_neg fun heq => ?_
  exact AList.lookup_eq_none.mp hnew (heq ▸ h.logged entry hentry)

theorem Accounted.trace_of_lookup {account : γ}
    (haccount : accounts.lookup thread = some account) :
    ∃ with', d.Trace (start with') (w.own thread) account := by
  have hrel := h.thread thread
  rw [haccount] at hrel
  generalize w.threads.lookup thread = found at hrel
  cases hrel with
  | some hboth => exact hboth.2

/-- There are no more accounts than threads. -/
theorem Accounted.length_le :
    accounts.entries.length ≤ w.threads.entries.length := by
  rw [← AssocMap.total_one, ← AssocMap.total_one]
  exact h.le_total fun _ _ _ => le_rfl

/-- What a thread has done, the discipline allows. -/
theorem Accounted.exists_trace (hne : w.own thread ≠ []) :
    ∃ with' account, d.Trace (start with') (w.own thread) account := by
  cases haccount : accounts.lookup thread with
  | none => exact absurd (h.own_eq_nil haccount) hne
  | some account =>
      obtain ⟨with', htrace⟩ := h.trace_of_lookup haccount
      exact ⟨with', account, htrace⟩

/-- Every access of a thread was permitted by what it had done before. -/
theorem Accounted.exists_permits {newer older : List (Sigma κ)} {query : ι}
    {answer : κ query}
    (hown : w.own thread = newer ++ ⟨query, answer⟩ :: older) :
    ∃ with' account, d.Trace (start with') older account ∧
      d.permits account query := by
  have hne : w.own thread ≠ [] := by
    rw [hown]
    exact List.append_ne_nil_of_right_ne_nil _ (List.cons_ne_nil _ _)
  obtain ⟨with', account, htrace⟩ := h.exists_trace hne
  rw [hown] at htrace
  obtain ⟨before, hbefore, hpermits⟩ := htrace.exists_of_append
  exact ⟨with', before, hbefore, hpermits⟩

/-- Spawning a thread opens an account. -/
theorem Accounted.spawn (hnew : accounts.lookup thread = none) {with' : ν}
    {l : ℓ} (hrest : rest (start with') l) :
    Accounted d start rest
      { w with threads := w.threads.insert thread (.done l) }
      (accounts.insert thread (start with')) where
  thread := by
    intro other
    by_cases hother : other = thread
    · subst hother
      rw [AList.lookup_insert, AList.lookup_insert]
      refine .some ⟨hrest, with', ?_⟩
      have hnil := h.own_eq_nil hnew
      exact hnil.symm ▸ .nil
    · rw [AList.lookup_insert_ne hother, AList.lookup_insert_ne hother]
      exact h.thread other
  logged := fun entry hentry =>
    (AList.mem_insert _).mpr (.inr (h.logged entry hentry))

/-- A call leaves the accounts as they are. -/
theorem Accounted.call {account : γ} {program : Prog κ ℓ}
    (haccount : accounts.lookup thread = some account)
    (hobeys : d.Obeys rest account program)
    (htrace : ∃ with', d.Trace (start with') (w.own thread) account) :
    Accounted d start rest
      { w with threads := w.threads.insert thread program } accounts where
  thread := by
    intro other
    by_cases hother : other = thread
    · subst hother
      rw [AList.lookup_insert, haccount]
      exact .some ⟨hobeys, htrace⟩
    · rw [AList.lookup_insert_ne hother]
      exact h.thread other
  logged := h.logged

theorem Accounted.turn {account : γ} {query : ι} {resume : κ query → Prog κ ℓ}
    (haccount : accounts.lookup thread = some account)
    (hobeys : d.Obeys rest account (.access query resume))
    (htrace : ∃ with', d.Trace (start with') (w.own thread) account)
    {answer : κ query} (hexpects : d.expects account query answer)
    (object : σ) :
    Accounted d start rest
      { object
        threads := w.threads.insert thread (resume answer)
        log := (thread, ⟨query, answer⟩) :: w.log }
      (accounts.insert thread (d.next account query answer)) where
  thread := by
    intro other
    by_cases hother : other = thread
    · subst hother
      rw [AList.lookup_insert, AList.lookup_insert, World.own_cons_self]
      obtain ⟨with', htrace⟩ := htrace
      exact .some
        ⟨hobeys.2 answer hexpects, with', htrace.cons hobeys.1 hexpects⟩
    · rw [AList.lookup_insert_ne hother, AList.lookup_insert_ne hother,
        World.own_cons_of_ne (Ne.symm hother)]
      exact h.thread other
  logged := by
    intro entry hentry
    rw [AList.mem_insert]
    rcases List.mem_cons.mp hentry with rfl | hbefore
    · exact .inl rfl
    · exact .inr (h.logged entry hbefore)

end

/-- A move keeps the accounts and the invariant. -/
theorem Keeps.step (hC : C.Keeps d start rest Inv) {w' : World κ σ ℓ}
    (hstep : C.Step w w')
    (h : ∃ accounts, Accounted d start rest w accounts ∧
      Inv w.object w.log accounts) :
    ∃ accounts, Accounted d start rest w' accounts ∧
      Inv w'.object w'.log accounts := by
  obtain ⟨accounts, haccounts, hinv⟩ := h
  cases hstep with
  | idle => exact ⟨accounts, haccounts, hinv⟩
  | spawn with' hnew =>
      have hnone := haccounts.lookup_eq_none hnew
      exact ⟨_, haccounts.spawn hnone (hC.fresh with'),
        hC.spawn with' hinv hnone⟩
  | call what hrests =>
      obtain ⟨account, haccount, hrest, htrace⟩ :=
        haccounts.exists_account hrests
      exact ⟨accounts,
        haccounts.call haccount (hC.body what account _ hrest) htrace, hinv⟩
  | turn hthread hanswer =>
      obtain ⟨account, haccount, hobeys, htrace⟩ :=
        haccounts.exists_account hthread
      obtain ⟨hexpects, hafter⟩ := hC.turn hinv haccount hobeys.1 hanswer
      exact ⟨_, haccounts.turn haccount hobeys htrace hexpects _, hafter⟩

/-- The accounts and the invariant hold after any moves. -/
theorem Keeps.run (hC : C.Keeps d start rest Inv) (w : World κ σ ℓ)
    (h : ∃ accounts, Accounted d start rest w accounts ∧
      Inv w.object w.log accounts) (moves : List (Move φ ν μ)) :
    ∃ accounts, Accounted d start rest (run C.step w moves) accounts ∧
      Inv (run C.step w moves).object (run C.step w moves).log accounts :=
  run_invariant (P := fun w => ∃ accounts, Accounted d start rest w accounts ∧
      Inv w.object w.log accounts)
    (fun w move => hC.step (C.step_spec w move)) h moves

end Component

end Harmost.Support
