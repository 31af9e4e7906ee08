import Harmost.Support.Framing
import Harmost.Support.Text
import Harmost.Support.Threads

/-!
# Replacing a configuration on disk

A generated configuration goes to a temporary file beside its target, is
checked there if that was asked for, and is then renamed over the target.  The
deployment identity is written the same way and renamed first.  When anything
fails, both temporary files are removed, and a failure to remove them is
ignored.

Several runs may be under way at once, each access to the file system can fail,
a write can fail half way, and a run that is killed simply takes no more turns.
-/

namespace Harmost.Next

open Harmost.Support

/-- `randomUUID`: 36 characters. -/
abbrev Uuid := { text : Str // text.length = 36 }

/-- What a run writes, and where. -/
structure Job where
  out : Str
  identityOut : Option Str
  yaml : Str
  identity : Str
  check : Bool
  bin : Str
  pid : ℕ
  deriving DecidableEq

namespace ToFile

/-! ## Names -/

/-- The path of a file up to its last separator. -/
def directory (path : Str) : Str :=
  path.rdropWhile (· != '/')

/-- What comes after the last separator of a path. -/
def baseName (path : Str) : Str :=
  path.rtakeWhile (· != '/')

/-- The name of a temporary file beside a target. -/
def temporary (target : Str) (pid : ℕ) (uuid : Uuid) : Str :=
  directory target ++ '.' :: (baseName target ++ '.' :: (decimal pid ++
    '.' :: (uuid.1 ++ ".tmp".toList)))

/-! ## The file system -/

structure Files where
  content : AssocMap Str Str
  /-- The identifiers that were handed out; none comes twice. -/
  issued : List Uuid := []

/-- Why `harmost check` could not be run, or what it said. -/
inductive Rejection where
  | notFound
  | failed (detail : Str)

inductive Access where
  | uuid
  /-- Open a new file. -/
  | create (path : Str)
  /-- Write all of a text to the file that was opened. -/
  | write (path text : Str)
  /-- `harmost check --config` -/
  | check (path : Str)
  | rename (source target : Str)
  | unlink (path : Str)

abbrev Reply : Access → Type
  | .uuid => Uuid
  | .check _ => Except Rejection Unit
  | _ => Except Str Unit

/-- What is decided elsewhere: the next identifier, whether an access fails, how
much of a text was written by then, whether there is a binary to check with,
and what it prints. -/
structure Outside where
  uuid : Uuid
  fault : Option Str := none
  written : ℕ := 0
  binary : Bool := true
  detail : Str := []

abbrev ask (query : Access) : Prog Reply (Reply query) :=
  Prog.ask query

/-- `valid` is the verdict of `harmost check` on a configuration. -/
def answer (valid : Str → Bool) (s : Files) :
    (query : Access) → Outside → Option (Reply query × Files)
  | .uuid, outside =>
      if outside.uuid ∈ s.issued then none
      else some (outside.uuid, { s with issued := outside.uuid :: s.issued })
  | .create path, outside =>
      match outside.fault with
      | some e => some (.error e, s)
      | none =>
          if path ∈ s.content then some (.error "EEXIST".toList, s)
          else some (.ok (), { s with content := s.content.insert path [] })
  | .write path text, outside =>
      match outside.fault with
      | some e =>
          some (.error e, if path ∈ s.content then
            { s with
              content := s.content.insert path (text.take outside.written) }
            else s)
      | none =>
          some (.ok (), if path ∈ s.content then
            { s with content := s.content.insert path text } else s)
  | .check path, outside =>
      if !outside.binary then some (.error .notFound, s)
      else if outside.fault.isNone && (s.content.lookup path).any valid then
        some (.ok (), s)
      else some (.error (.failed outside.detail), s)
  | .rename source target, outside =>
      match outside.fault with
      | some e => some (.error e, s)
      | none =>
          match s.content.lookup source with
          | none => some (.error "ENOENT".toList, s)
          | some text =>
              some (.ok (), { s with
                content := (s.content.erase source).insert target text })
  | .unlink path, outside =>
      match outside.fault with
      | some e => some (.error e, s)
      | none =>
          if path ∈ s.content then
            some (.ok (), { s with content := s.content.erase path })
          else some (.error "ENOENT".toList, s)

/-! ## A run -/

/-- What follows happens only if nothing was thrown. -/
def andThen (first next : Prog Reply (Except Str Unit)) :
    Prog Reply (Except Str Unit) := do
  match ← first with
  | .ok _ => next
  | .error e => pure (.error e)

/-- `writeFileSync` with the flag `wx`. -/
def writeNew (path text : Str) : Prog Reply (Except Str Unit) :=
  andThen (ask (.create path)) (ask (.write path text))

/-- The message for a check that did not pass. -/
def checkError (bin : Str) : Rejection → Str
  | .notFound =>
      "`".toList ++ bin ++ ("` is not on PATH, so the generated config could " ++
        "not be checked. Set HARMOST_BIN, pass --harmost-bin, or turn the " ++
        "check off where the binary is not available.").toList
  | .failed detail =>
      "`".toList ++ bin ++
        " check` rejected the generated configuration:\n".toList ++ trim detail

def checked (job : Job) (path : Str) : Prog Reply (Except Str Unit) :=
  if job.check then do
    let verdict : Except Rejection Unit ← ask (.check path)
    pure (verdict.mapError (checkError job.bin))
  else pure (.ok ())

/-- Inside the `try`.  The identity, if it is wanted, has a target and a
temporary file. -/
def publish (job : Job) (path : Str) :
    Option (Str × Str) → Prog Reply (Except Str Unit)
  | none =>
      andThen (writeNew path job.yaml) <|
      andThen (checked job path) <|
        ask (.rename path job.out)
  | some (identityOut, identityPath) =>
      andThen (writeNew path job.yaml) <|
      andThen (writeNew identityPath job.identity) <|
      andThen (checked job path) <|
      andThen (ask (.rename identityPath identityOut)) <|
        ask (.rename path job.out)

/-- Remove temporary files; whatever is thrown is dropped. -/
def discard : List Str → Prog Reply Unit
  | [] => pure ()
  | path :: paths => do
      let _ ← ask (.unlink path)
      discard paths

/-- The `finally`, unless the result was committed. -/
def cleanUp (paths : List Str) (result : Except Str Unit) :
    Prog Reply (Except Str Unit) :=
  match result with
  | .ok _ => pure result
  | .error _ => do
      let _ ← discard paths
      pure result

/-- `generateToFile`, from the names of the temporary files on. -/
def generateToFile (job : Job) : Prog Reply (Except Str Unit) := do
  let uuid : Uuid ← ask .uuid
  let path := temporary job.out job.pid uuid
  match job.identityOut with
  | none => do
      let result ← publish job path none
      cleanUp [path] result
  | some identityOut => do
      let uuid : Uuid ← ask .uuid
      let identityPath := temporary identityOut job.pid uuid
      let result ← publish job path (some (identityOut, identityPath))
      cleanUp [path, identityPath] result

section Runs

variable {ν : Type} (jobs : ν → Job)

/-- Each thread is one run: which one it is, and how it ended. -/
def component (valid : Str → Bool) :
    Component Reply Files Outside (ν × Option (Except Str Unit)) ν Unit where
  answer := answer valid
  fresh := fun i => (i, none)
  body := fun _ run =>
    match run.2 with
    | some _ => pure run
    | none => do
        let result ← generateToFile (jobs run.1)
        pure (run.1, some result)

/-- The files and the runs after some moves. -/
def after (valid : Str → Bool) (initial : AssocMap Str Str)
    (moves : List (Move Outside ν Unit)) :
    World Reply Files (ν × Option (Except Str Unit)) :=
  run (component jobs valid).step ⟨⟨initial, []⟩, ∅, []⟩ moves

end Runs

/-! ## Names are kept apart -/

/-- A name that a temporary file could have. -/
def Temporary (path : Str) : Prop :=
  ∃ target pid uuid, path = temporary target pid uuid

/-- The identifier can be read off the name. -/
theorem uuid_eq_of_temporary_eq {target target' : Str} {pid pid' : ℕ}
    {uuid uuid' : Uuid}
    (h : temporary target pid uuid = temporary target' pid' uuid') :
    uuid = uuid' := by
  -- The identifier and the extension have the same length in both names.
  have hsplit : ∀ target pid (uuid : Uuid), temporary target pid uuid =
      (directory target ++ '.' :: (baseName target ++ '.' :: (decimal pid ++
        ['.']))) ++ (uuid.1 ++ ".tmp".toList) := by
    intro target pid uuid
    simp only [temporary, List.append_assoc, List.cons_append, List.nil_append]
  rw [hsplit, hsplit] at h
  have hlength : (uuid.1 ++ ".tmp".toList).length =
      (uuid'.1 ++ ".tmp".toList).length := by
    rw [List.length_append, List.length_append, uuid.2, uuid'.2]
  exact Subtype.ext
    (List.append_cancel_right (List.append_inj_right' h hlength))

theorem not_temporary_of_length {path : Str} (h : path.length < 43) :
    ¬Temporary path := by
  rintro ⟨target, pid, uuid, rfl⟩
  have hextension : ".tmp".toList.length = 4 := by decide
  simp only [temporary, List.length_append, List.length_cons, uuid.2,
    hextension] at h
  omega

/-- What a thread has and what it has done. -/
structure Account (ν : Type) where
  index : ν
  uuids : List Uuid := []
  /-- The files that it has made and that can still be there. -/
  made : List Str := []
  /-- The files that are complete. -/
  full : List (Str × Str) := []
  /-- The files that it failed to remove. -/
  stuck : List Str := []
  /-- What it has replaced, the latest first. -/
  renames : List Str := []

section Runs

variable {ν : Type} (jobs : ν → Job) (valid : Str → Bool)

def Account.Owns (account : Account ν) (path : Str) : Prop :=
  ∃ target pid, ∃ uuid ∈ account.uuids, path = temporary target pid uuid

/-- What may stand in a target when a run has replaced it. -/
def Published (job : Job) (target text : Str) : Prop :=
  target = job.out ∧ text = job.yaml ∧ (job.check = true → valid text = true) ∨
    job.identityOut = some target ∧ text = job.identity

def discipline : Discipline Reply (Account ν) where
  permits account
    | .uuid => True
    | .create path => account.Owns path
    | .write path _ => path ∈ account.made ∧ ∀ text, (path, text) ∉ account.full
    | .check path => ∃ text, (path, text) ∈ account.full
    | .rename source target => account.Owns source ∧
        target :: account.renames <:+ (jobs account.index).out ::
          (jobs account.index).identityOut.toList ∧
        ∃ text, (source, text) ∈ account.full ∧
          Published valid (jobs account.index) target text
    | .unlink path => account.Owns path
  expects account
    | .uuid, uuid => uuid ∉ account.uuids
    | .check path, .ok _ =>
        ∀ text, (path, text) ∈ account.full → valid text = true
    | _, _ => True
  next account
    | .uuid, uuid => { account with uuids := uuid :: account.uuids }
    | .create path, .ok _ => { account with made := path :: account.made }
    | .write path text, .ok _ =>
        { account with full := (path, text) :: account.full }
    | .rename source target, .ok _ =>
        { account with
          made := account.made.filter (· ≠ source)
          full := account.full.filter (·.1 ≠ source)
          renames := target :: account.renames }
    | .unlink path, .ok _ =>
        { account with
          made := account.made.filter (· ≠ path)
          full := account.full.filter (·.1 ≠ path) }
    | .unlink path, .error _ => { account with stuck := path :: account.stuck }
    | _, _ => account

variable {jobs valid} {account : Account ν} {job : Job} {path text : Str}
  {next : Prog Reply (Except Str Unit)}
  {post : Account ν → Except Str Unit → Prop}

/-! ## What a run does -/

theorem obeys_andThen {first : Prog Reply (Except Str Unit)}
    (h : (discipline jobs valid).Obeys (fun account result =>
      (result = .ok () → (discipline jobs valid).Obeys post account next) ∧
        ∀ e, result = .error e → post account (.error e)) account first) :
    (discipline jobs valid).Obeys post account (andThen first next) := by
  rw [andThen, Discipline.obeys_bind]
  refine h.mono ?_
  rintro account' (e | ⟨⟩) hboth
  · exact hboth.2 e rfl
  · exact hboth.1 rfl

theorem obeys_writeNew (howns : account.Owns path)
    (hnew : ∀ text, (path, text) ∉ account.full)
    (hok : (discipline jobs valid).Obeys post { account with
      made := path :: account.made
      full := (path, text) :: account.full } next)
    (herror : ∀ made, made = account.made ∨ made = path :: account.made →
      ∀ e, post { account with made } (.error e)) :
    (discipline jobs valid).Obeys post account
      (andThen (writeNew path text) next) := by
  apply obeys_andThen
  apply obeys_andThen
  refine ⟨howns, ?_⟩
  rintro (e | ⟨⟩) -
  · refine ⟨nofun, fun e' he' => ⟨nofun, fun e'' he'' => ?_⟩⟩
    exact herror account.made (.inl rfl) e''
  · refine ⟨fun _ => ⟨⟨List.mem_cons_self, hnew⟩, ?_⟩, nofun⟩
    rintro (e | ⟨⟩) -
    · exact ⟨nofun, fun e' _ => herror (path :: account.made) (.inr rfl) e'⟩
    · exact ⟨fun _ => hok, nofun⟩

theorem obeys_checked (hfull : (path, text) ∈ account.full)
    (hok : (job.check = true → valid text = true) →
      (discipline jobs valid).Obeys post account next)
    (herror : ∀ e, post account (.error e)) :
    (discipline jobs valid).Obeys post account
      (andThen (checked job path) next) := by
  apply obeys_andThen
  rw [checked]
  split_ifs with hcheck
  · refine ⟨⟨text, hfull⟩, ?_⟩
    rintro (rejection | ⟨⟩) hexpects
    · exact ⟨nofun, fun e _ => herror e⟩
    · exact ⟨fun _ => hok fun _ => hexpects text hfull, nofun⟩
  · exact ⟨fun _ => hok fun hcheck' => absurd hcheck' hcheck, nofun⟩

/-- The temporary files of a run are its own. -/
structure Working (i : ν) (paths : List Str) (account : Account ν) : Prop where
  index : account.index = i
  owns : ∀ path ∈ paths, account.Owns path
  made : ∀ path ∈ account.made, path ∈ paths

/-- How a run leaves the targets: the identity is replaced before the
configuration, and a run that failed has not replaced the configuration. -/
def Ended (jobs : ν → Job) (i : ν) (paths : List Str) (account : Account ν)
    (result : Except Str Unit) : Prop :=
  Working i paths account ∧
    (result = .ok () → account.made = [] ∧
      account.renames = (jobs i).out :: (jobs i).identityOut.toList) ∧
    ∀ e, result = .error e → account.renames = [] ∨
      account.renames = (jobs i).identityOut.toList

theorem obeys_publish_none {i : ν} {uuids : List Uuid} {path : Str}
    (hnone : (jobs i).identityOut = none)
    (howns : Account.Owns { index := i, uuids } path) :
    (discipline jobs valid).Obeys (Ended jobs i [path])
      { index := i, uuids } (publish (jobs i) path none) := by
  have hworking : ∀ made full stuck renames, (∀ p ∈ made, p ∈ [path]) →
      Working i [path] { index := i, uuids, made, full, stuck, renames } :=
    fun made full stuck renames hmade =>
      ⟨rfl, List.forall_mem_singleton.mpr howns, hmade⟩
  refine obeys_writeNew howns (fun _ => List.not_mem_nil) ?_ ?_
  · refine obeys_checked List.mem_cons_self (fun hvalid => ?_) fun e => ?_
    · refine ⟨⟨howns, by simp [hnone], _, List.mem_cons_self,
        .inl ⟨rfl, rfl, hvalid⟩⟩, ?_⟩
      rintro (e | ⟨⟩) -
      · exact ⟨hworking _ _ _ _ (by simp), nofun, fun _ _ => .inl rfl⟩
      · refine ⟨hworking _ _ _ _ (by simp), fun _ =>
          ⟨by simp [discipline], ?_⟩, nofun⟩
        rw [hnone]
        rfl
    · exact ⟨hworking _ _ _ _ (by simp), nofun, fun _ _ => .inl rfl⟩
  · rintro made hmade e
    refine ⟨hworking _ _ _ _ ?_, nofun, fun _ _ => .inl rfl⟩
    rcases hmade with rfl | rfl
    · exact List.forall_mem_nil _
    · exact List.forall_mem_singleton.mpr List.mem_cons_self

theorem obeys_publish_some {i : ν} {uuids : List Uuid}
    {path identityOut identityPath : Str}
    (hsome : (jobs i).identityOut = some identityOut)
    (howns : Account.Owns { index := i, uuids } path)
    (howns' : Account.Owns { index := i, uuids } identityPath)
    (hne : path ≠ identityPath) :
    (discipline jobs valid).Obeys (Ended jobs i [path, identityPath])
      { index := i, uuids }
      (publish (jobs i) path (some (identityOut, identityPath))) := by
  have hworking : ∀ made full stuck renames,
      made ⊆ [path, identityPath] → Working i [path, identityPath]
        { index := i, uuids, made, full, stuck, renames } :=
    fun made full stuck renames hmade => ⟨rfl, List.forall_mem_cons.mpr
      ⟨howns, List.forall_mem_singleton.mpr howns'⟩, hmade⟩
  refine obeys_writeNew howns (fun _ => List.not_mem_nil) ?_ ?_
  · refine obeys_writeNew howns' (by simp [Ne.symm hne]) ?_ ?_
    · refine obeys_checked (List.mem_cons_of_mem _ List.mem_cons_self)
        (fun hvalid => ?_) fun e => ?_
      · apply obeys_andThen
        refine ⟨⟨howns', ?_, _, List.mem_cons_self, .inr ⟨hsome, rfl⟩⟩, ?_⟩
        · rw [hsome]
          exact List.suffix_cons _ _
        rintro (e | ⟨⟩) -
        · exact ⟨nofun, fun _ _ => ⟨hworking _ _ _ _ (by simp), nofun,
            fun _ _ => .inl rfl⟩⟩
        · refine ⟨fun _ => ⟨⟨howns, ?_, _, ?_, .inl ⟨rfl, rfl, hvalid⟩⟩, ?_⟩,
            nofun⟩
          · change [(jobs i).out, identityOut] <:+
              (jobs i).out :: (jobs i).identityOut.toList
            rw [hsome]
            exact List.suffix_rfl
          · simp [discipline, hne]
          rintro (e | ⟨⟩) -
          · refine ⟨hworking _ _ _ _ (by simp [hne]), nofun, fun _ _ => .inr ?_⟩
            rw [hsome]
            rfl
          · refine ⟨hworking _ _ _ _ (by simp [discipline]),
              fun _ => ⟨?_, ?_⟩, nofun⟩
            · simp [discipline]
            · rw [hsome]
              rfl
      · exact ⟨hworking _ _ _ _ (by simp), nofun, fun _ _ => .inl rfl⟩
    · rintro made hmade e
      refine ⟨hworking _ _ _ _ ?_, nofun, fun _ _ => .inl rfl⟩
      rcases hmade with rfl | rfl <;> simp
  · rintro made hmade e
    refine ⟨hworking _ _ _ _ ?_, nofun, fun _ _ => .inl rfl⟩
    rcases hmade with rfl | rfl <;> simp

/-- Before a run nothing was done, and after it what it had made is gone, or
could not be removed. -/
def Rest (jobs : ν → Job) (account : Account ν)
    (run : ν × Option (Except Str Unit)) : Prop :=
  (run.2 = none → account = { index := run.1 }) ∧
    ∀ result, run.2 = some result → account.made ⊆ account.stuck ∧
      ∃ paths, Ended jobs run.1 paths account result

theorem obeys_discard {paths : List Str}
    (howns : ∀ path ∈ paths, account.Owns path) {post : Account ν → Prop}
    (hpost : ∀ made full stuck, made ⊆ account.made →
      account.stuck ⊆ stuck → (∀ path ∈ paths, path ∉ made ∨ path ∈ stuck) →
        post { account with made, full, stuck }) :
    (discipline jobs valid).Obeys (fun account _ => post account) account
      (discard paths) := by
  induction paths generalizing account with
  | nil =>
      exact hpost account.made account.full account.stuck
        (List.Subset.refl _) (List.Subset.refl _) (List.forall_mem_nil _)
  | cons path paths ih =>
      obtain ⟨hfirst, hothers⟩ := List.forall_mem_cons.mp howns
      refine ⟨hfirst, ?_⟩
      rintro (e | ⟨⟩) -
      · refine ih hothers fun made full stuck hmade hstuck hall => ?_
        exact hpost made full stuck hmade
          (List.Subset.trans (List.subset_cons_self _ _) hstuck)
          (List.forall_mem_cons.mpr ⟨.inr (hstuck List.mem_cons_self), hall⟩)
      · refine ih hothers fun made full stuck hmade hstuck hall => ?_
        refine hpost made full stuck
          (List.Subset.trans hmade (List.filter_subset_self _)) hstuck
          (List.forall_mem_cons.mpr ⟨.inl fun hmem => ?_, hall⟩)
        exact absurd (hmade hmem) (by simp [discipline])

theorem obeys_cleanUp {i : ν} {paths : List Str} {result : Except Str Unit}
    (h : Ended jobs i paths account result) :
    (discipline jobs valid).Obeys
      (fun account result => Rest jobs account (i, some result)) account
      (cleanUp paths result) := by
  obtain ⟨⟨hindex, howns, hmade⟩, hok, herror⟩ := h
  cases result with
  | ok =>
      refine ⟨nofun, ?_⟩
      rintro _ ⟨⟩
      refine ⟨by simp [(hok rfl).1], _, ⟨hindex, howns, hmade⟩, hok, herror⟩
  | error e =>
      refine Discipline.obeys_bind.mpr (obeys_discard howns ?_)
      intro made full stuck hsub hstuck hall
      refine ⟨nofun, ?_⟩
      rintro _ ⟨⟩
      refine ⟨fun p hp => ?_, paths, ⟨hindex, howns, fun p hp =>
        hmade p (hsub hp)⟩, nofun, herror⟩
      exact (hall p (hmade p (hsub hp))).resolve_left fun hnot => hnot hp

theorem obeys_generateToFile (i : ν) :
    (discipline jobs valid).Obeys
      (fun account result => Rest jobs account (i, some result))
      { index := i } (generateToFile (jobs i)) := by
  refine Discipline.obeys_ask.mpr ⟨trivial, fun uuid _ => ?_⟩
  dsimp only
  split
  · next hnone =>
      refine Discipline.obeys_bind.mpr ((obeys_publish_none hnone
        ⟨_, _, uuid, List.mem_cons_self, rfl⟩).mono ?_)
      exact fun account result hended => obeys_cleanUp hended
  · next identityOut hsome =>
      refine Discipline.obeys_ask.mpr ⟨trivial, fun uuid' hnew => ?_⟩
      have hne : temporary (jobs i).out (jobs i).pid uuid ≠
          temporary identityOut (jobs i).pid uuid' := fun heq =>
        hnew (uuid_eq_of_temporary_eq heq ▸ List.mem_cons_self)
      refine Discipline.obeys_bind.mpr ((obeys_publish_some hsome
        ⟨_, _, uuid, List.mem_cons_of_mem _ List.mem_cons_self, rfl⟩
        ⟨_, _, uuid', List.mem_cons_self, rfl⟩ hne).mono ?_)
      exact fun account result hended => obeys_cleanUp hended

theorem obeys_body (account : Account ν) (run : ν × Option (Except Str Unit))
    (h : Rest jobs account run) :
    (discipline jobs valid).Obeys (Rest jobs) account
      ((component jobs valid).body () run) := by
  obtain ⟨i, result⟩ := run
  cases result with
  | some result => exact h
  | none =>
      obtain rfl := h.1 rfl
      exact Discipline.obeys_bind.mpr ((obeys_generateToFile i).mono
        fun account result hrest => hrest)

end Runs

end ToFile

end Harmost.Next
