import Harmost.Support.Yaml.Layout

/-!
# Streams of YAML

A stream of one document.  Before its content may stand comments, byte order
marks, `...`, directives that `---` closes, and a tag and an anchor of the root
node; none of them changes what the document holds.
-/

namespace Harmost.Support.Yaml

/-- What has come before the content of a document. -/
structure Prologue where
  /-- Directives wait for `---`. -/
  directives : Bool := false
  version : Bool := false
  /-- The tag handles that were declared. -/
  handles : List Str := []
  /-- `---` has come. -/
  explicit : Bool := false
  tag : Bool := false
  anchor : Bool := false
  deriving DecidableEq

namespace Prologue

/-- Nothing of the document has come. -/
def isFresh (p : Prologue) : Bool :=
  !p.directives && !p.explicit && !p.tag && !p.anchor

/-! ## Directives -/

def words (text : Str) : List Str :=
  ((text.splitOn ' ').flatMap fun part => part.splitOn '\t').filter
    fun word => !word.isEmpty

/-- `ns-word-char`. -/
def isWordChar (c : Char) : Bool :=
  c.isAlphanum || c == '-'

/-- `ns-uri-char`, of those that are not escaped. -/
def isUriChar (c : Char) : Bool :=
  isWordChar c || "#;/?:@&=+$,_.!~*'()[]".toList.contains c

/-- `ns-tag-char`, of those that are not escaped. -/
def isTagChar (c : Char) : Bool :=
  isUriChar c && c != '!' && !",[]".toList.contains c

/-- Every character satisfies this or is escaped. -/
def allEscaped (p : Char → Bool) : Str → Bool
  | [] => true
  | '%' :: a :: b :: rest =>
      (hexDigit a).isSome && (hexDigit b).isSome &&
        allEscaped p rest
  | c :: rest => p c && allEscaped p rest

/-- `ns-yaml-version`, of major version 1. -/
def isVersion (text : Str) : Bool :=
  match text.splitOn '.' with
  | [major, minor] =>
      !major.isEmpty && major.all Char.isDigit && digitsValue major == 1 &&
        !minor.isEmpty && minor.all Char.isDigit
  | _ => false

/-- `c-tag-handle`. -/
def isHandle (text : Str) : Bool :=
  text == "!".toList || text == "!!".toList ||
    (text.head? == some '!' && text.getLast? == some '!' &&
      2 < text.length && (text.drop 1).dropLast.all isWordChar)

/-- `ns-tag-prefix`. -/
def isTagPrefix : Str → Bool
  | [] => false
  | c :: rest =>
      (c == '!' && allEscaped isUriChar rest) ||
        (c != '!' && !",[]".toList.contains c &&
          allEscaped isUriChar (c :: rest))

/-- After a percent sign.  A directive that is not known is ignored. -/
def readDirective (p : Prologue) (text : Str) : Option Prologue :=
  if endsToken text then none
  else
    match (words text).takeWhile fun word => word.head? != some '#' with
    | [] => some { p with directives := true }
    | name :: parameters =>
        if name = "YAML".toList then
          match parameters with
          | [version] =>
              if isVersion version && !p.version then
                some { p with directives := true, version := true }
              else none
          | _ => none
        else if name = "TAG".toList then
          match parameters with
          | [handle, tag] =>
              if isHandle handle && isTagPrefix tag &&
                  !p.handles.contains handle then
                some { p with
                  directives := true, handles := handle :: p.handles }
              else none
          | _ => none
        else some { p with directives := true }

/-! ## Properties -/

/-- `c-ns-tag-property`. -/
def isTag (handles : List Str) : Str → Bool
  | '!' :: '<' :: rest =>
      rest.getLast? == some '>' && rest.dropLast != [] &&
        allEscaped isUriChar rest.dropLast
  | '!' :: rest =>
      match splitOnce '!' rest with
      | some (name, suffix) =>
          (name.isEmpty || handles.contains ('!' :: (name ++ ['!']))) &&
            suffix != [] && allEscaped isTagChar suffix
      | none => allEscaped isTagChar rest
  | _ => false

/-- `c-ns-anchor-property`. -/
def isAnchor : Str → Bool
  | '&' :: name =>
      name != [] &&
        name.all fun c => isNsChar c && !",[]\x7b\x7d".toList.contains c
  | _ => false

/-- The properties of the root node, at most one of each kind. -/
def readProperties (p : Prologue) : List Str → Option Prologue
  | [] => some p
  | word :: rest =>
      if word.head? = some '#' then some p
      else if isTag p.handles word && !p.tag then
        readProperties { p with tag := true } rest
      else if isAnchor word && !p.anchor then
        readProperties { p with anchor := true } rest
      else none

/-! ## Lines -/

/-- A line without a byte order mark in front of it. -/
def readLine (p : Prologue) (line : Str) : Option Prologue :=
  if isComment line then some p
  else if !line.all isNbChar then none
  else if line.head? = some '%' then
    if p.explicit || p.tag || p.anchor then none
    else p.readDirective line.tail
  else if isMarker line then
    if line.head? = some '-' then
      if p.explicit || p.tag || p.anchor then none
      else
        ({ p with directives := false, explicit := true } :
          Prologue).readProperties (words (line.drop 3))
    else if p.isFresh && isComment (line.drop 3) then some p
    else none
  else if p.directives then none
  else p.readProperties (words line)

/-- One line that belongs to the prologue. -/
def step (p : Prologue) (line : Str) : Option Prologue :=
  if p.isFresh && line.head? = some '\ufeff' then p.readLine line.tail
  else p.readLine line

/-- Where the content begins. -/
def drop (p : Prologue) : List Str → Prologue × List Str
  | [] => (p, [])
  | line :: rest =>
      match p.step line with
      | some p' => p'.drop rest
      | none => (p, line :: rest)

end Prologue

/-- The events of the document in a stream. -/
def parse (text : Str) : Option (List Event) :=
  let (p, rest) := ({} : Prologue).drop (lines text)
  if p.directives then none
  else
    (content rest).bind fun tokens =>
      if tokens.isEmpty then none else readNode (tokens.length + 1) tokens

/-! ## Where the content begins -/

namespace Prologue

theorem readLine_of_isComment (p : Prologue) {line : Str}
    (h : isComment line = true) : p.readLine line = some p :=
  if_pos h

theorem step_of_isComment (p : Prologue) {line : Str}
    (h : isComment line = true) : p.step line = some p := by
  have hhead : line.head? ≠ some '\ufeff' := by
    cases line with
    | nil => simp
    | cons c line =>
        rintro ⟨⟩
        cases h
  rw [step, if_neg (by simp [hhead])]
  exact p.readLine_of_isComment h

/-- A line that begins like a comment is one or is refused. -/
theorem step_hash (p : Prologue) (text : Str) :
    p.step ('#' :: text) =
      if text.all isNbChar = true then some p else none := by
  split_ifs with hnb
  · exact p.step_of_isComment hnb
  · have hcomment : isComment ('#' :: text) = false := eq_false_of_ne_true hnb
    have hall : ('#' :: text).all isNbChar = false := by
      rw [List.all_cons, eq_false_of_ne_true hnb, Bool.and_false]
    rw [step, if_neg (by simp), readLine, hcomment, hall]
    rfl

theorem drop_of_foldlM_eq_some {p p' : Prologue} {front : List Str}
    (h : front.foldlM step p = some p') (rest : List Str) :
    p.drop (front ++ rest) = p'.drop rest := by
  induction front generalizing p with
  | nil =>
      cases h
      rfl
  | cons line front ih =>
      rw [List.foldlM_cons] at h
      obtain ⟨next, hstep, h⟩ := Option.bind_eq_some_iff.mp h
      rw [List.cons_append, drop, hstep]
      exact ih h

/-- Some line is the end of the prologue. -/
theorem drop_of_foldlM_eq_none {p : Prologue} {front : List Str}
    (h : front.foldlM step p = none) (rest : List Str) :
    ∃ p' line others, p'.step line = none ∧
      p.drop (front ++ rest) = (p', line :: (others ++ rest)) := by
  induction front generalizing p with
  | nil => cases h
  | cons line front ih =>
      rw [List.foldlM_cons] at h
      rw [List.cons_append, drop]
      cases hstep : p.step line with
      | none => exact ⟨p, line, front, hstep, rfl⟩
      | some next =>
          rw [hstep] at h
          exact ih h

end Prologue

section Parse

variable {text first : Str} {front rest : List Str}
  {pairs : Fields}
  (hlines : lines text = front ++ first :: rest)
  (hfirst : ∀ p : Prologue, p.step first = none)
  (hbody : IsMapping 0 (first :: rest) pairs)
  (hkeys : (pairs.map Prod.fst).Nodup)
include hlines hfirst hbody hkeys

/-- A mapping behind a prologue is read. -/
theorem parse_of_prologue (hne : pairs ≠ []) {p : Prologue}
    (hfold : front.foldlM Prologue.step {} = some p)
    (hp : p.directives = false) : parse text = some (mappingOf pairs) := by
  obtain ⟨tokens, hcontent, hpairs⟩ := hbody.read
  have hdrop : ({} : Prologue).drop (lines text) = (p, first :: rest) := by
    rw [hlines, Prologue.drop_of_foldlM_eq_some hfold, Prologue.drop, hfirst]
  have htokens : tokens.isEmpty = false := by
    cases hpairs with
    | nil => exact (hne rfl).elim
    | leaf => rfl
    | block => rfl
  rw [parse, hdrop]
  dsimp only
  rw [hp, hcontent]
  dsimp only [Option.bind_some]
  rw [htokens]
  exact hpairs.isNode hkeys _ (Nat.lt_succ_self _)

/-- If the mapping is read with no other keys than its own, nothing but a
prologue stands before it. -/
theorem prologue_of_parse {events : List Event}
    (hparse : parse text = some (.mapStart :: events))
    (hevents : (Event.mapStart :: events).filterMap Event.key? =
      (mappingOf pairs).filterMap Event.key?) :
    ∃ p, front.foldlM Prologue.step {} = some p ∧ p.directives = false := by
  obtain ⟨tokens, hcontent, hpairs⟩ := hbody.read
  rw [parse, hlines] at hparse
  cases hfold : front.foldlM Prologue.step {} with
  | some p =>
      refine ⟨p, rfl, ?_⟩
      rw [Prologue.drop_of_foldlM_eq_some hfold, Prologue.drop, hfirst]
        at hparse
      dsimp only at hparse
      split_ifs at hparse with hp
      exact eq_false_of_ne_true hp
  | none =>
      obtain ⟨p, line, others, hline, hdrop⟩ :=
        Prologue.drop_of_foldlM_eq_none hfold (first :: rest)
      rw [hdrop] at hparse
      dsimp only at hparse
      split_ifs at hparse
      obtain ⟨all, hall, hparse⟩ := Option.bind_eq_some_iff.mp hparse
      split_ifs at hparse
      -- the line that ended the prologue is read in front of the mapping
      have hcomment : isComment line = false := by
        refine eq_false_of_ne_true fun hcomment => ?_
        rw [p.step_of_isComment hcomment] at hline
        cases hline
      rw [content, hcomment, content_append, hcontent] at hall
      obtain ⟨front', hfront', hall⟩ := Option.bind_eq_some_iff.mp hall
      obtain ⟨rest', hrest', rfl⟩ := Option.map_eq_some_iff.mp hall
      obtain ⟨between, -, hrest'⟩ := Option.bind_eq_some_iff.mp hrest'
      cases hrest'
      have hread := filterMap_readNode hparse
      have hmapping := filterMap_readNode
        (hpairs.isNode hkeys _ (Nat.lt_succ_self _))
      rw [hevents, hmapping] at hread
      have hnone : front'.filterMap Token.key? = [] := by
        have hlength := congrArg List.length hread
        simp only [List.filterMap_append, List.length_append] at hlength
        exact List.eq_nil_of_length_eq_zero (by omega)
      cases front' with
      | nil => exact ((isComment_of_readLine hfront').2 rfl).elim
      | cons token tokens' =>
          have hkey := isSome_key?_of_readNode hparse
          obtain ⟨name, hname⟩ := Option.isSome_iff_exists.mp hkey
          rw [List.filterMap_cons_some hname] at hnone
          cases hnone

end Parse

end Harmost.Support.Yaml
