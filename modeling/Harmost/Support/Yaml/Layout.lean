import Harmost.Support.Yaml.Block

/-!
# Lines that write a node

How the lines of mappings and sequences are put together from those of their
entries, with comments in between, and what is read from them.
-/

namespace Harmost.Support.Yaml

/-- A line of this indentation. -/
def indented (n : ℕ) (text : Str) : Str :=
  List.replicate n ' ' ++ text

/-- The text is the rest of a line that is read as a leaf. -/
structure Writes (text : Str) (leaf : Leaf) : Prop where
  unbroken : isUnbroken text = true
  read : readLeaf text = some (leaf, [])

/-- The lines are the entries of a mapping. -/
structure IsMapping (n : ℕ) (lines : List Str)
    (pairs : Fields) : Prop where
  unbroken : ∀ line ∈ lines, isUnbroken line = true
  read : ∃ tokens, content lines = some tokens ∧ Pairs n tokens pairs

/-- The lines are the entries of a sequence. -/
structure IsSequence (n : ℕ) (lines : List Str)
    (entries : List (List Event)) : Prop where
  unbroken : ∀ line ∈ lines, isUnbroken line = true
  read : ∃ tokens, content lines = some tokens ∧ Entries n tokens entries

theorem isUnbroken_indented (n : ℕ) (text : Str) :
    isUnbroken (indented n text) = isUnbroken text := by
  rw [indented, isUnbroken_append]
  induction n with
  | zero => rfl
  | succ n ih => exact ih

theorem isUnbroken_of_isAtom {text : Str} (h : isAtom text = true) :
    isUnbroken text = true := by
  rw [isAtom, Bool.and_eq_true] at h
  refine List.all_eq_true.mpr fun c hc => ?_
  have hchar := isAtomChar_spec (List.all_eq_true.mp h.2 c hc)
  simp [hchar]

theorem writes_of_isAtom {text : Str} (h : isAtom text = true) :
    Writes text (.plain text) :=
  ⟨isUnbroken_of_isAtom h, readLeaf_of_isAtom h⟩

theorem content_cons_of_readLine {line : Str} {tokens : List Token}
    (h : readLine line = some tokens) (rest : List Str) :
    content (line :: rest) = (content rest).map (tokens ++ ·) := by
  rw [content, (isComment_of_readLine h).1, h]
  rfl

theorem content_of_comments {lines : List Str}
    (h : ∀ line ∈ lines, isComment line = true) : content lines = some [] := by
  induction lines with
  | nil => rfl
  | cons line rest ih =>
      rw [content_cons_of_comment (h line List.mem_cons_self)]
      exact ih fun other hother => h other (List.mem_cons_of_mem _ hother)

section Rules

variable {n : ℕ} {lines lines' : List Str} {name text : Str} {leaf : Leaf}
  {pairs pairs' : Fields} {entries entries' : List (List Event)}

theorem isMapping_of_comments (n : ℕ)
    (h : ∀ line ∈ lines, isComment line = true) : IsMapping n lines [] where
  unbroken := fun line hline => isUnbroken_of_isComment (h line hline)
  read := ⟨[], content_of_comments h, .nil⟩

theorem isSequence_of_comments (n : ℕ)
    (h : ∀ line ∈ lines, isComment line = true) : IsSequence n lines [] where
  unbroken := fun line hline => isUnbroken_of_isComment (h line hline)
  read := ⟨[], content_of_comments h, .nil⟩

theorem IsMapping.append (h : IsMapping n lines pairs)
    (h' : IsMapping n lines' pairs') :
    IsMapping n (lines ++ lines') (pairs ++ pairs') where
  unbroken := fun line hline => (List.mem_append.mp hline).elim
    (h.unbroken line) (h'.unbroken line)
  read := by
    obtain ⟨tokens, hcontent, hpairs⟩ := h.read
    obtain ⟨tokens', hcontent', hpairs'⟩ := h'.read
    refine ⟨tokens ++ tokens', ?_, hpairs.append hpairs'⟩
    rw [content_append, hcontent, hcontent']
    rfl

theorem IsSequence.append (h : IsSequence n lines entries)
    (h' : IsSequence n lines' entries') :
    IsSequence n (lines ++ lines') (entries ++ entries') where
  unbroken := fun line hline => (List.mem_append.mp hline).elim
    (h.unbroken line) (h'.unbroken line)
  read := by
    obtain ⟨tokens, hcontent, hentries⟩ := h.read
    obtain ⟨tokens', hcontent', hentries'⟩ := h'.read
    refine ⟨tokens ++ tokens', ?_, hentries.append hentries'⟩
    rw [content_append, hcontent, hcontent']
    rfl

theorem isSequence_flatMap {α : Type} {items : List α} {f : α → List Str}
    {g : α → List (List Event)}
    (h : ∀ item ∈ items, IsSequence n (f item) (g item)) :
    IsSequence n (items.flatMap f) (items.flatMap g) := by
  induction items with
  | nil => exact isSequence_of_comments n (by simp)
  | cons item items ih =>
      rw [List.flatMap_cons, List.flatMap_cons]
      exact (h item List.mem_cons_self).append
        (ih fun other hother => h other (List.mem_cons_of_mem _ hother))

variable (hname : isAtom name = true)
include hname

theorem isMapping_leaf (n : ℕ) (hleaf : Writes text leaf) :
    IsMapping n [indented n (name ++ ':' :: ' ' :: text)]
      [(name, leaf.events)] where
  unbroken := by
    intro line hline
    rw [List.mem_singleton.mp hline, isUnbroken_indented, isUnbroken_append,
      isUnbroken_of_isAtom hname, isUnbroken_cons, isUnbroken_cons,
      hleaf.unbroken]
    rfl
  read := by
    refine ⟨_, ?_, .leaf name leaf .nil⟩
    rw [indented, content_cons_of_readLine
      (readLine_key hname rfl (readValue_cons hleaf.read) n)]
    rfl

/-- What belongs to a key follows it. -/
theorem isMapping_block {tokens : List Token} {events : List Event}
    (hunbroken : ∀ line ∈ lines, isUnbroken line = true)
    (hcontent : content lines = some tokens)
    (hindent : ∀ token ∈ tokens, n + 2 ≤ token.indent)
    (hnode : IsNode tokens events) :
    IsMapping n (indented n (name ++ [':']) :: lines) [(name, events)] where
  unbroken := by
    intro line hline
    rcases List.mem_cons.mp hline with rfl | hmem
    · rw [isUnbroken_indented, isUnbroken_append, isUnbroken_of_isAtom hname]
      rfl
    · exact hunbroken line hmem
  read := by
    have hinner : ∀ token ∈ tokens, n < token.indent := fun token htoken =>
      Nat.lt_of_lt_of_le (by omega) (hindent token htoken)
    refine ⟨_, ?_, .block name hinner hnode .nil⟩
    rw [indented, content_cons_of_readLine (readLine_key hname rfl rfl n),
      hcontent, List.append_nil]
    rfl

theorem isMapping_mapping (h : IsMapping (n + 2) lines pairs)
    (hkeys : (pairs.map Prod.fst).Nodup) :
    IsMapping n (indented n (name ++ [':']) :: lines)
      [(name, mappingOf pairs)] := by
  obtain ⟨tokens, hcontent, hpairs⟩ := h.read
  exact isMapping_block hname h.unbroken hcontent hpairs.le_indent
    (hpairs.isNode hkeys)

theorem isMapping_sequence (h : IsSequence (n + 2) lines entries) :
    IsMapping n (indented n (name ++ [':']) :: lines)
      [(name, sequenceOf entries)] := by
  obtain ⟨tokens, hcontent, hentries⟩ := h.read
  exact isMapping_block hname h.unbroken hcontent hentries.le_indent
    hentries.isNode

/-- A mapping whose first key stands behind a dash. -/
theorem isSequence_mapping (hleaf : Writes text leaf)
    (h : IsMapping (n + 2) lines pairs)
    (hkeys : (name :: pairs.map Prod.fst).Nodup) :
    IsSequence n
      (indented n ('-' :: ' ' :: (name ++ ':' :: ' ' :: text)) :: lines)
      [mappingOf ((name, leaf.events) :: pairs)] where
  unbroken := by
    intro line hline
    rcases List.mem_cons.mp hline with rfl | hmem
    · rw [isUnbroken_indented, isUnbroken_cons, isUnbroken_cons,
        isUnbroken_append, isUnbroken_of_isAtom hname, isUnbroken_cons,
        isUnbroken_cons, hleaf.unbroken]
      rfl
    · exact h.unbroken line hmem
  read := by
    obtain ⟨tokens, hcontent, hpairs⟩ := h.read
    have hall : Pairs (n + 2) (⟨n + 2, .key name (some leaf)⟩ :: tokens)
        ((name, leaf.events) :: pairs) := .leaf name leaf hpairs
    have hinner : ∀ token ∈ (⟨n + 2, .key name (some leaf)⟩ : Token) :: tokens,
        n < token.indent := fun token htoken =>
      Nat.lt_of_lt_of_le (by omega) (hall.le_indent token htoken)
    refine ⟨_, ?_, .cons hinner (hall.isNode hkeys) .nil⟩
    rw [indented, content_cons_of_readLine
      (readLine_entry hname rfl (readValue_cons hleaf.read) n), hcontent,
      List.append_nil]
    rfl

end Rules

end Harmost.Support.Yaml
