import Harmost.Support.Yaml.Line

/-!
# Blocks of YAML

Indentation nests what the lines of a document say.  The result is the list of
events that a parser reports: where a mapping or a sequence begins and ends, the
keys, and the scalars.
-/

namespace Harmost.Support.Yaml

inductive Event where
  | mapStart
  | mapEnd
  | seqStart
  | seqEnd
  | key (name : Str)
  /-- A node that is left out. -/
  | empty
  | plain (text : Str)
  | quoted (text : Str)
  deriving DecidableEq

def Leaf.events : Leaf → List Event
  | .plain text => [.plain text]
  | .quoted text => [.quoted text]
  | .flow items => .seqStart :: (items.map .quoted ++ [.seqEnd])

/-- The entries of a mapping, as keys and the events of their values. -/
abbrev Fields := List (Str × List Event)

/-- A mapping without entries is a node that is left out. -/
def mappingOf : Fields → List Event
  | [] => [.empty]
  | pair :: pairs =>
      .mapStart ::
        ((pair :: pairs).flatMap fun pair => .key pair.1 :: pair.2) ++
          [.mapEnd]

/-- A sequence without entries is a node that is left out. -/
def sequenceOf : List (List Event) → List Event
  | [] => [.empty]
  | entry :: entries => .seqStart :: (entry :: entries).flatten ++ [.seqEnd]

/-- Cut a list before everything that is not inside of something else; what
comes first may be inside. -/
def outline (inside : Token → Bool) :
    List Token → List Token × List (Token × List Token)
  | [] => ([], [])
  | token :: rest =>
      let (front, groups) := outline inside rest
      if inside token then (token :: front, groups)
      else ([], (token, front) :: groups)

/-- What belongs to a key: everything deeper, and a sequence at the same
indentation. -/
def insideKey (indent : ℕ) (token : Token) : Bool :=
  indent < token.indent || (token.indent == indent && token.item == .entry)

/-- What belongs to a dash. -/
def insideEntry (indent : ℕ) (token : Token) : Bool :=
  indent < token.indent

/-- A key and what belongs to it. -/
def readPair (node : List Token → Option (List Event)) (indent : ℕ)
    (group : Token × List Token) : Option (Str × List Event) :=
  match group.1.item with
  | .key name value =>
      if group.1.indent = indent then
        match value with
        | some leaf =>
            if group.2.isEmpty then some (name, leaf.events) else none
        | none => (node group.2).map fun events => (name, events)
      else none
  | _ => none

/-- A dash and what belongs to it. -/
def readEntry (node : List Token → Option (List Event)) (indent : ℕ)
    (group : Token × List Token) : Option (List Event) :=
  match group.1.item with
  | .entry => if group.1.indent = indent then node group.2 else none
  | _ => none

/-- A node is as its first token is.  Keys of a mapping are unique. -/
def readNode : ℕ → List Token → Option (List Event)
  | 0, _ => none
  | _ + 1, [] => some [.empty]
  | fuel + 1, token :: rest =>
      match token.item with
      | .key _ _ =>
          ((outline (insideKey token.indent) (token :: rest)).2.mapM
            (readPair (readNode fuel) token.indent)).bind fun entries =>
              if (entries.map Prod.fst).Nodup then some (mappingOf entries)
              else none
      | .entry =>
          ((outline (insideEntry token.indent) (token :: rest)).2.mapM
            (readEntry (readNode fuel) token.indent)).map sequenceOf
      | .leaf leaf => if rest.isEmpty then some leaf.events else none

/-! ## Texts that are read back -/

section Outline

variable {inside : Token → Bool}

theorem outline_append {front rest : List Token}
    {groups : List (Token × List Token)}
    (hfront : ∀ token ∈ front, inside token = true)
    (hrest : outline inside rest = ([], groups)) :
    outline inside (front ++ rest) = (front, groups) := by
  induction front with
  | nil => exact hrest
  | cons token front ih =>
      rw [List.cons_append, outline,
        ih fun other hother => hfront other (List.mem_cons_of_mem _ hother)]
      exact if_pos (hfront token List.mem_cons_self)

theorem outline_cons {token : Token} {front rest : List Token}
    {groups : List (Token × List Token)} (htoken : inside token = false)
    (hrest : outline inside rest = (front, groups)) :
    outline inside (token :: rest) = ([], (token, front) :: groups) := by
  rw [outline, hrest]
  exact if_neg (ne_true_of_eq_false htoken)

/-- Nothing is lost. -/
theorem outline_flatten (inside : Token → Bool) (tokens : List Token) :
    (outline inside tokens).1 ++
      ((outline inside tokens).2.flatMap fun group => group.1 :: group.2) =
        tokens := by
  induction tokens with
  | nil => rfl
  | cons token rest ih =>
      rw [outline]
      dsimp only
      split_ifs with hinside <;> exact congrArg (token :: ·) ih

end Outline

/-- The tokens are read as a node.  They are nested less deep than there are
tokens. -/
def IsNode (tokens : List Token) (events : List Event) : Prop :=
  ∀ fuel, tokens.length < fuel → readNode fuel tokens = some events

/-- The entries of a mapping at some indentation. -/
inductive Pairs (n : ℕ) : List Token → Fields → Prop where
  | nil : Pairs n [] []
  | leaf (name : Str) (leaf : Leaf) {rest : List Token}
      {pairs : Fields} (hrest : Pairs n rest pairs) :
      Pairs n (⟨n, .key name (some leaf)⟩ :: rest)
        ((name, leaf.events) :: pairs)
  | block (name : Str) {inner rest : List Token} {events : List Event}
      {pairs : Fields}
      (hinner : ∀ token ∈ inner, n < token.indent)
      (hnode : IsNode inner events) (hrest : Pairs n rest pairs) :
      Pairs n (⟨n, .key name none⟩ :: (inner ++ rest))
        ((name, events) :: pairs)

/-- The entries of a sequence at some indentation. -/
inductive Entries (n : ℕ) : List Token → List (List Event) → Prop where
  | nil : Entries n [] []
  | cons {inner rest : List Token} {events : List Event}
      {entries : List (List Event)}
      (hinner : ∀ token ∈ inner, n < token.indent)
      (hnode : IsNode inner events) (hrest : Entries n rest entries) :
      Entries n (⟨n, .entry⟩ :: (inner ++ rest)) (events :: entries)

section Nodes

variable {n : ℕ} {tokens : List Token} {pairs : Fields}
  {entries : List (List Event)}

theorem Pairs.outline (h : Pairs n tokens pairs) :
    ∃ groups, outline (insideKey n) tokens = ([], groups) ∧
      ∀ fuel, tokens.length ≤ fuel →
        groups.mapM (readPair (readNode fuel) n) = some pairs := by
  induction h with
  | nil => exact ⟨[], rfl, fun _ _ => rfl⟩
  | leaf name leaf hrest ih =>
      obtain ⟨groups, houtline, hread⟩ := ih
      refine ⟨(_, []) :: groups,
        outline_cons (by simp [insideKey]) houtline, fun fuel hfuel => ?_⟩
      rw [List.mapM_cons, hread fuel (Nat.le_of_succ_le hfuel)]
      simp [readPair]
  | @block name inner rest events pairs hinner hnode hrest ih =>
      obtain ⟨groups, houtline, hread⟩ := ih
      have hinside : ∀ token ∈ inner, insideKey n token = true := by
        intro token htoken
        simp [insideKey, hinner token htoken]
      refine ⟨(_, inner) :: groups, outline_cons (by simp [insideKey])
        (outline_append hinside houtline), fun fuel hfuel => ?_⟩
      rw [List.length_cons, List.length_append] at hfuel
      rw [List.mapM_cons, hread fuel (by omega)]
      simp [readPair, hnode fuel (by omega)]

/-- Pairs with distinct keys are a mapping. -/
theorem Pairs.isNode (h : Pairs n tokens pairs)
    (hkeys : (pairs.map Prod.fst).Nodup) : IsNode tokens (mappingOf pairs) := by
  intro fuel hfuel
  obtain ⟨fuel, rfl⟩ := Nat.exists_eq_succ_of_ne_zero (Nat.ne_of_gt
    (Nat.zero_lt_of_lt hfuel))
  obtain ⟨groups, houtline, hgroups⟩ := h.outline
  have hread := hgroups fuel (Nat.le_of_lt_succ hfuel)
  cases h with
  | nil => rfl
  | leaf | block =>
      rw [readNode, houtline, hread]
      exact if_pos hkeys

theorem Entries.outline (h : Entries n tokens entries) :
    ∃ groups, outline (insideEntry n) tokens = ([], groups) ∧
      ∀ fuel, tokens.length ≤ fuel →
        groups.mapM (readEntry (readNode fuel) n) = some entries := by
  induction h with
  | nil => exact ⟨[], rfl, fun _ _ => rfl⟩
  | @cons inner rest events entries hinner hnode hrest ih =>
      obtain ⟨groups, houtline, hread⟩ := ih
      have hinside : ∀ token ∈ inner, insideEntry n token = true := by
        intro token htoken
        simp [insideEntry, hinner token htoken]
      refine ⟨(_, inner) :: groups, outline_cons (by simp [insideEntry])
        (outline_append hinside houtline), fun fuel hfuel => ?_⟩
      rw [List.length_cons, List.length_append] at hfuel
      rw [List.mapM_cons, hread fuel (by omega)]
      simp [readEntry, hnode fuel (by omega)]

theorem Entries.isNode (h : Entries n tokens entries) :
    IsNode tokens (sequenceOf entries) := by
  intro fuel hfuel
  obtain ⟨fuel, rfl⟩ := Nat.exists_eq_succ_of_ne_zero (Nat.ne_of_gt
    (Nat.zero_lt_of_lt hfuel))
  obtain ⟨groups, houtline, hgroups⟩ := h.outline
  have hread := hgroups fuel (Nat.le_of_lt_succ hfuel)
  cases h with
  | nil => rfl
  | cons hinner hnode hrest =>
      rw [readNode, houtline, hread]
      rfl

theorem Pairs.append {tokens' : List Token}
    {pairs' : Fields} (h : Pairs n tokens pairs)
    (h' : Pairs n tokens' pairs') :
    Pairs n (tokens ++ tokens') (pairs ++ pairs') := by
  induction h with
  | nil => exact h'
  | leaf name leaf hrest ih => exact .leaf name leaf ih
  | block name hinner hnode hrest ih =>
      rw [List.cons_append, List.append_assoc]
      exact .block name hinner hnode ih

theorem Entries.append {tokens' : List Token}
    {entries' : List (List Event)} (h : Entries n tokens entries)
    (h' : Entries n tokens' entries') :
    Entries n (tokens ++ tokens') (entries ++ entries') := by
  induction h with
  | nil => exact h'
  | cons hinner hnode hrest ih =>
      rw [List.cons_append, List.append_assoc]
      exact .cons hinner hnode ih

/-- An item, what is inside of it, and what follows. -/
theorem le_indent_cons (item : Item) {inner rest : List Token}
    (hinner : ∀ token ∈ inner, n < token.indent)
    (hrest : ∀ token ∈ rest, n ≤ token.indent) :
    ∀ token ∈ ⟨n, item⟩ :: (inner ++ rest), n ≤ token.indent := by
  intro token htoken
  rw [List.mem_cons, List.mem_append] at htoken
  rcases htoken with rfl | hmem | hmem
  · exact le_rfl
  · exact (hinner token hmem).le
  · exact hrest token hmem

theorem Pairs.le_indent (h : Pairs n tokens pairs) :
    ∀ token ∈ tokens, n ≤ token.indent := by
  induction h with
  | nil => simp
  | leaf name leaf hrest ih => simpa using ih
  | block name hinner hnode hrest ih => exact le_indent_cons _ hinner ih

theorem Entries.le_indent (h : Entries n tokens entries) :
    ∀ token ∈ tokens, n ≤ token.indent := by
  induction h with
  | nil => simp
  | cons hinner hnode hrest ih => exact le_indent_cons _ hinner ih

end Nodes

/-! ## Keys -/

def Event.key? : Event → Option Str
  | .key name => some name
  | _ => none

def Token.key? (token : Token) : Option Str :=
  match token.item with
  | .key name _ => some name
  | _ => none

theorem filterMap_leaf_events (leaf : Leaf) :
    leaf.events.filterMap Event.key? = [] := by
  cases leaf with
  | plain | quoted => rfl
  | flow items =>
      have hnone : (items.map Event.quoted).filterMap Event.key? = [] := by
        rw [List.filterMap_map]
        exact List.filterMap_none items
      rw [Leaf.events, List.filterMap_cons_none rfl, List.filterMap_append,
        hnone]
      rfl

theorem flatMap_eq_of_mapM {α β γ : Type} {f : α → Option β} {g : α → List γ}
    {k : β → List γ} (h : ∀ a b, f a = some b → k b = g a) {as : List α}
    {bs : List β} (has : as.mapM f = some bs) :
    bs.flatMap k = as.flatMap g := by
  induction as generalizing bs with
  | nil =>
      cases has
      rfl
  | cons a as ih =>
      rw [List.mapM_cons] at has
      obtain ⟨b, hb, has⟩ := Option.bind_eq_some_iff.mp has
      obtain ⟨others, hothers, hbs⟩ := Option.bind_eq_some_iff.mp has
      cases hbs
      rw [List.flatMap_cons, List.flatMap_cons, h a b hb, ih hothers]

theorem filterMap_mappingOf (pairs : Fields) :
    (mappingOf pairs).filterMap Event.key? =
      pairs.flatMap fun pair => pair.1 :: pair.2.filterMap Event.key? := by
  cases pairs with
  | nil => rfl
  | cons pair pairs =>
      rw [mappingOf, List.filterMap_append, List.filterMap_cons_none rfl,
        List.filterMap_flatMap]
      exact List.append_nil _

theorem filterMap_sequenceOf (entries : List (List Event)) :
    (sequenceOf entries).filterMap Event.key? =
      entries.flatMap fun entry => entry.filterMap Event.key? := by
  cases entries with
  | nil => rfl
  | cons entry entries =>
      rw [sequenceOf, List.filterMap_append, List.filterMap_cons_none rfl,
        List.filterMap_flatten, ← List.flatMap_def]
      exact List.append_nil _

section Keys

variable {node : List Token → Option (List Event)}
  (hnode : ∀ tokens events, node tokens = some events →
    events.filterMap Event.key? = tokens.filterMap Token.key?)
  (indent : ℕ) (group : Token × List Token)
include hnode

theorem filterMap_readPair (pair : Str × List Event)
    (h : readPair node indent group = some pair) :
    pair.1 :: pair.2.filterMap Event.key? =
      (group.1 :: group.2).filterMap Token.key? := by
  obtain ⟨⟨position, item⟩, inner⟩ := group
  cases item with
  | entry | leaf => cases h
  | key name value =>
      rw [readPair] at h
      cases value with
      | none =>
          dsimp only at h
          split_ifs at h
          obtain ⟨events, hevents, rfl⟩ := Option.map_eq_some_iff.mp h
          exact congrArg (name :: ·) (hnode inner events hevents)
      | some leaf =>
          dsimp only at h
          split_ifs at h with hindent hinner
          cases h
          rw [List.isEmpty_iff.mp hinner]
          exact congrArg (name :: ·) (filterMap_leaf_events leaf)

theorem filterMap_readEntry (events : List Event)
    (h : readEntry node indent group = some events) :
    events.filterMap Event.key? =
      (group.1 :: group.2).filterMap Token.key? := by
  obtain ⟨⟨position, item⟩, inner⟩ := group
  cases item with
  | key | leaf => cases h
  | entry =>
      rw [readEntry] at h
      dsimp only at h
      split_ifs at h
      exact hnode inner events h

end Keys

theorem filterMap_outline {inside : Token → Bool} {token : Token}
    (h : inside token = false) (rest : List Token) :
    ((outline inside (token :: rest)).2.flatMap fun group =>
        (group.1 :: group.2).filterMap Token.key?) =
      (token :: rest).filterMap Token.key? := by
  have hfront : (outline inside (token :: rest)).1 = [] := by
    rw [outline]
    dsimp only
    rw [if_neg (ne_true_of_eq_false h)]
  have hflatten := outline_flatten inside (token :: rest)
  rw [hfront, List.nil_append] at hflatten
  rw [← List.filterMap_flatMap, hflatten]

/-- The keys of a node are those of its tokens, in order. -/
theorem filterMap_readNode {fuel : ℕ} {tokens : List Token}
    {events : List Event} (h : readNode fuel tokens = some events) :
    events.filterMap Event.key? = tokens.filterMap Token.key? := by
  induction fuel generalizing tokens events with
  | zero => cases h
  | succ fuel ih =>
      cases tokens with
      | nil =>
          cases h
          rfl
      | cons token rest =>
          rw [readNode] at h
          split at h
          next name value hitem =>
            obtain ⟨pairs, hpairs, h⟩ := Option.bind_eq_some_iff.mp h
            split_ifs at h
            cases h
            have hkey : insideKey token.indent token = false := by
              simp [insideKey, hitem]
            rw [filterMap_mappingOf, ← filterMap_outline hkey rest]
            exact flatMap_eq_of_mapM (filterMap_readPair (fun _ _ => ih) _)
              hpairs
          next hitem =>
            obtain ⟨entries, hentries, rfl⟩ := Option.map_eq_some_iff.mp h
            have hentry : insideEntry token.indent token = false := by
              simp [insideEntry]
            rw [filterMap_sequenceOf, ← filterMap_outline hentry rest]
            exact flatMap_eq_of_mapM (filterMap_readEntry (fun _ _ => ih) _)
              hentries
          next leaf hitem =>
            split_ifs at h with hrest
            cases h
            rw [List.isEmpty_iff.mp hrest, filterMap_leaf_events]
            simp [Token.key?, hitem]

/-- Only a key begins a mapping. -/
theorem isSome_key?_of_readNode {fuel : ℕ} {token : Token}
    {rest : List Token} {events : List Event}
    (h : readNode fuel (token :: rest) = some (.mapStart :: events)) :
    token.key?.isSome = true := by
  cases fuel with
  | zero => cases h
  | succ fuel =>
      rw [readNode] at h
      split at h
      next name value hitem => simp [Token.key?, hitem]
      next hitem =>
        obtain ⟨entries, -, hevents⟩ := Option.map_eq_some_iff.mp h
        cases entries <;> cases hevents
      next leaf hitem =>
        split_ifs at h
        cases leaf <;> cases h

/-! ## Quoted scalars -/

def Event.quoted? : Event → Option Str
  | .quoted text => some text
  | _ => none

/-- The quoted scalars of a node, in order. -/
def quotedOf (events : List Event) : List Str :=
  events.filterMap Event.quoted?

/-- An event without the text of a quoted scalar. -/
def Event.erase : Event → Event
  | .quoted _ => .quoted []
  | event => event

/-- What is left of a node without the texts of its quoted scalars. -/
def eraseQuoted (events : List Event) : List Event :=
  events.map Event.erase

/-- The quoted scalars of entries, in order. -/
def quotedIn (fields : Fields) : List Str :=
  fields.flatMap fun pair => quotedOf pair.2

theorem quotedIn_append (fields fields' : Fields) :
    quotedIn (fields ++ fields') = quotedIn fields ++ quotedIn fields' :=
  List.flatMap_append

theorem quotedOf_leaf (leaf : Leaf) :
    quotedOf leaf.events =
      match leaf with
      | .plain _ => []
      | .quoted text => [text]
      | .flow items => items := by
  cases leaf with
  | plain | quoted => rfl
  | flow items =>
      have hitems : (items.map Event.quoted).filterMap Event.quoted? =
          items := by
        rw [List.filterMap_map]
        exact List.filterMap_some
      rw [Leaf.events, quotedOf, List.filterMap_cons_none rfl,
        List.filterMap_append, hitems]
      exact List.append_nil items

theorem quotedOf_mappingOf (pairs : Fields) :
    quotedOf (mappingOf pairs) = quotedIn pairs := by
  cases pairs with
  | nil => rfl
  | cons pair pairs =>
      rw [mappingOf, quotedOf, List.filterMap_append,
        List.filterMap_cons_none rfl, List.filterMap_flatMap]
      exact List.append_nil _

theorem quotedOf_sequenceOf (entries : List (List Event)) :
    quotedOf (sequenceOf entries) = entries.flatMap quotedOf := by
  cases entries with
  | nil => rfl
  | cons entry entries =>
      rw [sequenceOf, quotedOf, List.filterMap_append,
        List.filterMap_cons_none rfl, List.filterMap_flatten,
        ← List.flatMap_def]
      exact List.append_nil _

theorem eraseQuoted_mappingOf (pairs : Fields) :
    eraseQuoted (mappingOf pairs) =
      mappingOf (pairs.map fun pair => (pair.1, eraseQuoted pair.2)) := by
  cases pairs with
  | nil => rfl
  | cons pair pairs =>
      rw [mappingOf, eraseQuoted, List.map_append, List.map_cons,
        List.map_flatMap]
      change _ = Event.mapStart :: (((pair :: pairs).map fun pair =>
        (pair.1, eraseQuoted pair.2)).flatMap fun pair =>
          .key pair.1 :: pair.2) ++ [.mapEnd]
      rw [List.flatMap_map]
      rfl

theorem eraseQuoted_sequenceOf (entries : List (List Event)) :
    eraseQuoted (sequenceOf entries) =
      sequenceOf (entries.map eraseQuoted) := by
  cases entries with
  | nil => rfl
  | cons entry entries =>
      rw [sequenceOf, eraseQuoted, List.map_append, List.map_cons,
        List.map_flatten]
      rfl

theorem filterMap_eraseQuoted (events : List Event) :
    (eraseQuoted events).filterMap Event.key? =
      events.filterMap Event.key? := by
  rw [eraseQuoted, List.filterMap_map]
  refine List.filterMap_congr fun event _ => ?_
  cases event <;> rfl

end Harmost.Support.Yaml
