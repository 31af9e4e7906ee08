import Harmost.Http.Grammar
import Harmost.Proxy.KeySeparation
import Harmost.Proxy.Refusal
import Mathlib.Data.List.Forall2
import Mathlib.Data.List.ReduceOption

/-!
# Content codings and the cache key

RFC 9110 says which content codings a request accepts.  The key holds a
normalised spelling of the `Accept-Encoding` field instead, so two requests with
one spelling have to accept the same codings.

The meaning of the field is stated on its bytes: a relation says what each
element of the list spells, and what is accepted follows from the entries.
-/

namespace Harmost.Cache

open Harmost.Support
open Harmost.Http
open Harmost.Classifier
open Harmost.Proxy

/-- `u8::to_ascii_lowercase`. -/
def lowerByte (b : UInt8) : UInt8 :=
  if 0x41 ≤ b ∧ b ≤ 0x5a then b + 0x20 else b

namespace ContentCoding

/-! ## What the field means -/

/-- A coding, in lower case, and whether its weight is zero. -/
structure Entry where
  coding : List UInt8
  excluded : Bool
  deriving DecidableEq

def isTokenByte (b : UInt8) : Bool :=
  isTokenChar (latin1Char b)

def isDigitByte (b : UInt8) : Bool :=
  0x30 ≤ b && b ≤ 0x39

/-- A weight: a number between 0 and 1 with at most three decimals. -/
def isQvalue : List UInt8 → Bool
  | [0x30] => true
  | [0x31] => true
  | 0x30 :: 0x2e :: decimals =>
      decide (decimals.length ≤ 3) && decimals.all isDigitByte
  | 0x31 :: 0x2e :: decimals =>
      decide (decimals.length ≤ 3) && decimals.all (· == 0x30)
  | _ => false

/-- No digit of a weight counts. -/
def isZero (weight : List UInt8) : Bool :=
  weight.all fun b => b == 0x30 || b == 0x2e

/-- What an element of the list spells: nothing, a coding, or a coding with a
weight, each with optional whitespace around its parts. -/
inductive Spells : List UInt8 → Option Entry → Prop where
  | blank {lead : List UInt8} (hlead : lead.all isOws = true) : Spells lead none
  | coding {lead name trail : List UInt8} (hlead : lead.all isOws = true)
      (hname : name ≠ []) (htoken : name.all isTokenByte = true)
      (htrail : trail.all isOws = true) :
      Spells (lead ++ name ++ trail) (some ⟨name.map lowerByte, false⟩)
  | weighted {lead name gap gap' weight trail : List UInt8} {q : UInt8}
      (hlead : lead.all isOws = true) (hname : name ≠ [])
      (htoken : name.all isTokenByte = true) (hgap : gap.all isOws = true)
      (hgap' : gap'.all isOws = true) (hq : lowerByte q = 0x71)
      (hweight : isQvalue weight = true) (htrail : trail.all isOws = true) :
      Spells (lead ++ name ++ gap ++ [0x3b] ++ gap' ++ [q, 0x3d] ++ weight ++
        trail) (some ⟨name.map lowerByte, isZero weight⟩)

/-- What the lines of a field spell together: no field at all, or the entries
of the list. -/
inductive Reads : List HeaderValue → Option (List Entry) → Prop where
  | absent : Reads [] none
  | present {values : List HeaderValue} {entries : List (Option Entry)}
      (hne : values ≠ [])
      (h : List.Forall₂ Spells (elements values) entries) :
      Reads values (some entries.reduceOption)

/-- The entries for one coding. -/
def entriesFor (coding : List UInt8) (entries : List Entry) : List Entry :=
  entries.filter fun entry => entry.coding == coding

/-- Is a coding acceptable?  An absent field accepts everything; a listed
coding is accepted unless its weight is zero; `*` stands for what is not listed;
and the identity is accepted when nothing speaks about it. -/
def acceptable (field : Option (List Entry)) (coding : List UInt8) : Bool :=
  match field with
  | none => true
  | some entries =>
      let coding := coding.map lowerByte
      let named := entriesFor coding entries
      let starred := entriesFor (asciiBytes "*".toList) entries
      if !named.isEmpty then named.any fun entry => !entry.excluded
      else if !starred.isEmpty then starred.any fun entry => !entry.excluded
      else coding == asciiBytes "identity".toList

/-! ## What the normalisation keeps -/

/-- A part of the normalised field, as bytes: no spaces, and lower case. -/
def squeeze (element : List UInt8) : List UInt8 :=
  (element.map lowerByte).filter (· != 0x20)

/-- The parts that remain. -/
def parts (values : List HeaderValue) : List (List UInt8) :=
  ((elements values).map squeeze).filter fun part => !part.isEmpty

theorem toAsciiLowercase_escapeByte (b : UInt8) :
    toAsciiLowercase (escapeByte b) = escapeByte (lowerByte b) := by
  revert b
  decide +kernel

theorem toAsciiLowercase_escapeAscii (bytes : List UInt8) :
    toAsciiLowercase (escapeAscii bytes) =
      escapeAscii (bytes.map lowerByte) := by
  rw [escapeAscii, escapeAscii, toAsciiLowercase, List.map_flatMap,
    List.flatMap_map]
  exact congrArg (bytes.flatMap ·) (funext toAsciiLowercase_escapeByte)

theorem filter_space_escapeByte (b : UInt8) :
    (escapeByte b).filter (· != ' ') =
      if b = 0x20 then [] else escapeByte b := by
  by_cases hb : b = 0x20
  · subst b
    rfl
  · have hspace : IsSeparatorByte 0x20 := Or.inl rfl
    rw [if_neg hb, List.filter_eq_self]
    intro c hc
    rw [bne_iff_ne]
    rintro rfl
    exact notMem_escapeByte_of_ne hspace hb hc

theorem filter_space_escapeAscii (bytes : List UInt8) :
    (escapeAscii bytes).filter (· != ' ') =
      escapeAscii (bytes.filter (· != 0x20)) := by
  induction bytes with
  | nil => rfl
  | cons b bytes ih =>
      rw [escapeAscii, List.flatMap_cons, List.filter_append,
        filter_space_escapeByte, ← escapeAscii, ih]
      by_cases hb : b = 0x20
      · subst b
        rfl
      · rw [if_neg hb, List.filter_cons_of_pos (by simpa using hb)]
        rfl

/-- One piece of a part, as the normalisation rewrites it. -/
def rewritePiece (piece : Str) : Str :=
  (toAsciiLowercase (trim piece)).filter (· != ' ')

/-- Lower case, and no spaces. -/
def compress (text : Str) : Str :=
  (toAsciiLowercase text).filter (· != ' ')

theorem compress_append (s t : Str) :
    compress (s ++ t) = compress s ++ compress t := by
  rw [compress, toAsciiLowercase, List.map_append, List.filter_append]
  rfl

theorem compress_eq_nil {s : Str} (h : ∀ c ∈ s, c = ' ') : compress s = [] := by
  rw [compress, List.filter_eq_nil_iff]
  intro c hc
  obtain ⟨d, hd, rfl⟩ := List.mem_map.mp hc
  rw [h d hd]
  decide

/-- Trimming first makes no difference when the space is the only white
space. -/
theorem rewritePiece_eq {piece : Str}
    (h : ∀ c ∈ piece, isWhitespace c = true → c = ' ') :
    rewritePiece piece = compress piece := by
  obtain ⟨front, back, hpiece, hfront, hback⟩ :=
    exists_eq_append_trimMatches isWhitespace piece
  have hblank : ∀ pad : Str, (∀ c ∈ pad, isWhitespace c = true) →
      (∀ c ∈ pad, c ∈ piece) → compress pad = [] := by
    intro pad hpad hmem
    apply compress_eq_nil
    intro c hc
    exact h c (hmem c hc) (hpad c hc)
  have hnone := hblank front hfront (by rw [hpiece]; simp +contextual)
  have hnone' := hblank back hback (by rw [hpiece]; simp +contextual)
  conv_rhs => rw [hpiece]
  rw [compress_append, compress_append, hnone, hnone', List.nil_append,
    List.append_nil]
  rfl

theorem join_map_compress (sep : Char) (hsep : compress [sep] = [sep])
    (pieces : List Str) :
    join sep (pieces.map compress) = compress (join sep pieces) := by
  have hcons : ∀ rest : Str, compress (sep :: rest) = sep :: compress rest := by
    intro rest
    rw [← List.singleton_append, compress_append, hsep, List.singleton_append]
  induction pieces with
  | nil => rfl
  | cons piece pieces ih =>
      cases pieces with
      | nil => simp
      | cons next pieces =>
          rw [List.map_cons, List.map_cons, join_cons_cons, ← List.map_cons, ih,
            join_cons_cons, compress_append, hcons]

/-- A part is rewritten as a whole. -/
theorem join_rewritePiece {text : Str}
    (h : ∀ c ∈ text, isWhitespace c = true → c = ' ') :
    join ';' ((text.splitOn ';').map rewritePiece) = compress text := by
  have hjoin : join ';' (text.splitOn ';') = text :=
    List.intercalate_splitOn ';'
  have hmap : (text.splitOn ';').map rewritePiece =
      (text.splitOn ';').map compress := by
    apply List.map_congr_left
    intro piece hpiece
    apply rewritePiece_eq
    intro c hc
    exact h c (mem_of_mem_splitOn hpiece hc)
  rw [hmap, join_map_compress ';' (by decide), hjoin]

theorem compress_escapeAscii (element : List UInt8) :
    compress (escapeAscii element) = escapeAscii (squeeze element) := by
  rw [compress, toAsciiLowercase_escapeAscii, filter_space_escapeAscii]
  rfl

theorem escapeAscii_isEmpty (bytes : List UInt8) :
    (escapeAscii bytes).isEmpty = bytes.isEmpty := by
  cases bytes with
  | nil => rfl
  | cons b bytes =>
      have hne : escapeAscii (b :: bytes) ≠ [] := by
        rw [escapeAscii, List.flatMap_cons]
        exact List.append_ne_nil_of_left_ne_nil (escapeByte_ne_nil b) _
      rw [List.isEmpty_eq_false_iff.mpr hne]
      rfl

/-- The lines of the field. -/
def acceptEncoding (req : RequestMetadata) : List HeaderValue :=
  req.headers.getAll "accept-encoding".toList

/-- The normalised field spells the remaining parts. -/
theorem normalizeAcceptEncoding_eq (req : RequestMetadata) :
    normalizeAcceptEncoding req =
      if parts (acceptEncoding req) = [] then "identity".toList
      else join ',' ((parts (acceptEncoding req)).map escapeAscii) := by
  have hunfold : normalizeAcceptEncoding req =
      let joined := join ',' ((acceptEncoding req).map headerText)
      let values := ((joined.splitOn ',').map fun part =>
        join ';' ((part.splitOn ';').map rewritePiece)).filter
          fun part => !part.isEmpty
      if values.isEmpty then "identity".toList else join ',' values := rfl
  rw [hunfold]
  by_cases hne : acceptEncoding req = []
  · rw [hne]
    rfl
  · have hpart : ∀ element : List UInt8,
        join ';' (((escapeAscii element).splitOn ';').map rewritePiece) =
          escapeAscii (squeeze element) := by
      intro element
      rw [join_rewritePiece, compress_escapeAscii]
      intro c hc hspace
      obtain ⟨hlow, hhigh⟩ := printable_of_mem_escapeAscii hc
      by_contra hne
      have hcode : c.toNat ≠ 0x20 := fun heq => hne (Char.toNat_inj.mp heq)
      rw [isWhitespace_eq_false_of_graphic (by omega) hhigh] at hspace
      cases hspace
    have hvalues : (((elements (acceptEncoding req)).map escapeAscii).map
        fun part => join ';' ((part.splitOn ';').map rewritePiece)).filter
          (fun part => !part.isEmpty) =
        (parts (acceptEncoding req)).map escapeAscii := by
      have hmap : ((elements (acceptEncoding req)).map escapeAscii).map
          (fun part => join ';' ((part.splitOn ';').map rewritePiece)) =
            ((elements (acceptEncoding req)).map squeeze).map escapeAscii := by
        rw [List.map_map, List.map_map]
        exact List.map_congr_left fun element _ => hpart element
      rw [hmap, List.filter_map, parts]
      congr 2
      funext part
      exact congrArg not (escapeAscii_isEmpty part)
    simp only [splitOn_join_headerText hne, hvalues, List.isEmpty_iff,
      List.map_eq_nil_iff]

/-- The parts, with the identity in place of none. -/
def canonicalParts (values : List HeaderValue) : List (List UInt8) :=
  if parts values = [] then [asciiBytes "identity".toList] else parts values

theorem canonicalParts_ne_nil (values : List HeaderValue) :
    canonicalParts values ≠ [] := by
  unfold canonicalParts
  split_ifs with hempty
  · exact List.cons_ne_nil _ _
  · exact hempty

theorem normalizeAcceptEncoding_eq_join (req : RequestMetadata) :
    normalizeAcceptEncoding req =
      join ',' ((canonicalParts (acceptEncoding req)).map escapeAscii) := by
  rw [normalizeAcceptEncoding_eq, canonicalParts]
  split_ifs
  · rfl
  · rfl

/-- Folding the case makes nothing but letters. -/
theorem eq_of_lowerByte {b c : UInt8} (hc : c < 0x61) (h : lowerByte b = c) :
    b = c := by
  unfold lowerByte at h
  split_ifs at h with hupper
  · obtain ⟨hlow, hhigh⟩ := hupper
    rw [← UInt8.toNat_inj, UInt8.toNat_add] at h
    rw [UInt8.le_iff_toNat_le] at hlow hhigh
    rw [UInt8.lt_iff_toNat_lt] at hc
    have h41 : (0x41 : UInt8).toNat = 0x41 := rfl
    have h5a : (0x5a : UInt8).toNat = 0x5a := rfl
    have h20 : (0x20 : UInt8).toNat = 0x20 := rfl
    have h61 : (0x61 : UInt8).toNat = 0x61 := rfl
    omega
  · exact h

variable {values : List HeaderValue}

theorem comma_notMem_canonicalParts {part : List UInt8}
    (h : part ∈ canonicalParts values) : 0x2c ∉ part := by
  unfold canonicalParts at h
  split_ifs at h
  · rw [List.mem_singleton.mp h]
    decide
  · obtain ⟨element, helement, rfl⟩ :=
      List.mem_map.mp (List.mem_of_mem_filter h)
    obtain ⟨value, _, hpiece⟩ := List.mem_flatMap.mp helement
    intro hcomma
    obtain ⟨b, hb, hlower⟩ := List.mem_map.mp (List.mem_of_mem_filter hcomma)
    rw [eq_of_lowerByte (by decide) hlower] at hb
    exact notMem_of_mem_splitOn hpiece hb

theorem comma_notMem_escapeAscii {bytes : List UInt8} (h : 0x2c ∉ bytes) :
    ',' ∉ escapeAscii bytes := by
  intro hmem
  obtain ⟨b, hb, hcomma⟩ := List.mem_flatMap.mp hmem
  have hne : b ≠ 0x2c := fun heq => h (heq ▸ hb)
  have hseparator : IsSeparatorByte 0x2c := .inr (.inl rfl)
  exact notMem_escapeByte_of_ne hseparator hne hcomma

/-- Nothing but the parts is kept, and all of them are. -/
theorem canonicalParts_eq_of_normalizeAcceptEncoding_eq
    {req req' : RequestMetadata}
    (h : normalizeAcceptEncoding req = normalizeAcceptEncoding req') :
    canonicalParts (acceptEncoding req) =
      canonicalParts (acceptEncoding req') := by
  rw [normalizeAcceptEncoding_eq_join, normalizeAcceptEncoding_eq_join] at h
  have hcomma : ∀ values : List HeaderValue,
      ∀ part ∈ (canonicalParts values).map escapeAscii, ',' ∉ part := by
    intro values part hpart
    obtain ⟨bytes, hbytes, rfl⟩ := List.mem_map.mp hpart
    exact comma_notMem_escapeAscii (comma_notMem_canonicalParts hbytes)
  have hne : ∀ values : List HeaderValue,
      (canonicalParts values).map escapeAscii ≠ [] := by
    intro values
    simpa using canonicalParts_ne_nil values
  exact escapeAscii_injective.list_map
    (join_injOn ',' (hcomma _) (hcomma _) (hne _) (hne _) h)

/-! ## The parts say what the field means -/

/-- Read an entry back from a part. -/
def readPart (part : List UInt8) : Option Entry :=
  let bare := part.filter (· != 0x09)
  let weight := (bare.dropWhile (· != 0x3b)).drop 3
  if bare.isEmpty then none
  else some ⟨bare.takeWhile (· != 0x3b), !weight.isEmpty && isZero weight⟩

/-- The bytes of an element in lower case, without optional whitespace. -/
def bare (element : List UInt8) : List UInt8 :=
  (squeeze element).filter (· != 0x09)

theorem bare_append (front back : List UInt8) :
    bare (front ++ back) = bare front ++ bare back := by
  simp only [bare, squeeze, List.map_append, List.filter_append]

theorem bare_eq_map {bytes : List UInt8}
    (h : ∀ b ∈ bytes, lowerByte b ≠ 0x20 ∧ lowerByte b ≠ 0x09) :
    bare bytes = bytes.map lowerByte := by
  have hlower : ∀ b ∈ bytes.map lowerByte, b ≠ 0x20 ∧ b ≠ 0x09 := by
    intro b hb
    obtain ⟨a, ha, rfl⟩ := List.mem_map.mp hb
    exact h a ha
  have hspace : squeeze bytes = bytes.map lowerByte := by
    rw [squeeze, List.filter_eq_self]
    intro b hb
    rw [bne_iff_ne]
    exact (hlower b hb).1
  rw [bare, hspace, List.filter_eq_self]
  intro b hb
  rw [bne_iff_ne]
  exact (hlower b hb).2

theorem bare_ows {ows : List UInt8} (h : ows.all isOws = true) :
    bare ows = [] := by
  induction ows with
  | nil => rfl
  | cons b ows ih =>
      rw [List.all_cons, Bool.and_eq_true] at h
      rw [← List.singleton_append, bare_append, ih h.2, List.append_nil]
      have hb : b = 0x20 ∨ b = 0x09 := by simpa [isOws] using h.1
      rcases hb with rfl | rfl <;> rfl

theorem lowerByte_token {b : UInt8} (h : isTokenByte b = true) :
    lowerByte b ≠ 0x20 ∧ lowerByte b ≠ 0x09 ∧ lowerByte b ≠ 0x3b := by
  obtain ⟨hlow, _, hdelimiter⟩ := visible_of_isTokenChar h
  refine ⟨?_, ?_, ?_⟩
  · intro heq
    rw [eq_of_lowerByte (by decide) heq] at hlow
    revert hlow
    decide
  · intro heq
    rw [eq_of_lowerByte (by decide) heq] at hlow
    revert hlow
    decide
  · intro heq
    rw [eq_of_lowerByte (by decide) heq] at hdelimiter
    exact hdelimiter (by decide)

/-- The bytes a weight is written with. -/
def isWeightByte (b : UInt8) : Bool :=
  isDigitByte b || b == 0x2e

theorem lowerByte_weight {b : UInt8} (h : isWeightByte b = true) :
    lowerByte b = b ∧ b ≠ 0x20 ∧ b ≠ 0x09 := by
  revert b
  decide +kernel

theorem isWeightByte_of_isQvalue {weight : List UInt8}
    (h : isQvalue weight = true) :
    weight ≠ [] ∧ weight.all isWeightByte = true := by
  have hdigits : ∀ {decimals : List UInt8} {p : UInt8 → Bool},
      decimals.all p = true → (∀ b, p b = true → isWeightByte b = true) →
        decimals.all isWeightByte = true := by
    intro decimals p hall himp
    rw [List.all_eq_true] at hall ⊢
    intro b hb
    exact himp b (hall b hb)
  unfold isQvalue at h
  split at h
  · decide
  · decide
  · rw [Bool.and_eq_true] at h
    refine ⟨List.cons_ne_nil _ _, ?_⟩
    rw [List.all_cons, List.all_cons,
      hdigits h.2 fun b hb => by simp [isWeightByte, hb]]
    rfl
  · rw [Bool.and_eq_true] at h
    refine ⟨List.cons_ne_nil _ _, ?_⟩
    rw [List.all_cons, List.all_cons, hdigits h.2 fun b hb => by
      rw [beq_iff_eq.mp hb]; rfl]
    rfl
  · cases h

theorem bare_name {name : List UInt8} (h : name.all isTokenByte = true) :
    bare name = name.map lowerByte := by
  apply bare_eq_map
  intro b hb
  obtain ⟨hspace, htab, _⟩ := lowerByte_token (List.all_eq_true.mp h b hb)
  exact ⟨hspace, htab⟩

theorem bare_weight {weight : List UInt8} (h : isQvalue weight = true) :
    bare weight = weight := by
  have hbyte : ∀ b ∈ weight, lowerByte b = b ∧ b ≠ 0x20 ∧ b ≠ 0x09 := by
    intro b hb
    exact lowerByte_weight
      (List.all_eq_true.mp (isWeightByte_of_isQvalue h).2 b hb)
  rw [bare_eq_map]
  · conv_rhs => rw [← List.map_id weight]
    exact List.map_congr_left fun b hb => (hbyte b hb).1
  · intro b hb
    obtain ⟨hlower, hne⟩ := hbyte b hb
    rwa [hlower]

/-- The name ends where the weight starts. -/
theorem takeWhile_name {name : List UInt8} (h : name.all isTokenByte = true)
    (rest : List UInt8) :
    (name.map lowerByte ++ rest).takeWhile (· != 0x3b) =
        name.map lowerByte ++ rest.takeWhile (· != 0x3b) ∧
      (name.map lowerByte ++ rest).dropWhile (· != 0x3b) =
        rest.dropWhile (· != 0x3b) := by
  have hkeep : ∀ b ∈ name.map lowerByte, (b != 0x3b) = true := by
    intro b hb
    obtain ⟨a, ha, rfl⟩ := List.mem_map.mp hb
    rw [bne_iff_ne]
    exact (lowerByte_token (List.all_eq_true.mp h a ha)).2.2
  exact ⟨List.takeWhile_append_of_pos hkeep, List.dropWhile_append_of_pos hkeep⟩

/-- A part determines what the element it came from spells. -/
theorem readPart_squeeze {element : List UInt8} {entry : Option Entry}
    (h : Spells element entry) : readPart (squeeze element) = entry := by
  have hread : readPart (squeeze element) =
      if (bare element).isEmpty then none
      else some ⟨(bare element).takeWhile (· != 0x3b),
        !(((bare element).dropWhile (· != 0x3b)).drop 3).isEmpty &&
          isZero (((bare element).dropWhile (· != 0x3b)).drop 3)⟩ := rfl
  rw [hread]
  cases h with
  | blank hlead =>
      rw [bare_ows hlead]
      rfl
  | @coding lead name trail hlead hname htoken htrail =>
      have hbare : bare (lead ++ name ++ trail) = name.map lowerByte ++ [] := by
        rw [bare_append, bare_append, bare_ows hlead, bare_ows htrail,
          bare_name htoken]
        rfl
      obtain ⟨htake, hdrop⟩ := takeWhile_name htoken []
      rw [hbare, htake, hdrop]
      simp [hname]
  | @weighted lead name gap gap' weight trail q hlead hname htoken hgap hgap' hq
      hweight htrail =>
      have hmark : bare [q, 0x3d] = [0x71, 0x3d] := by
        rw [bare, squeeze, List.map_cons, hq]
        rfl
      have hbare : bare (lead ++ name ++ gap ++ [0x3b] ++ gap' ++ [q, 0x3d] ++
          weight ++ trail) =
            name.map lowerByte ++ 0x3b :: 0x71 :: 0x3d :: weight := by
        simp only [bare_append, bare_ows hlead, bare_ows hgap, bare_ows hgap',
          bare_ows htrail, bare_name htoken, bare_weight hweight, hmark,
          List.nil_append, List.append_nil, List.append_assoc]
        rfl
      obtain ⟨htake, hdrop⟩ :=
        takeWhile_name htoken (0x3b :: 0x71 :: 0x3d :: weight)
      rw [hbare, htake, hdrop]
      simp [hname, (isWeightByte_of_isQvalue hweight).1]

/-- The entries of a field, read back from its parts. -/
theorem reduceOption_eq_filterMap {entries : List (Option Entry)}
    (h : List.Forall₂ Spells (elements values) entries) :
    entries.reduceOption = (parts values).filterMap readPart := by
  have hread : ∀ (es : List (List UInt8)) (entries : List (Option Entry)),
      List.Forall₂ Spells es entries →
        entries.reduceOption =
          ((es.map squeeze).filter fun part => !part.isEmpty).filterMap
            readPart := by
    intro es entries hspells
    induction hspells with
    | nil => rfl
    | @cons element entry es entries hentry _ ih =>
        have hpart := readPart_squeeze hentry
        rw [List.map_cons]
        by_cases hempty : squeeze element = []
        · rw [List.filter_cons_of_neg (by simp [hempty]), ← ih]
          rw [hempty] at hpart
          rw [← hpart]
          exact List.reduceOption_cons_of_none _
        · rw [List.filter_cons_of_pos (by simp [hempty])]
          cases entry with
          | none =>
              rw [List.filterMap_cons_none hpart, ← ih]
              exact List.reduceOption_cons_of_none _
          | some entry =>
              rw [List.filterMap_cons_some hpart, ← ih]
              exact List.reduceOption_cons_of_some _ _
  exact hread _ _ h

/-- An empty list and the identity alone accept the same codings. -/
theorem acceptable_nil (coding : List UInt8) :
    acceptable (some []) coding =
      acceptable (some [⟨asciiBytes "identity".toList, false⟩]) coding := by
  by_cases hidentity : coding.map lowerByte = asciiBytes "identity".toList
  · simp only [acceptable, hidentity]
    decide
  · have hnamed : entriesFor (coding.map lowerByte)
        [⟨asciiBytes "identity".toList, false⟩] = [] := by
      rw [entriesFor, List.filter_eq_nil_iff]
      intro entry hentry
      rw [List.mem_singleton.mp hentry, beq_iff_eq]
      exact Ne.symm hidentity
    have hstarred : entriesFor (asciiBytes "*".toList)
        [⟨asciiBytes "identity".toList, false⟩] = [] := by decide
    simp only [acceptable, hnamed, hstarred]
    rfl

/-- What a field accepts is read from its canonical parts. -/
theorem acceptable_of_reads {entries : List Entry}
    (h : Reads values (some entries)) (coding : List UInt8) :
    acceptable (some entries) coding =
      acceptable (some ((canonicalParts values).filterMap readPart))
        coding := by
  cases h with
  | present hne h =>
      rw [reduceOption_eq_filterMap h, canonicalParts]
      split_ifs with hempty
      · rw [hempty]
        exact acceptable_nil coding
      · rfl

theorem Reads.eq_none_iff {field : Option (List Entry)}
    (h : Reads values field) : field = none ↔ values = [] := by
  cases h with
  | absent => simp
  | present hne _ => simp [hne]

/-- A present field with the parts of an absent one refuses a coding. -/
theorem eq_nil_of_acceptable {field : Option (List Entry)}
    (h : Reads values field)
    (hparts : canonicalParts values = canonicalParts [])
    (hgzip : acceptable field (asciiBytes "gzip".toList) = true) :
    values = [] := by
  cases field with
  | none => exact h.eq_none_iff.mp rfl
  | some entries =>
      have hrefused : acceptable
          (some ((canonicalParts []).filterMap readPart))
          (asciiBytes "gzip".toList) = false := by decide
      rw [acceptable_of_reads h, hparts, hrefused] at hgzip
      cases hgzip

/-- Two requests with one normalised field accept the same codings exactly
when both carry the field or neither does, as far as they follow the grammar:
the normalisation writes an absent field and an empty one alike. -/
theorem acceptable_respected_iff (req req' : RequestMetadata)
    (h : normalizeAcceptEncoding req = normalizeAcceptEncoding req') :
    (∀ field field', Reads (acceptEncoding req) field →
      Reads (acceptEncoding req') field' →
        ∀ coding, acceptable field coding = acceptable field' coding) ↔
    ((∃ field, Reads (acceptEncoding req) field) →
      (∃ field', Reads (acceptEncoding req') field') →
        (acceptEncoding req = [] ↔ acceptEncoding req' = [])) := by
  have hparts := canonicalParts_eq_of_normalizeAcceptEncoding_eq h
  constructor
  · rintro hagree ⟨field, hfield⟩ ⟨field', hfield'⟩
    have hgzip := hagree field field' hfield hfield'
      (asciiBytes "gzip".toList)
    constructor
    · intro hnil
      obtain rfl := hfield.eq_none_iff.mpr hnil
      rw [hnil] at hparts
      exact eq_nil_of_acceptable hfield' hparts.symm hgzip.symm
    · intro hnil
      obtain rfl := hfield'.eq_none_iff.mpr hnil
      rw [hnil] at hparts
      exact eq_nil_of_acceptable hfield hparts hgzip
  · intro hpresence field field' hfield hfield' coding
    have hnone : field = none ↔ field' = none := by
      rw [hfield.eq_none_iff, hfield'.eq_none_iff]
      exact hpresence ⟨field, hfield⟩ ⟨field', hfield'⟩
    cases field with
    | none => rw [hnone.mp rfl]
    | some entries =>
        cases field' with
        | none => cases hnone.mpr rfl
        | some entries' =>
            rw [acceptable_of_reads hfield, acceptable_of_reads hfield', hparts]

/-- A request with the given `Accept-Encoding` lines. -/
def requestWith (values : List HeaderValue) : RequestMetadata where
  method := .get
  host := "a.example".toList
  path := "/".toList
  query := none
  headers := values.map fun value => (Proxy.acceptEncoding, value)

theorem acceptEncoding_requestWith (values : List HeaderValue) :
    acceptEncoding (requestWith values) = values :=
  (HeaderMap.getAll_map _ values _).trans (if_pos (by decide))

/-- A coding with a weight, in two spellings. -/
theorem acceptable_respected_spellings :
    let value : HeaderValue := ⟨asciiBytes "br;q=0".toList, by decide⟩
    let value' : HeaderValue := ⟨asciiBytes "BR ; Q=0,".toList, by decide⟩
    normalizeAcceptEncoding (requestWith [value]) =
        normalizeAcceptEncoding (requestWith [value']) ∧
      ∀ field field', Reads [value] field → Reads [value'] field' →
        ∀ coding, acceptable field coding = acceptable field' coding := by
  intro value value'
  have hsame : normalizeAcceptEncoding (requestWith [value]) =
      normalizeAcceptEncoding (requestWith [value']) := by decide
  have hiff := acceptable_respected_iff _ _ hsame
  simp only [acceptEncoding_requestWith] at hiff
  exact ⟨hsame, hiff.mpr fun _ _ => by simp⟩

/-- A request without the field accepts `gzip`; one that asks for the identity
does not, and shares its entry. -/
theorem acceptable_absent_and_identity :
    let value : HeaderValue := ⟨asciiBytes "identity".toList, by decide⟩
    let identity : Entry := ⟨asciiBytes "identity".toList, false⟩
    normalizeAcceptEncoding (requestWith []) =
        normalizeAcceptEncoding (requestWith [value]) ∧
      Reads [] none ∧ Reads [value] (some [identity]) ∧
      acceptable none (asciiBytes "gzip".toList) = true ∧
      acceptable (some [identity]) (asciiBytes "gzip".toList) = false := by
  intro value identity
  have hspells : Spells ([] ++ asciiBytes "identity".toList ++ [])
      (some identity) :=
    Spells.coding rfl (by decide) (by decide) rfl
  have hentries : List.Forall₂ Spells (elements [value]) [some identity] :=
    List.Forall₂.cons hspells List.Forall₂.nil
  exact ⟨by decide, Reads.absent, Reads.present (List.cons_ne_nil _ _) hentries,
    rfl, by decide⟩

end ContentCoding

end Harmost.Cache
