import Mathlib.Algebra.GroupWithZero.Nat
import Mathlib.Data.List.DropRight
import Mathlib.Data.List.TakeDrop

/-!
# Text as a sequence of Unicode scalar values

Rust's `str` and the operations of its standard library that the proxy reads
headers, queries and hosts with: splitting at a separator, trimming, ASCII case
folding, joining.  A text is the list of its characters; its length in bytes is
the length of its UTF-8 encoding.

The lemmas relate these operations to texts that were produced character by
character from something else, which is how an escaped header value arises.
-/

namespace Harmost.Support

/-- A text, as the list of its characters. -/
abbrev Str := List Char

/-- The length in bytes of the UTF-8 encoding. -/
def byteLen (s : Str) : ℕ :=
  (s.map Char.utf8Size).sum

/-- The Unicode `White_Space` property. -/
def isWhitespace (c : Char) : Bool :=
  (0x09 ≤ c.toNat && c.toNat ≤ 0x0d) || c.toNat == 0x20 ||
    c.toNat == 0x85 || c.toNat == 0xa0 || c.toNat == 0x1680 ||
    (0x2000 ≤ c.toNat && c.toNat ≤ 0x200a) ||
    c.toNat == 0x2028 || c.toNat == 0x2029 || c.toNat == 0x202f ||
    c.toNat == 0x205f || c.toNat == 0x3000

/-- Strip the symbols satisfying `p` from both ends. -/
def trimMatches {α : Type*} (p : α → Bool) (s : List α) : List α :=
  (s.dropWhile p).rdropWhile p

/-- `str::trim`. -/
def trim (s : Str) : Str :=
  trimMatches isWhitespace s

/-- `str::to_ascii_lowercase`. -/
def toAsciiLowercase (s : Str) : Str :=
  s.map Char.toLower

/-- `str::to_ascii_uppercase`. -/
def toAsciiUppercase (s : Str) : Str :=
  s.map Char.toUpper

/-- `str::eq_ignore_ascii_case`. -/
def eqIgnoreAsciiCase (s t : Str) : Bool :=
  toAsciiLowercase s == toAsciiLowercase t

/-- `str::split_once` at a character. -/
def splitOnce (sep : Char) : Str → Option (Str × Str)
  | [] => none
  | c :: rest =>
      if c = sep then some ([], rest)
      else (splitOnce sep rest).map fun pair => (c :: pair.1, pair.2)

/-- `[str]::join` with a one-character separator. -/
def join (sep : Char) (parts : List Str) : Str :=
  [sep].intercalate parts

/-! ## Joining and splitting -/

theorem join_cons_cons (sep : Char) (part next : Str) (parts : List Str) :
    join sep (part :: next :: parts) =
      part ++ sep :: join sep (next :: parts) := by
  simp [join, List.intercalate]

@[simp] theorem join_singleton (sep : Char) (part : Str) :
    join sep [part] = part := by
  simp [join]

/-- A joined text splits into the pieces of its parts, in order. -/
theorem splitOn_join (sep : Char) {parts : List Str} (hne : parts ≠ []) :
    (join sep parts).splitOn sep =
      parts.flatMap fun part => part.splitOn sep := by
  induction parts with
  | nil => exact (hne rfl).elim
  | cons part parts ih =>
      cases parts with
      | nil => simp
      | cons next parts =>
          rw [join_cons_cons, List.splitOn_append_cons_self,
            ih (List.cons_ne_nil _ _)]
          rfl

/-- Joining loses nothing when no part contains the separator. -/
theorem join_injOn (sep : Char) {parts parts' : List Str}
    (hparts : ∀ part ∈ parts, sep ∉ part)
    (hparts' : ∀ part ∈ parts', sep ∉ part)
    (hne : parts ≠ []) (hne' : parts' ≠ [])
    (h : join sep parts = join sep parts') : parts = parts' := by
  rw [← List.splitOn_intercalate sep hparts hne,
    ← List.splitOn_intercalate sep hparts' hne']
  exact congrArg (List.splitOn sep) h

/-- Text free of the separator goes in front of the first piece. -/
theorem splitOn_append_of_notMem {α : Type*} [DecidableEq α] {sep : α}
    {front : List α} (hfront : sep ∉ front) (rest : List α) :
    (front ++ rest).splitOn sep =
      (rest.splitOn sep).modifyHead (front ++ ·) := by
  induction front with
  | nil =>
      rw [List.nil_append]
      cases rest.splitOn sep with
      | nil => rfl
      | cons piece pieces => rfl
  | cons x front ih =>
      have hx : x ≠ sep := fun h => hfront (by simp [h])
      have hrest : sep ∉ front := fun h => hfront (by simp [h])
      rw [List.cons_append, List.splitOn_cons_eq_if_modifyHead,
        if_neg (by simpa using hx),
        ih hrest, List.modifyHead_modifyHead]
      rfl

/-- A piece of a longer list is one of the rest, or begins with what is in
front of it. -/
theorem mem_splitOn_cons {α : Type*} [DecidableEq α] {sep x : α}
    {s piece : List α} (h : piece ∈ (x :: s).splitOn sep) :
    piece = [] ∨ piece ∈ s.splitOn sep ∨
      x ≠ sep ∧ ∃ first ∈ s.splitOn sep, piece = x :: first := by
  rw [List.splitOn_cons_eq_if_modifyHead] at h
  split at h
  next => exact (List.mem_cons.mp h).imp_right .inl
  next hx =>
    cases hpieces : s.splitOn sep with
    | nil => exact (List.splitOn_ne_nil sep s hpieces).elim
    | cons first rest =>
        rw [hpieces, List.modifyHead_cons, List.mem_cons] at h
        rcases h with rfl | hrest
        · refine .inr (.inr ⟨?_, first, List.mem_cons_self, rfl⟩)
          rintro rfl
          simp at hx
        · exact .inr (.inl (List.mem_cons_of_mem first hrest))

/-- No piece contains the separator. -/
theorem notMem_of_mem_splitOn {α : Type*} [DecidableEq α] {sep : α}
    {s piece : List α} (h : piece ∈ s.splitOn sep) : sep ∉ piece := by
  induction s generalizing piece with
  | nil =>
      obtain rfl : piece = [] := by simpa using h
      exact List.not_mem_nil
  | cons x s ih =>
      rcases mem_splitOn_cons h with rfl | hrest | ⟨hx, first, hfirst, rfl⟩
      · exact List.not_mem_nil
      · exact ih hrest
      · exact fun hsep => (List.mem_cons.mp hsep).elim (Ne.symm hx) (ih hfirst)

/-- A piece holds nothing but what was split. -/
theorem mem_of_mem_splitOn {α : Type*} [DecidableEq α] {sep : α}
    {s piece : List α} (h : piece ∈ s.splitOn sep) {x : α} (hx : x ∈ piece) :
    x ∈ s := by
  induction s generalizing piece with
  | nil =>
      obtain rfl : piece = [] := by simpa using h
      exact hx
  | cons y s ih =>
      rcases mem_splitOn_cons h with rfl | hrest | ⟨-, first, hfirst, rfl⟩
      · exact (List.not_mem_nil hx).elim
      · exact List.mem_cons_of_mem y (ih hrest hx)
      · exact (List.mem_cons.mp hx).elim (fun heq => heq ▸ List.mem_cons_self)
          fun hmem => List.mem_cons_of_mem y (ih hfirst hmem)

/-- `splitOnce` cuts at the first separator. -/
theorem splitOnce_eq (sep : Char) (s : Str) :
    splitOnce sep s =
      if sep ∈ s then
        some (s.takeWhile (· != sep), (s.dropWhile (· != sep)).tail)
      else none := by
  induction s with
  | nil => simp [splitOnce]
  | cons c rest ih =>
      by_cases hc : c = sep
      · subst c
        simp [splitOnce]
      · by_cases hmem : sep ∈ rest
        · simp [splitOnce, hc, ih, hmem]
        · simp [splitOnce, hc, ih, hmem, Ne.symm hc]

theorem splitOnce_append_cons {sep : Char} {front : Str} (h : sep ∉ front)
    (rest : Str) :
    splitOnce sep (front ++ sep :: rest) = some (front, rest) := by
  induction front with
  | nil => simp [splitOnce]
  | cons c front ih =>
      have hc : c ≠ sep := fun heq => h (by simp [heq])
      have hrest : sep ∉ front := fun hmem => h (by simp [hmem])
      simp [splitOnce, hc, ih hrest]

/-- Splitting once and writing the parts again changes nothing, and the cut is
at the first separator. -/
theorem splitOnce_eq_some {sep : Char} {s front rest : Str}
    (h : splitOnce sep s = some (front, rest)) :
    s = front ++ sep :: rest ∧ sep ∉ front := by
  induction s generalizing front with
  | nil => cases h
  | cons c s ih =>
      rw [splitOnce] at h
      split at h
      next hc =>
        cases h
        exact ⟨by rw [hc, List.nil_append], List.not_mem_nil⟩
      next hc =>
        obtain ⟨⟨front', rest'⟩, hsplit, hpair⟩ := Option.map_eq_some_iff.mp h
        obtain ⟨rfl, rfl⟩ := Prod.mk.inj hpair
        obtain ⟨rfl, hfront⟩ := ih hsplit
        exact ⟨rfl, List.not_mem_cons_of_ne_of_not_mem (Ne.symm hc) hfront⟩

theorem mem_join {c sep : Char} {parts : List Str} (h : c ∈ join sep parts) :
    c = sep ∨ ∃ part ∈ parts, c ∈ part := by
  induction parts with
  | nil => cases h
  | cons part parts ih =>
      cases parts with
      | nil =>
          rw [join_singleton] at h
          exact .inr ⟨part, List.mem_cons_self, h⟩
      | cons next parts =>
          rw [join_cons_cons] at h
          rcases List.mem_append.mp h with hpart | hrest
          · exact .inr ⟨part, List.mem_cons_self, hpart⟩
          · rcases List.mem_cons.mp hrest with hsep | hlater
            · exact .inl hsep
            · exact (ih hlater).imp_right fun ⟨found, hfound, hmem⟩ =>
                ⟨found, List.mem_cons_of_mem _ hfound, hmem⟩

/-! ## Case folding and trimming -/

theorem toLower_of_not_upper {c : Char}
    (h : ¬(c.val ≥ 'A'.val ∧ c.val ≤ 'Z'.val)) : c.toLower = c :=
  dif_neg h

theorem val_toLower_of_upper {c : Char}
    (h : c.val ≥ 'A'.val ∧ c.val ≤ 'Z'.val) :
    c.toLower.val = c.val + ('a'.val - 'A'.val) :=
  congrArg Char.val (dif_pos h)

theorem toLower_toLower (c : Char) : c.toLower.toLower = c.toLower := by
  by_cases h : c.val ≥ 'A'.val ∧ c.val ≤ 'Z'.val
  · apply toLower_of_not_upper
    rw [val_toLower_of_upper h]
    simp only [ge_iff_le, UInt32.le_iff_toNat_le] at h ⊢
    have hA : 'A'.val.toNat = 65 := rfl
    have hZ : 'Z'.val.toNat = 90 := rfl
    have hshift : ('a'.val - 'A'.val).toNat = 32 := rfl
    rw [UInt32.toNat_add, hshift]
    omega
  · rw [toLower_of_not_upper h, toLower_of_not_upper h]

@[simp] theorem toAsciiLowercase_toAsciiLowercase (s : Str) :
    toAsciiLowercase (toAsciiLowercase s) = toAsciiLowercase s := by
  rw [toAsciiLowercase, toAsciiLowercase, List.map_map]
  exact List.map_congr_left fun c _ => toLower_toLower c

theorem trimMatches_trimMatches {α : Type*} (p : α → Bool) (s : List α) :
    trimMatches p (trimMatches p s) = trimMatches p s := by
  have hhead : (trimMatches p s).dropWhile p = trimMatches p s := by
    unfold trimMatches
    have hprefix := List.rdropWhile_prefix p (s.dropWhile p)
    cases hkept : (s.dropWhile p).rdropWhile p with
    | nil => rfl
    | cons c rest =>
        rw [hkept] at hprefix
        obtain ⟨suffix, hsuffix⟩ := hprefix
        have hc : p c = false := by
          have := List.head?_dropWhile_not p s
          rw [← hsuffix] at this
          simpa using this
        exact List.dropWhile_cons_of_neg (by simp [hc])
  calc
    trimMatches p (trimMatches p s) =
        (trimMatches p s).rdropWhile p := by
      rw [trimMatches, hhead]
    _ = trimMatches p s := List.rdropWhile_idempotent p _

theorem isAlpha_iff_toNat {c : Char} :
    c.isAlpha = true ↔ 65 ≤ c.toNat ∧ c.toNat ≤ 90 ∨
      97 ≤ c.toNat ∧ c.toNat ≤ 122 := by
  have hranges : c.isAlpha =
      (decide (c.val ≥ 'A'.val ∧ c.val ≤ 'Z'.val) ||
        decide (c.val ≥ 'a'.val) && decide (c.val ≤ 'z'.val)) := rfl
  rw [hranges]
  simp only [Bool.or_eq_true, Bool.and_eq_true, decide_eq_true_eq]
  exact Iff.rfl

/-- No visible ASCII character is white space. -/
theorem isWhitespace_eq_false_of_graphic {c : Char} (hlow : 0x21 ≤ c.toNat)
    (hhigh : c.toNat ≤ 0x7e) : isWhitespace c = false := by
  simp only [isWhitespace, Bool.or_eq_false_iff, Bool.and_eq_false_iff,
    decide_eq_false_iff_not, beq_eq_false_iff_ne]
  omega

theorem isAlpha_eq_false_of_isDigit {c : Char} (h : c.isDigit = true) :
    c.isAlpha = false := by
  obtain ⟨-, hhigh⟩ := Char.isDigit_iff_toNat.mp h
  have hnine : '9'.toNat = 57 := rfl
  rw [← Bool.not_eq_true, isAlpha_iff_toNat]
  omega

theorem trim_eq_self {s : Str} (h : ∀ c ∈ s, isWhitespace c = false) :
    trim s = s := by
  have hfront : s.dropWhile isWhitespace = s := by
    rcases s with _ | ⟨c, rest⟩
    · rfl
    · exact List.dropWhile_cons_of_neg (by simp [h c List.mem_cons_self])
  rw [trim, trimMatches, hfront, List.rdropWhile_eq_self_iff]
  intro hne
  simp [h _ (List.getLast_mem hne)]

theorem mem_dropWhile {α : Type*} {s : List α} {p : α → Bool} {c : α}
    (hc : c ∈ s) (hp : p c = false) : c ∈ s.dropWhile p := by
  rw [← List.takeWhile_append_dropWhile (p := p) (l := s),
    List.mem_append] at hc
  rcases hc with hc | hc
  · exact absurd (List.mem_takeWhile_imp hc) (by simp [hp])
  · exact hc

theorem mem_trim {s : Str} {c : Char} (hc : c ∈ s) :
    isWhitespace c = true ∨ c ∈ trim s := by
  rcases hspace : isWhitespace c with _ | _
  · have hreversed := List.mem_reverse.mpr (mem_dropWhile hc hspace)
    exact .inr (List.mem_reverse.mpr (mem_dropWhile hreversed hspace))
  · exact .inl rfl

/-- Dropping from the end stops at a symbol that stays. -/
theorem rdropWhile_append_cons {α : Type*} {p : α → Bool} {c : α}
    (hc : p c = false) (front rest : List α) :
    (front ++ c :: rest).rdropWhile p = front ++ c :: rest.rdropWhile p := by
  induction rest using List.reverseRecOn with
  | nil =>
      rw [List.rdropWhile_nil]
      exact List.rdropWhile_concat_neg p front c (by simp [hc])
  | append_singleton rest x ih =>
      rw [← List.cons_append, ← List.append_assoc]
      by_cases hx : p x = true
      · rw [List.rdropWhile_concat_pos _ _ _ hx, ih,
          List.rdropWhile_concat_pos _ _ _ hx]
      · rw [List.rdropWhile_concat_neg _ _ _ hx,
          List.rdropWhile_concat_neg _ _ _ hx, List.append_assoc,
          List.cons_append]

theorem dropWhile_congr {α : Type*} {p q : α → Bool} {s : List α}
    (h : ∀ a ∈ s, p a = q a) : s.dropWhile p = s.dropWhile q := by
  induction s with
  | nil => rfl
  | cons a s ih =>
      rw [List.forall_mem_cons] at h
      rw [List.dropWhile_cons, List.dropWhile_cons, h.1, ih h.2]

/-- Trimming only asks about the symbols that are there. -/
theorem trimMatches_congr {α : Type*} {p q : α → Bool} {s : List α}
    (h : ∀ a ∈ s, p a = q a) : trimMatches p s = trimMatches q s := by
  have hrest : ∀ a ∈ (s.dropWhile q).reverse, p a = q a := by
    intro a ha
    exact h a ((List.dropWhile_suffix q).subset (List.mem_reverse.mp ha))
  rw [trimMatches, trimMatches, dropWhile_congr h, List.rdropWhile,
    List.rdropWhile, dropWhile_congr hrest]

theorem trimMatches_map {α β : Type*} (p : β → Bool) (f : α → β)
    (s : List α) : trimMatches p (s.map f) = (trimMatches (p ∘ f) s).map f := by
  rw [trimMatches, trimMatches, List.dropWhile_map, List.rdropWhile,
    List.rdropWhile, ← List.map_reverse, List.dropWhile_map, List.map_reverse]

/-- What is trimmed away stood at the ends. -/
theorem exists_eq_append_trimMatches {α : Type*} (p : α → Bool) (s : List α) :
    ∃ front back, s = front ++ (trimMatches p s ++ back) ∧
      (∀ a ∈ front, p a = true) ∧ ∀ a ∈ back, p a = true := by
  refine ⟨s.takeWhile p, (s.dropWhile p).rtakeWhile p, ?_, ?_, ?_⟩
  · rw [trimMatches, List.rdropWhile_append_rtakeWhile,
      List.takeWhile_append_dropWhile]
  · intro a ha
    exact List.mem_takeWhile_imp ha
  · intro a ha
    exact List.mem_rtakeWhile_imp ha

/-- Padding is trimmed away, and nothing else. -/
theorem trimMatches_pad {α : Type*} {p : α → Bool} {front kept back : List α}
    (hfront : ∀ a ∈ front, p a = true) (hkept : ∀ a ∈ kept, p a = false)
    (hback : ∀ a ∈ back, p a = true) :
    trimMatches p (front ++ (kept ++ back)) = kept := by
  rw [trimMatches, List.dropWhile_append_of_pos hfront]
  cases kept using List.reverseRecOn with
  | nil =>
      rw [List.nil_append, List.dropWhile_eq_nil_iff.mpr hback,
        List.rdropWhile_nil]
  | append_singleton kept last =>
      have hlast : p last = false := hkept last (by simp)
      have hhead : ((kept ++ [last]) ++ back).dropWhile p =
          (kept ++ [last]) ++ back := by
        cases kept with
        | nil => exact List.dropWhile_cons_of_neg (by simp [hlast])
        | cons a kept =>
            exact List.dropWhile_cons_of_neg (by simp [hkept a (by simp)])
      rw [hhead, List.append_assoc, List.singleton_append,
        rdropWhile_append_cons hlast, List.rdropWhile_eq_nil_iff.mpr hback]

/-! ## Texts written out -/

theorem all_toList_ofList {p : Char → Bool} (text : Str)
    (h : text.all p = true) : (String.ofList text).toList.all p = true := by
  rwa [String.toList_ofList]

/-! ## Texts produced piece by piece

Here `f` writes one piece of text for every symbol of some other alphabet. -/

section FlatMap

variable {α : Type*} {f : α → Str}

/-- Splitting the produced text is splitting the original, when exactly one
symbol writes the separator. -/
theorem splitOn_flatMap [DecidableEq α] {a : α} {sep : Char}
    (hsep : f a = [sep])
    (hother : ∀ x, x ≠ a → sep ∉ f x) (xs : List α) :
    (xs.flatMap f).splitOn sep =
      (xs.splitOn a).map fun piece => piece.flatMap f := by
  induction xs with
  | nil => simp
  | cons x xs ih =>
      rw [List.flatMap_cons, List.splitOn_cons_eq_if_modifyHead]
      by_cases hx : x = a
      · subst x
        rw [hsep, List.singleton_append, List.splitOn_cons_eq_if_modifyHead]
        simp [ih]
      · rw [splitOn_append_of_notMem (hother x hx), ih,
          if_neg (by simpa using hx)]
        cases hpieces : xs.splitOn a with
        | nil => exact (List.splitOn_ne_nil a xs hpieces).elim
        | cons piece pieces => simp

/-- Dropping leading characters of the produced text drops leading symbols. -/
theorem dropWhile_flatMap {p : Char → Bool} {q : α → Bool}
    (hdrop : ∀ x, q x = true → ∀ c ∈ f x, p c = true)
    (hstop : ∀ x, q x = false → ∃ c rest, f x = c :: rest ∧ p c = false)
    (xs : List α) :
    (xs.flatMap f).dropWhile p = (xs.dropWhile q).flatMap f := by
  induction xs with
  | nil => simp
  | cons x xs ih =>
      rw [List.flatMap_cons]
      cases hq : q x with
      | true =>
          rw [List.dropWhile_append_of_pos (hdrop x hq), ih,
            List.dropWhile_cons_of_pos hq]
      | false =>
          obtain ⟨c, rest, hfx, hc⟩ := hstop x hq
          rw [List.dropWhile_cons_of_neg (by simp [hq]), List.flatMap_cons, hfx,
            List.cons_append, List.dropWhile_cons_of_neg (by simp [hc])]

/-- Dropping trailing characters of the produced text drops trailing
symbols. -/
theorem rdropWhile_flatMap {p : Char → Bool} {q : α → Bool}
    (hdrop : ∀ x, q x = true → ∀ c ∈ f x, p c = true)
    (hstop : ∀ x, q x = false → ∃ front c, f x = front ++ [c] ∧ p c = false)
    (xs : List α) :
    (xs.flatMap f).rdropWhile p = (xs.rdropWhile q).flatMap f := by
  have hrev : ∀ ys : List α,
      (ys.flatMap f).reverse = ys.reverse.flatMap fun x => (f x).reverse := by
    intro ys
    rw [List.reverse_flatMap]
    rfl
  have hrev' : ∀ ys : List α,
      (ys.flatMap fun x => (f x).reverse).reverse = ys.reverse.flatMap f := by
    intro ys
    rw [List.reverse_flatMap]
    simp [Function.comp_def]
  unfold List.rdropWhile
  rw [hrev, dropWhile_flatMap (q := q), hrev']
  · intro x hx c hc
    exact hdrop x hx c (by simpa using hc)
  · intro x hx
    obtain ⟨front, c, hfx, hc⟩ := hstop x hx
    exact ⟨c, front.reverse, by simp [hfx], hc⟩

/-- Trimming the produced text trims the original. -/
theorem trimMatches_flatMap {p : Char → Bool} {q : α → Bool}
    (hdrop : ∀ x, q x = true → ∀ c ∈ f x, p c = true)
    (hhead : ∀ x, q x = false → ∃ c rest, f x = c :: rest ∧ p c = false)
    (hlast : ∀ x, q x = false → ∃ front c, f x = front ++ [c] ∧ p c = false)
    (xs : List α) :
    trimMatches p (xs.flatMap f) = (trimMatches q xs).flatMap f := by
  unfold trimMatches
  rw [dropWhile_flatMap hdrop hhead, rdropWhile_flatMap hdrop hlast]

/-- Keeping leading characters of the produced text keeps leading symbols. -/
theorem takeWhile_flatMap {p : Char → Bool} {q : α → Bool}
    (hkeep : ∀ x, q x = true → ∀ c ∈ f x, p c = true)
    (hstop : ∀ x, q x = false → ∃ c rest, f x = c :: rest ∧ p c = false)
    (xs : List α) :
    (xs.flatMap f).takeWhile p = (xs.takeWhile q).flatMap f := by
  induction xs with
  | nil => simp
  | cons x xs ih =>
      rw [List.flatMap_cons]
      cases hq : q x with
      | true =>
          rw [List.takeWhile_append_of_pos (hkeep x hq), ih,
            List.takeWhile_cons_of_pos hq, List.flatMap_cons]
      | false =>
          obtain ⟨c, rest, hfx, hc⟩ := hstop x hq
          rw [List.takeWhile_cons_of_neg (by simp [hq]), hfx, List.cons_append,
            List.takeWhile_cons_of_neg (by simp [hc])]
          rfl

end FlatMap

/-! ## Numbers -/

/-- The value of a hexadecimal digit of either case. -/
def hexDigit (c : Char) : Option ℕ :=
  if '0' ≤ c ∧ c ≤ '9' then some (c.toNat - '0'.toNat)
  else if 'a' ≤ c ∧ c ≤ 'f' then some (c.toNat - 'a'.toNat + 10)
  else if 'A' ≤ c ∧ c ≤ 'F' then some (c.toNat - 'A'.toNat + 10)
  else none

theorem hexDigit_digitChar : ∀ n < 16, hexDigit (Nat.digitChar n) = some n := by
  decide

/-- `str::parse` of an unsigned integer of some width: an optional sign, then
decimal digits. -/
def parseUnsigned (bits : ℕ) (s : Str) : Option ℕ :=
  let digits := if s.head? = some '+' then s.tail else s
  if digits.isEmpty || !digits.all Char.isDigit then none
  else
    let n := Nat.ofDigitChars 10 digits 0
    if n < 2 ^ bits then some n else none

theorem parseUnsigned_lt {bits n : ℕ} {s : Str}
    (h : parseUnsigned bits s = some n) : n < 2 ^ bits := by
  simp only [parseUnsigned] at h
  generalize (if s.head? = some '+' then s.tail else s) = digits at h
  split_ifs at h with _ hfits
  cases h
  exact hfits

theorem parseUnsigned_of_digits {bits : ℕ} {digits : Str} (hne : digits ≠ [])
    (hdigits : ∀ c ∈ digits, c.isDigit = true) :
    parseUnsigned bits digits =
      if Nat.ofDigitChars 10 digits 0 < 2 ^ bits then
        some (Nat.ofDigitChars 10 digits 0)
      else none := by
  have hsign : digits.head? ≠ some '+' := by
    intro hhead
    exact absurd (hdigits '+' (List.mem_of_head? hhead)) (by decide)
  simp only [parseUnsigned, if_neg hsign]
  rw [if_neg]
  simpa [hne] using hdigits

theorem mem_of_parseUnsigned {bits n : ℕ} {s : Str}
    (h : parseUnsigned bits s = some n) :
    ∀ c ∈ s, c = '+' ∨ c.isDigit = true := by
  simp only [parseUnsigned] at h
  intro c hc
  by_cases hsign : s.head? = some '+'
  · obtain ⟨rest, rfl⟩ := List.head?_eq_some_iff.mp hsign
    rw [if_pos hsign] at h
    split_ifs at h with hbad
    simp only [List.tail_cons, Bool.or_eq_true, Bool.not_eq_true',
      not_or, Bool.not_eq_false, List.all_eq_true] at hbad
    exact (List.mem_cons.mp hc).imp_right (hbad.2 c)
  · rw [if_neg hsign] at h
    split_ifs at h with hbad
    simp only [Bool.or_eq_true, Bool.not_eq_true', not_or, Bool.not_eq_false,
      List.all_eq_true] at hbad
    exact .inr (hbad.2 c hc)

/-! ## Control characters -/

/-- There is no control character, and so no line break, in a text. -/
def Printable (text : Str) : Prop :=
  (text.all fun c => decide (0x20 ≤ c.toNat)) = true

instance (text : Str) : Decidable (Printable text) :=
  inferInstanceAs (Decidable (_ = true))

theorem printable_iff {text : Str} :
    Printable text ↔ ∀ c ∈ text, 0x20 ≤ c.toNat := by
  simp [Printable]

theorem printable_cons {c : Char} {text : Str} :
    Printable (c :: text) ↔ 0x20 ≤ c.toNat ∧ Printable text := by
  simp [Printable]

theorem printable_append {text text' : Str} :
    Printable (text ++ text') ↔ Printable text ∧ Printable text' := by
  simp [Printable]

theorem Printable.ne_lineBreak {text : Str} (h : Printable text) :
    ∀ c ∈ text, c ≠ '\r' ∧ c ≠ '\n' := by
  intro c hc
  have hle := printable_iff.mp h c hc
  constructor
  all_goals
    rintro rfl
    exact absurd hle (by decide)

end Harmost.Support
