import Harmost.Support.Framing

/-!
# Readers

A reader takes a value off the front of a text and leaves the rest.  Here are
the ones that a data format is put together from: literals, quoted text in
which characters may be escaped, lists in brackets, and decimal numbers; each
with the lemma that it reads back what was written.
-/

namespace Harmost.Support

abbrev Reader (α : Type) := Str → Option (α × Str)

/-! ## Literals -/

/-- What follows a literal. -/
def expect : Str → Str → Option Str
  | [], text => some text
  | c :: literal, d :: text => if c = d then expect literal text else none
  | _ :: _, [] => none

@[simp] theorem expect_append (literal text : Str) :
    expect literal (literal ++ text) = some text := by
  induction literal with
  | nil => rfl
  | cons c literal ih => rw [List.cons_append, expect, if_pos rfl, ih]

/-! ## Quoted text -/

/-- The characters up to the closing quote.  Each turn takes at least one
character of the text, so the length of the text is enough fuel. -/
def readQuotedWithin (readChar : Reader Char) : ℕ → Reader Str
  | 0, _ => none
  | _ + 1, [] => none
  | fuel + 1, c :: rest =>
      if c = '"' then some ([], rest)
      else
        (readChar (c :: rest)).bind fun (first, rest) =>
          (readQuotedWithin readChar fuel rest).map fun (text, rest) =>
            (first :: text, rest)

def readQuoted (readChar : Reader Char) (text : Str) : Option (Str × Str) :=
  readQuotedWithin readChar text.length text

/-- An encoding of characters that a reader of characters takes back. -/
structure Quotes (encode : Char → Str) (readChar : Reader Char) : Prop where
  read : ∀ c rest, readChar (encode c ++ rest) = some (c, rest)
  /-- It begins with no quote. -/
  head : ∀ c, ∃ first others, encode c = first :: others ∧ first ≠ '"'

section

variable {encode : Char → Str} {readChar : Reader Char}
  (h : Quotes encode readChar)
include h

theorem Quotes.readQuotedWithin (text rest : Str) {fuel : ℕ}
    (hfuel : text.length < fuel) :
    readQuotedWithin readChar fuel (text.flatMap encode ++ '"' :: rest) =
      some (text, rest) := by
  induction text generalizing fuel with
  | nil =>
      obtain ⟨fuel, rfl⟩ := Nat.exists_eq_succ_of_ne_zero (Nat.ne_of_gt hfuel)
      rw [List.flatMap_nil, List.nil_append, Support.readQuotedWithin,
        if_pos rfl]
  | cons c text ih =>
      obtain ⟨fuel, rfl⟩ :=
        Nat.exists_eq_succ_of_ne_zero (Nat.ne_of_gt (Nat.zero_lt_of_lt hfuel))
      obtain ⟨first, others, hencode, hne⟩ := h.head c
      have hread := h.read c (text.flatMap encode ++ '"' :: rest)
      rw [hencode, List.cons_append] at hread
      rw [List.flatMap_cons, hencode, List.append_assoc, List.cons_append,
        Support.readQuotedWithin, if_neg hne, hread]
      dsimp only [Option.bind_some]
      rw [ih (Nat.lt_of_succ_lt_succ hfuel)]
      rfl

theorem Quotes.length_le (text : Str) :
    text.length ≤ (text.flatMap encode).length := by
  induction text with
  | nil => exact Nat.zero_le _
  | cons c text ih =>
      obtain ⟨first, others, hencode, -⟩ := h.head c
      simp only [List.flatMap_cons, hencode, List.length_append,
        List.length_cons]
      omega

theorem Quotes.readQuoted (text rest : Str) :
    readQuoted readChar (text.flatMap encode ++ '"' :: rest) =
      some (text, rest) := by
  refine h.readQuotedWithin text rest ?_
  have hlength := h.length_le text
  simp only [List.length_append, List.length_cons]
  omega

end

/-! ## Lists in brackets -/

/-- The items of a list that is not empty, up to its closing bracket.  What may
stand around items is skipped. -/
def readItems {α : Type} (skip : Str → Str) (item : Reader α) (close : Char) :
    ℕ → Reader (List α)
  | 0, _ => none
  | fuel + 1, text =>
      (item text).bind fun (first, rest) =>
        match skip rest with
        | [] => none
        | c :: rest =>
            if c = close then some ([first], rest)
            else if c = ',' then
              (readItems skip item close fuel (skip rest)).map
                fun (others, rest) => (first :: others, rest)
            else none

def readList {α : Type} (skip : Str → Str) (item : Reader α) (close : Char)
    (text : Str) : Option (List α × Str) :=
  match skip text with
  | [] => none
  | c :: rest =>
      if c = close then some ([], rest)
      else readItems skip item close text.length (c :: rest)

/-- Items with a comma and something that is skipped between them. -/
def commaSeparated (blank : Str) : List Str → Str
  | [] => []
  | [item] => item
  | item :: next :: items =>
      item ++ ',' :: (blank ++ commaSeparated blank (next :: items))

/-- What a list is made of: values with their texts. -/
structure Lists {α : Type} (skip : Str → Str) (item : Reader α) (close : Char)
    (blank : Str) (entries : List (α × Str)) : Prop where
  close_ne : close ≠ ','
  read : ∀ entry ∈ entries, ∀ c rest, c = ',' ∨ c = close →
    item (entry.2 ++ c :: rest) = some (entry.1, c :: rest)
  head : ∀ entry ∈ entries, ∃ first others,
    entry.2 = first :: others ∧ first ≠ close
  skip_item : ∀ entry ∈ entries, ∀ rest,
    skip (entry.2 ++ rest) = entry.2 ++ rest
  skip_blank : ∀ text, skip (blank ++ text) = skip text
  skip_mark : ∀ c rest, c = ',' ∨ c = close → skip (c :: rest) = c :: rest

section Lists

variable {α : Type} {skip : Str → Str} {item : Reader α} {close : Char}
  {blank : Str} {entry : α × Str} {entries : List (α × Str)}

theorem Lists.tail (h : Lists skip item close blank (entry :: entries)) :
    Lists skip item close blank entries where
  close_ne := h.close_ne
  read := fun other hother => h.read other (List.mem_cons_of_mem _ hother)
  head := fun other hother => h.head other (List.mem_cons_of_mem _ hother)
  skip_item := fun other hother =>
    h.skip_item other (List.mem_cons_of_mem _ hother)
  skip_blank := h.skip_blank
  skip_mark := h.skip_mark

theorem exists_commaSeparated_eq (blank item : Str) (items : List Str) :
    ∃ others, commaSeparated blank (item :: items) = item ++ others := by
  cases items with
  | nil => exact ⟨[], (List.append_nil item).symm⟩
  | cons next items => exact ⟨_, rfl⟩

theorem Lists.skip_items (h : Lists skip item close blank (entry :: entries))
    (rest : Str) :
    skip (commaSeparated blank ((entry :: entries).map Prod.snd) ++ rest) =
      commaSeparated blank ((entry :: entries).map Prod.snd) ++ rest := by
  obtain ⟨others, hothers⟩ :=
    exists_commaSeparated_eq blank entry.2 (entries.map Prod.snd)
  rw [List.map_cons, hothers, List.append_assoc]
  exact h.skip_item entry List.mem_cons_self _

theorem Lists.readItems (h : Lists skip item close blank (entry :: entries))
    (rest : Str) {fuel : ℕ} (hfuel : entries.length < fuel) :
    readItems skip item close fuel
        (commaSeparated blank ((entry :: entries).map Prod.snd) ++
          close :: rest) =
      some ((entry :: entries).map Prod.fst, rest) := by
  induction entries generalizing entry fuel with
  | nil =>
      obtain ⟨fuel, rfl⟩ := Nat.exists_eq_succ_of_ne_zero (Nat.ne_of_gt hfuel)
      rw [List.map_singleton, commaSeparated, Support.readItems,
        h.read entry List.mem_cons_self close rest (.inr rfl)]
      dsimp only [Option.bind_some]
      rw [h.skip_mark close rest (.inr rfl)]
      exact if_pos rfl
  | cons next entries ih =>
      obtain ⟨fuel, rfl⟩ :=
        Nat.exists_eq_succ_of_ne_zero (Nat.ne_of_gt (Nat.zero_lt_of_lt hfuel))
      rw [List.map_cons, List.map_cons, commaSeparated, List.append_assoc,
        List.cons_append, List.append_assoc, Support.readItems,
        h.read entry List.mem_cons_self _ _ (.inl rfl)]
      dsimp only [Option.bind_some]
      rw [h.skip_mark ',' _ (.inl rfl)]
      dsimp only
      rw [if_neg h.close_ne.symm, if_pos rfl, h.skip_blank, ← List.map_cons,
        h.tail.skip_items, ih h.tail (Nat.lt_of_succ_lt_succ hfuel)]
      rfl

theorem Lists.length_le (h : Lists skip item close blank entries) :
    entries.length ≤ (commaSeparated blank (entries.map Prod.snd)).length := by
  induction entries with
  | nil => exact Nat.zero_le _
  | cons entry entries ih =>
      obtain ⟨first, others, hentry, -⟩ := h.head entry List.mem_cons_self
      have hrest := ih h.tail
      cases entries with
      | nil => simp [commaSeparated, hentry]
      | cons next entries =>
          simp only [List.map_cons, commaSeparated, List.length_append,
            List.length_cons] at hrest ⊢
          omega

/-- A list that was written is read back. -/
theorem Lists.readList (h : Lists skip item close blank entries) (rest : Str) :
    readList skip item close
        (commaSeparated blank (entries.map Prod.snd) ++ close :: rest) =
      some (entries.map Prod.fst, rest) := by
  cases entries with
  | nil =>
      rw [List.map_nil, commaSeparated, List.nil_append, Support.readList,
        h.skip_mark close rest (.inr rfl)]
      exact if_pos rfl
  | cons entry entries =>
      obtain ⟨first, others, hentry, hne⟩ := h.head entry List.mem_cons_self
      obtain ⟨others', hothers⟩ :=
        exists_commaSeparated_eq blank entry.2 (entries.map Prod.snd)
      have hlength := h.length_le
      have hfuel : entries.length <
          (commaSeparated blank ((entry :: entries).map Prod.snd) ++
            close :: rest).length := by
        simp only [List.length_append, List.length_cons] at hlength ⊢
        omega
      have hitems := h.readItems rest hfuel
      rw [Support.readList, h.skip_items]
      rw [List.map_cons, hothers, hentry] at hitems ⊢
      simp only [List.cons_append] at hitems ⊢
      rwa [if_neg hne]

end Lists

/-! ## Decimal numbers -/

/-- The digits at the front of a text. -/
def readDigits (text : Str) : Str × Str :=
  text.span Char.isDigit

/-- No digit comes first. -/
def NoDigit (rest : Str) : Prop :=
  ∀ c ∈ rest.head?, c.isDigit = false

theorem readDigits_append {digits rest : Str}
    (hdigits : ∀ c ∈ digits, c.isDigit = true) (hrest : NoDigit rest) :
    readDigits (digits ++ rest) = (digits, rest) := by
  rw [readDigits, List.span_eq_takeWhile_dropWhile]
  have hnone : rest.takeWhile Char.isDigit = [] ∧
      rest.dropWhile Char.isDigit = rest := by
    cases rest with
    | nil => exact ⟨rfl, rfl⟩
    | cons c rest =>
        have hc : c.isDigit = false := hrest c rfl
        simp [hc]
  rw [List.takeWhile_append_of_pos hdigits,
    List.dropWhile_append_of_pos hdigits, hnone.1, hnone.2, List.append_nil]

/-- The number that digits stand for. -/
def digitsValue (digits : Str) : ℕ :=
  Nat.ofDigitChars 10 digits 0

@[simp] theorem digitsValue_decimal (n : ℕ) : digitsValue (decimal n) = n :=
  Nat.ofDigitChars_toDigits (by decide) (by decide)

/-- A decimal number has no leading zero. -/
theorem eq_zero_of_decimal {n : ℕ} {others : Str}
    (h : decimal n = '0' :: others) : n = 0 := by
  induction n using Nat.strongRecOn generalizing others with
  | ind n ih =>
      rcases Nat.lt_or_ge n 10 with hlt | hge
      · rw [decimal, Nat.toDigits_of_lt_base hlt, List.cons.injEq] at h
        exact Nat.digitChar_eq_zero.mp h.1
      · obtain ⟨first, rest, hfront⟩ :=
          List.exists_cons_of_ne_nil (decimal_ne_nil (n / 10))
        have hdiv : n / 10 < n := by omega
        rw [decimal, Nat.toDigits_of_base_le (by decide) hge, ← decimal, hfront,
          List.cons_append, List.cons.injEq] at h
        have hzero := ih (n / 10) hdiv (hfront.trans (by rw [h.1]))
        omega

theorem decimal_eq_cons (n : ℕ) : ∃ first others,
    decimal n = first :: others ∧ first.isDigit = true ∧
      (first = '0' → others = []) := by
  obtain ⟨first, others, hdecimal⟩ :=
    List.exists_cons_of_ne_nil (decimal_ne_nil n)
  refine ⟨first, others, hdecimal, ?_, ?_⟩
  · have hmem : first ∈ decimal n := hdecimal ▸ List.mem_cons_self
    exact isDigit_of_mem_decimal hmem
  · rintro rfl
    obtain rfl := eq_zero_of_decimal hdecimal
    exact (List.cons.inj hdecimal).2.symm

end Harmost.Support
