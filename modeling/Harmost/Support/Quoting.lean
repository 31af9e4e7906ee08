import Harmost.Support.Text

/-!
# Scanning text with quotes

A scanner that walks over a line and stops at a separator has to know whether
it is inside a quoted string.  Double quotes know an escape, single quotes do
not, and inside one kind of quote the other is a character like any other.

A text is clear if the scanner stops nowhere in it and is outside of quotes
after it.  Clear texts compose, and a string between double quotes is clear
whatever it contains, if its quotes and backslashes are escaped.
-/

namespace Harmost.Support

/-- Where a scanner is. -/
structure Quoting where
  quote : Option Char := none
  escaped : Bool := false
  deriving DecidableEq

namespace Quoting

/-- Does a character open or close a quoted string? -/
def isQuote (c : Char) : Bool :=
  c == '"' || c == '\''

def next (q : Quoting) (c : Char) : Quoting :=
  if q.escaped then { q with escaped := false }
  else if q.quote = some '"' ∧ c = '\\' then { q with escaped := true }
  else if isQuote c then
    { q with quote := if q.quote = some c then none else q.quote.or (some c) }
  else q

/-- Is a character outside of quotes, and none itself? -/
def bare (q : Quoting) (c : Char) : Bool :=
  !q.escaped && q.quote.isNone && !isQuote c

/-- Where a scanner is after a text. -/
def scan (q : Quoting) (text : Str) : Quoting :=
  text.foldl next q

/-- Cut a text at the first bare character to stop at, which may depend on the
character before it. -/
def cut (stop : Option Char → Char → Bool) (q : Quoting)
    (before : Option Char) : Str → Str × Option Str
  | [] => ([], none)
  | c :: rest =>
      if q.bare c && stop before c then ([], some rest)
      else
        (c :: (cut stop (q.next c) (some c) rest).1,
          (cut stop (q.next c) (some c) rest).2)

variable {stop : Option Char → Char → Bool} {q : Quoting}
  {before : Option Char} {text rest : Str} {c : Char}

@[simp] theorem scan_nil (q : Quoting) : q.scan [] = q :=
  rfl

@[simp] theorem scan_cons (q : Quoting) (c : Char) (text : Str) :
    q.scan (c :: text) = (q.next c).scan text :=
  rfl

theorem scan_append (q : Quoting) (text rest : Str) :
    q.scan (text ++ rest) = (q.scan text).scan rest :=
  List.foldl_append

/-- The scanner does not stop within a text. -/
def Passes (stop : Option Char → Char → Bool) (q : Quoting)
    (before : Option Char) (text : Str) : Prop :=
  (cut stop q before text).2 = none

theorem passes_cons :
    Passes stop q before (c :: text) ↔
      (q.bare c && stop before c) = false ∧
        Passes stop (q.next c) (some c) text := by
  unfold Passes
  rw [cut]
  split
  · rename_i hstop
    simp [hstop]
  · rename_i hgo
    simp [Bool.eq_false_iff.mpr hgo]

/-- The character before what follows a text. -/
def lastOf (before : Option Char) (text : Str) : Option Char :=
  text.getLast?.or before

theorem lastOf_cons (before : Option Char) (c : Char) (text : Str) :
    lastOf before (c :: text) = lastOf (some c) text := by
  rw [lastOf, lastOf, List.getLast?_cons]
  cases text.getLast? <;> rfl

theorem cut_append (h : Passes stop q before text) (rest : Str) :
    cut stop q before (text ++ rest) =
      (text ++ (cut stop (q.scan text) (lastOf before text) rest).1,
        (cut stop (q.scan text) (lastOf before text) rest).2) := by
  induction text generalizing q before with
  | nil => rfl
  | cons c text ih =>
      obtain ⟨hgo, hrest⟩ := passes_cons.mp h
      rw [List.cons_append, cut, hgo, ih hrest, lastOf_cons]
      rfl

theorem cut_of_passes (h : Passes stop q before text) :
    cut stop q before text = (text, none) := by
  have happend := cut_append h []
  rw [List.append_nil] at happend
  rw [happend]
  exact Prod.ext (List.append_nil text) rfl

/-- A scanner that has stopped does not see what follows. -/
theorem cut_append_of_some (h : (cut stop q before text).2.isSome = true)
    (rest : Str) :
    (cut stop q before (text ++ rest)).1 = (cut stop q before text).1 := by
  induction text generalizing q before with
  | nil => cases h
  | cons c text ih =>
      rw [cut] at h
      rw [List.cons_append, cut, cut]
      split_ifs at h ⊢ with hstop
      · rfl
      · exact congrArg (c :: ·) (ih h)

theorem passes_append :
    Passes stop q before (text ++ rest) ↔ Passes stop q before text ∧
      Passes stop (q.scan text) (lastOf before text) rest := by
  induction text generalizing q before with
  | nil => exact (and_iff_right rfl).symm
  | cons c text ih =>
      rw [List.cons_append, passes_cons, passes_cons, ih, lastOf_cons,
        scan_cons, and_assoc]

/-- A scanner that starts outside of quotes does not stop in a text, and is
outside of quotes after it. -/
structure Clear (stop : Option Char → Char → Bool) (text : Str) : Prop where
  passes : ∀ before, Passes stop {} before text
  scan : scan {} text = {}

theorem clear_nil : Clear stop [] :=
  ⟨fun _ => rfl, rfl⟩

theorem Clear.append (h : Clear stop text) (h' : Clear stop rest) :
    Clear stop (text ++ rest) where
  passes := by
    intro before
    rw [passes_append, h.scan]
    exact ⟨h.passes before, h'.passes _⟩
  scan := by rw [scan_append, h.scan, h'.scan]

/-- A character that is no quote and that the scanner does not stop at. -/
theorem clear_singleton (hquote : isQuote c = false)
    (hstop : ∀ before, stop before c = false) : Clear stop [c] where
  passes := by
    intro before
    rw [passes_cons, hstop, Bool.and_false]
    exact ⟨rfl, rfl⟩
  scan := by simp [next, hquote]

theorem clear_of_forall
    (h : ∀ c ∈ text, isQuote c = false ∧ ∀ before, stop before c = false) :
    Clear stop text := by
  induction text with
  | nil => exact clear_nil
  | cons c text ih =>
      obtain ⟨⟨hquote, hstop⟩, hrest⟩ := List.forall_mem_cons.mp h
      exact (clear_singleton hquote hstop).append (ih hrest)

theorem Clear.cut (h : Clear stop text) (hbare : isQuote c = false)
    (hstop : ∀ before, stop before c = true) (before : Option Char)
    (rest : Str) :
    cut stop {} before (text ++ c :: rest) = (text, some rest) := by
  rw [cut_append (h.passes before), h.scan, Quoting.cut, hstop]
  simp [bare, hbare]

/-! ## Strings between double quotes -/

/-- Inside of double quotes. -/
def inside : Quoting :=
  { quote := some '"' }

theorem bare_of_quote (h : q.quote.isSome = true) : q.bare c = false := by
  simp [bare, Option.isNone_eq_false_iff.mpr h]

theorem next_inside (hquote : c ≠ '"') (hbackslash : c ≠ '\\') :
    inside.next c = inside := by
  have hne : ('"' : Char) ≠ c := fun h => hquote h.symm
  simp [next, inside, hbackslash, hne]

/-- How a character of a string is written: as it is, or with a backslash. -/
def Escaped (text : Str) : Prop :=
  (∃ c, text = [c] ∧ c ≠ '"' ∧ c ≠ '\\') ∨
    ∃ c others, text = '\\' :: c :: others ∧
      ∀ d ∈ others, d ≠ '"' ∧ d ≠ '\\'

theorem plain_inside (h : ∀ c ∈ text, c ≠ '"' ∧ c ≠ '\\')
    (before : Option Char) :
    Passes stop inside before text ∧ scan inside text = inside := by
  induction text generalizing before with
  | nil => exact ⟨rfl, rfl⟩
  | cons c text ih =>
      obtain ⟨⟨hquote, hbackslash⟩, hrest⟩ := List.forall_mem_cons.mp h
      rw [passes_cons, scan_cons, next_inside hquote hbackslash,
        bare_of_quote rfl, Bool.false_and]
      exact ⟨⟨rfl, (ih hrest _).1⟩, (ih hrest none).2⟩

theorem escaped_inside (h : Escaped text) (before : Option Char) :
    Passes stop inside before text ∧ scan inside text = inside := by
  obtain ⟨c, rfl, hplain⟩ | ⟨c, others, rfl, hothers⟩ := h
  · refine plain_inside ?_ before
    intro d hd
    rwa [List.mem_singleton.mp hd]
  · obtain ⟨hpasses, hscan⟩ := plain_inside hothers (some c)
    have hback : inside.next '\\' = { inside with escaped := true } := rfl
    have hover : ({ inside with escaped := true } : Quoting).next c = inside :=
      rfl
    rw [passes_cons, passes_cons, scan_cons, scan_cons, hback, hover,
      bare_of_quote rfl, bare_of_quote rfl, Bool.false_and, Bool.false_and]
    exact ⟨⟨rfl, rfl, hpasses⟩, hscan⟩

theorem flatMap_inside {encode : Char → Str}
    (h : ∀ c, Escaped (encode c)) (text : Str) (before : Option Char) :
    Passes stop inside before (text.flatMap encode) ∧
      scan inside (text.flatMap encode) = inside := by
  induction text generalizing before with
  | nil => exact ⟨rfl, rfl⟩
  | cons c text ih =>
      obtain ⟨hpasses, hscan⟩ : Passes stop inside before (encode c) ∧
          scan inside (encode c) = inside := escaped_inside (h c) before
      rw [List.flatMap_cons, passes_append, scan_append, hscan]
      exact ⟨⟨hpasses, (ih _).1⟩, (ih none).2⟩

theorem clear_quoted {encode : Char → Str} (h : ∀ c, Escaped (encode c))
    (text : Str) : Clear stop ('"' :: (text.flatMap encode ++ ['"'])) where
  passes := by
    intro before
    have hopen : ({} : Quoting).next '"' = inside := rfl
    have hbare : ({} : Quoting).bare '"' = false := rfl
    obtain ⟨hpasses, hscan⟩ :
        Passes stop inside (some '"') (text.flatMap encode) ∧
          scan inside (text.flatMap encode) = inside :=
      flatMap_inside h text _
    rw [passes_cons, hopen, hbare, Bool.false_and, passes_append, hscan,
      passes_cons, bare_of_quote rfl, Bool.false_and]
    exact ⟨rfl, hpasses, rfl, rfl⟩
  scan := by
    have hopen : ({} : Quoting).next '"' = inside := rfl
    obtain ⟨-, hscan⟩ : Passes stop inside none (text.flatMap encode) ∧
        scan inside (text.flatMap encode) = inside := flatMap_inside h text _
    rw [scan_cons, hopen, scan_append, hscan]
    rfl

end Quoting

end Harmost.Support
