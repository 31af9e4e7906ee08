import Mathlib.Data.List.Nodup

/-!
# Lists

Counting with a test, cutting a list off where a test fails, the first hit of a
test, and lists of keys and values that are looked up from the front.
-/

namespace Harmost.Support

variable {α β : Type*}

theorem countP_cons_toNat (p : α → Bool) (a : α) (l : List α) :
    (a :: l).countP p = l.countP p + (p a).toNat := by
  rw [List.countP_cons]
  cases p a <;> rfl

theorem takeWhile_append_drop (p : α → Bool) (l : List α) :
    l.takeWhile p ++ l.drop (l.takeWhile p).length = l := by
  conv_rhs => rw [← List.takeWhile_append_dropWhile (p := p) (l := l)]
  refine congrArg _ ?_
  conv_lhs =>
    enter [2]
    rw [← List.takeWhile_append_dropWhile (p := p) (l := l)]
  exact List.drop_left

/-- The first hit has a property that every hit has. -/
theorem exists_find?_of_forall {l : List α} {p : α → Bool}
    {P : α → Prop} {a : α} (hmem : a ∈ l) (hhit : p a = true)
    (h : ∀ b ∈ l, p b = true → P b) : ∃ b, l.find? p = some b ∧ P b := by
  obtain ⟨first, hfirst⟩ := Option.isSome_iff_exists.mp
    (List.find?_isSome.mpr ⟨a, hmem, hhit⟩)
  exact ⟨first, hfirst, h first (List.mem_of_find?_eq_some hfirst)
    (List.find?_some hfirst)⟩

/-- An index that is wrapped around hits. -/
theorem exists_getElem?_mod {l : List α} (hne : l ≠ []) (n : ℕ) :
    ∃ a ∈ l, l[n % l.length]? = some a := by
  have hlt := Nat.mod_lt n (List.length_pos_iff.mpr hne)
  exact ⟨_, List.getElem_mem hlt, List.getElem?_eq_getElem hlt⟩

/-! ## Keys and values -/

variable [BEq α] [LawfulBEq α] {entries : List (α × β)} {key : α} {value : β}

theorem isSome_lookup_iff :
    (entries.lookup key).isSome = true ↔ key ∈ entries.map Prod.fst := by
  simp

theorem mem_of_lookup (h : entries.lookup key = some value) :
    (key, value) ∈ entries := by
  obtain ⟨front, back, rfl, -⟩ := List.lookup_eq_some_iff.mp h
  exact List.mem_append_right _ List.mem_cons_self

theorem nodup_keys_concat (h : (entries.map Prod.fst).Nodup)
    (hnew : ¬(entries.lookup key).isSome = true) (value : β) :
    ((entries ++ [(key, value)]).map Prod.fst).Nodup := by
  rw [List.map_append, List.map_singleton, ← List.concat_eq_append,
    List.nodup_concat]
  exact ⟨mt isSome_lookup_iff.mpr hnew, h⟩

theorem lookup_last (hnew : key ∉ entries.map Prod.fst) (value : β) :
    (entries ++ [(key, value)]).lookup key = some value := by
  refine List.lookup_eq_some_iff.mpr ⟨entries, [], rfl, fun entry hentry => ?_⟩
  refine bne_iff_ne.mpr ?_
  rintro rfl
  exact hnew (List.mem_map_of_mem hentry)

end Harmost.Support
