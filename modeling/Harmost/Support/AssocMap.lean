import Mathlib.Algebra.BigOperators.Group.List.Basic
import Mathlib.Algebra.GroupWithZero.Nat
import Mathlib.Algebra.Order.BigOperators.Group.List
import Mathlib.Algebra.Order.Group.Nat
import Mathlib.Data.List.AList

/-!
# Finite maps and totals over them

Association lists with distinct keys, and the sum of a quantity over their
entries.  A ledger is such a total: the lemmas say how inserting, replacing and
erasing an entry moves it.
-/

namespace Harmost.Support

/-- A finite map. -/
abbrev AssocMap (α β : Type*) := AList fun _ : α => β

namespace AssocMap

variable {α β : Type*}

/-- The sum of a quantity over all entries. -/
def total (f : α → β → ℕ) (m : AssocMap α β) : ℕ :=
  (m.entries.map fun entry => f entry.1 entry.2).sum

/-- Change every value in place. -/
def mapValues (g : α → β → β) (m : AssocMap α β) : AssocMap α β where
  entries := m.entries.map fun entry => ⟨entry.1, g entry.1 entry.2⟩
  nodupKeys := by
    have hkeys : (m.entries.map fun entry : Sigma fun _ : α => β =>
        (⟨entry.1, g entry.1 entry.2⟩ : Sigma fun _ : α => β)).keys =
          m.entries.keys := by
      simp [List.keys, Function.comp_def]
    rw [List.NodupKeys, hkeys]
    exact m.nodupKeys

theorem total_key (g : α → ℕ) (m : AssocMap α β) :
    total (fun a _ => g a) m = (m.keys.map g).sum := by
  simp [total, AList.keys, List.keys, Function.comp_def]

variable (f : α → β → ℕ) {m : AssocMap α β}

/-- Totals of a function of the key agree on maps with the same keys. -/
theorem total_key_eq {γ : Type*} (g : α → ℕ) {m' : AssocMap α γ}
    (h : ∀ a, a ∈ m ↔ a ∈ m') :
    total (fun a _ => g a) m = total (fun a _ => g a) m' := by
  have hperm : m.keys.Perm m'.keys :=
    (List.perm_ext_iff_of_nodup m.keys_nodup m'.keys_nodup).mpr h
  rw [total_key, total_key, (hperm.map g).sum_eq]

theorem total_one (m : AssocMap α β) :
    total (fun _ _ => 1) m = m.entries.length := by
  simp [total]

theorem total_add (g : α → β → ℕ) (m : AssocMap α β) :
    total (fun a b => f a b + g a b) m = total f m + total g m :=
  List.sum_map_add

theorem total_le_total {f g : α → β → ℕ} (h : ∀ a b, f a b ≤ g a b)
    (m : AssocMap α β) : total f m ≤ total g m :=
  List.sum_le_sum fun entry _ => h entry.1 entry.2

variable [DecidableEq α]

theorem mem_entries_iff {a : α} {b : β} :
    (⟨a, b⟩ : Sigma fun _ : α => β) ∈ m.entries ↔ m.lookup a = some b := by
  rw [← Option.mem_def, AList.mem_lookup_iff]

theorem mem_of_lookup {a : α} {b : β} (h : m.lookup a = some b) : a ∈ m := by
  rw [← AList.lookup_isSome, h, Option.isSome_some]

theorem lookup_insert_cases {a a' : α} {b b' : β}
    (h : (m.insert a b).lookup a' = some b') :
    a' = a ∧ b' = b ∨ a' ≠ a ∧ m.lookup a' = some b' := by
  by_cases heq : a' = a
  · subst heq
    rw [AList.lookup_insert] at h
    exact .inl ⟨rfl, (Option.some.inj h).symm⟩
  · rw [AList.lookup_insert_ne heq] at h
    exact .inr ⟨heq, h⟩

/-- What is left after an erasure was there before. -/
theorem lookup_of_lookup_erase {a a' : α} {b : β}
    (h : (m.erase a).lookup a' = some b) : m.lookup a' = some b := by
  by_cases heq : a' = a
  · subst heq
    rw [AList.lookup_erase] at h
    cases h
  · rwa [AList.lookup_erase_ne heq] at h

/-! ## Totals -/

theorem total_insert_of_notMem {a : α} (h : a ∉ m) (b : β) :
    total f (m.insert a b) = f a b + total f m := by
  rw [total, AList.entries_insert_of_notMem h, List.map_cons, List.sum_cons,
    total]

/-- Erasing a key takes its entry out from between the others. -/
theorem exists_entries_eq {a : α} {b : β} (h : m.lookup a = some b) :
    ∃ front rest, m.entries = front ++ ⟨a, b⟩ :: rest ∧
      (m.erase a).entries = front ++ rest := by
  have hmem : a ∈ m.entries.keys := List.mem_keys_of_mem (mem_entries_iff.mpr h)
  obtain ⟨b', front, rest, _, hentries, herase⟩ := List.exists_of_kerase hmem
  have hlookup : m.lookup a = some b' := mem_entries_iff.mp (by simp [hentries])
  obtain rfl : b' = b := Option.some.inj (hlookup.symm.trans h)
  exact ⟨front, rest, hentries, herase⟩

theorem length_erase {a : α} {b : β} (h : m.lookup a = some b) :
    (m.erase a).entries.length + 1 = m.entries.length := by
  obtain ⟨front, rest, hentries, herased⟩ := exists_entries_eq h
  simp [hentries, herased, Nat.add_assoc]

/-- Erasing an entry takes its share out of the total. -/
theorem total_erase {a : α} {b : β} (h : m.lookup a = some b) :
    f a b + total f (m.erase a) = total f m := by
  obtain ⟨front, rest, hentries, herased⟩ := exists_entries_eq h
  rw [total, total, hentries, herased]
  simp only [List.map_append, List.map_cons, List.sum_append, List.sum_cons]
  omega

/-- Replacing a value moves the total by the difference. -/
theorem total_insert {a : α} {b : β} (h : m.lookup a = some b) (b' : β) :
    f a b + total f (m.insert a b') = f a b' + total f m := by
  have hinsert : total f (m.insert a b') = f a b' + total f (m.erase a) := by
    rw [total, AList.entries_insert, List.map_cons, List.sum_cons]
    rfl
  rw [hinsert, ← total_erase f h]
  omega

theorem total_congr {f g : α → β → ℕ}
    (h : ∀ a b, m.lookup a = some b → f a b = g a b) :
    total f m = total g m := by
  unfold total
  congr 1
  apply List.map_congr_left
  rintro ⟨a, b⟩ hmem
  exact h a b (mem_entries_iff.mp hmem)

theorem total_le_total_of_lookup {f g : α → β → ℕ}
    (h : ∀ a b, m.lookup a = some b → f a b ≤ g a b) : total f m ≤ total g m :=
  List.sum_le_sum fun entry hentry => h entry.1 entry.2
    (mem_entries_iff.mp hentry)

/-- A total, summed over the keys. -/
theorem total_eq_sum_keys (m : AssocMap α β) :
    total f m = (m.keys.map fun a => ((m.lookup a).map (f a)).getD 0).sum := by
  rw [← total_key, total]
  refine congrArg List.sum (List.map_congr_left ?_)
  rintro ⟨a, b⟩ hmem
  dsimp only
  rw [mem_entries_iff.mp hmem]
  rfl

/-- Totals over two maps, compared entry by entry. -/
theorem total_le_total_of_rel {γ : Type*} {R : α → β → γ → Prop} {f : α → β → ℕ}
    {g : α → γ → ℕ} {m' : AssocMap α γ}
    (h : ∀ a, Option.Rel (R a) (m.lookup a) (m'.lookup a))
    (hle : ∀ a b c, R a b c → f a b ≤ g a c) : total f m ≤ total g m' := by
  have hkeys : m.keys.Perm m'.keys := by
    refine (List.perm_ext_iff_of_nodup m.keys_nodup m'.keys_nodup).mpr ?_
    intro a
    change a ∈ m ↔ a ∈ m'
    rw [← AList.lookup_isSome, ← AList.lookup_isSome]
    have hrel := h a
    generalize m.lookup a = b?, m'.lookup a = c? at hrel
    cases hrel <;> rfl
  rw [total_eq_sum_keys, total_eq_sum_keys, (hkeys.map _).sum_eq]
  refine List.sum_le_sum fun a _ => ?_
  have hrel := h a
  generalize m.lookup a = b?, m'.lookup a = c? at hrel
  cases hrel with
  | some hR => exact hle a _ _ hR
  | none => exact le_rfl

/-- An entry's share is at most the total. -/
theorem le_total {a : α} {b : β} (h : m.lookup a = some b) :
    f a b ≤ total f m := by
  rw [← total_erase f h]
  exact Nat.le_add_right _ _

theorem add_le_total {a a' : α} {b b' : β} (hne : a' ≠ a)
    (h : m.lookup a = some b) (h' : m.lookup a' = some b') :
    f a b + f a' b' ≤ total f m := by
  rw [← total_erase f h]
  refine Nat.add_le_add_left (le_total f ?_) _
  rwa [AList.lookup_erase_ne hne]

theorem exists_lt_of_total_lt {f g : α → β → ℕ} (h : total f m < total g m) :
    ∃ a b, m.lookup a = some b ∧ f a b < g a b := by
  obtain ⟨⟨a, b⟩, hmem, hlt⟩ := List.exists_lt_of_sum_lt _ _ h
  exact ⟨a, b, mem_entries_iff.mp hmem, hlt⟩

/-! ## Setting a value -/

/-- Set the value of a key, or take the key out. -/
def set (m : AssocMap α β) (a : α) : Option β → AssocMap α β
  | some b => m.insert a b
  | none => m.erase a

theorem lookup_set (m : AssocMap α β) (a : α) (b? : Option β) :
    (m.set a b?).lookup a = b? := by
  cases b? with
  | none => exact AList.lookup_erase _ _
  | some b => exact AList.lookup_insert _

theorem lookup_set_of_ne (m : AssocMap α β) {a a' : α} (hne : a' ≠ a)
    (b? : Option β) : (m.set a b?).lookup a' = m.lookup a' := by
  cases b? with
  | none => exact AList.lookup_erase_ne hne
  | some b => exact AList.lookup_insert_ne hne

/-- Setting a value moves the total by the difference. -/
theorem total_set (m : AssocMap α β) (a : α) (b? : Option β) :
    (m.lookup a).elim 0 (f a) + total f (m.set a b?) =
      b?.elim 0 (f a) + total f m := by
  cases hold : m.lookup a with
  | some b =>
      cases b? with
      | none =>
          have herase := total_erase f hold
          simpa only [set, Option.elim, Nat.zero_add] using herase
      | some b' => exact total_insert f hold b'
  | none =>
      have hnotMem : a ∉ m := AList.lookup_eq_none.mp hold
      cases b? with
      | none =>
          have herase : m.erase a = m := AList.ext (List.kerase_of_notMem_keys
            hnotMem)
          simp only [set, herase]
      | some b' =>
          have hinsert := total_insert_of_notMem f hnotMem b'
          simpa only [set, Option.elim, Nat.zero_add] using hinsert

/-! ## Keeping some keys -/

/-- Keep the entries whose key passes a test. -/
def retain (p : α → Bool) (m : AssocMap α β) : AssocMap α β where
  entries := m.entries.filter fun entry => p entry.1
  nodupKeys := m.nodupKeys.sublist List.filter_sublist

theorem lookup_retain_eq_some {p : α → Bool} {a : α} {b : β} :
    (retain p m).lookup a = some b ↔
      m.lookup a = some b ∧ p a = true := by
  rw [← mem_entries_iff, ← mem_entries_iff]
  exact List.mem_filter

/-! ## Changing values in place -/

theorem lookup_mapValues (g : α → β → β) (m : AssocMap α β) (a : α) :
    (mapValues g m).lookup a = (m.lookup a).map (g a) :=
  List.dlookup_map₂ a

theorem mem_mapValues {g : α → β → β} {a : α} : a ∈ mapValues g m ↔ a ∈ m := by
  rw [← AList.lookup_isSome, lookup_mapValues, Option.isSome_map,
    AList.lookup_isSome]

end AssocMap

end Harmost.Support
