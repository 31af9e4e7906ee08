import Mathlib.Init

/-!
# Chains of checks

A computation that reports its first failure, taken apart at its successes.
-/

namespace Harmost.Support

variable {ε α β : Type*}

theorem bind_eq_ok {x : Except ε α} {f : α → Except ε β} {b : β} :
    x.bind f = .ok b ↔ ∃ a, x = .ok a ∧ f a = .ok b := by
  cases x with
  | error e => simp [Except.bind]
  | ok a => simp [Except.bind]

theorem bind_unit_eq_ok {x : Except ε Unit} {f : Unit → Except ε β}
    {b : β} : x.bind f = .ok b ↔ x = .ok () ∧ f () = .ok b := by
  rw [bind_eq_ok]
  constructor
  · rintro ⟨v, hx, hf⟩
    exact ⟨hx, hf⟩
  · rintro ⟨hx, hf⟩
    exact ⟨(), hx, hf⟩

theorem map_eq_ok {x : Except ε α} {f : α → β} {b : β} :
    x.map f = .ok b ↔ ∃ a, x = .ok a ∧ f a = b := by
  cases x with
  | error e => simp [Except.map]
  | ok a => simp [Except.map]

theorem mapError_eq_ok {ε' : Type*} {x : Except ε α} {f : ε → ε'} {a : α} :
    x.mapError f = .ok a ↔ x = .ok a := by
  cases x with
  | error e =>
      have hmap : (Except.error e : Except ε α).mapError f = .error (f e) := rfl
      simp [hmap]
  | ok b =>
      have hmap : (Except.ok b : Except ε α).mapError f = .ok b := rfl
      simp [hmap]

/-- Checks in a row, each with its message: the first that fails is
reported. -/
def refuse : List (Bool × ε) → Except ε Unit
  | [] => .ok ()
  | (failed, message) :: rest => if failed then .error message else refuse rest

theorem refuse_eq_ok {checks : List (Bool × ε)} :
    refuse checks = .ok () ↔ ∀ check ∈ checks, check.1 = false := by
  induction checks with
  | nil => simp [refuse]
  | cons check rest ih =>
      obtain ⟨failed, message⟩ := check
      cases failed <;> simp [refuse, ih]

/-! ## One computation for every item of a list -/

section Traverse

variable (f : α → Except ε β) (run : List α → Except ε (List β))
  (hnil : run [] = .ok [])
  (hcons : ∀ a rest, run (a :: rest) =
    (f a).bind fun b => (run rest).map (b :: ·))
include hnil hcons

theorem exists_traverse {items : List α}
    (h : ∀ a ∈ items, ∃ b, f a = .ok b) :
    ∃ results, run items = .ok results := by
  induction items with
  | nil => exact ⟨[], hnil⟩
  | cons a rest ih =>
      obtain ⟨⟨b, hb⟩, hrest⟩ := List.forall_mem_cons.mp h
      obtain ⟨others, hothers⟩ := ih hrest
      refine ⟨b :: others, ?_⟩
      rw [hcons, bind_eq_ok]
      exact ⟨b, hb, map_eq_ok.mpr ⟨others, hothers, rfl⟩⟩

/-- The results are those of the items, and nothing else. -/
theorem mem_traverse {items : List α} {results : List β}
    (h : run items = .ok results) :
    (∀ a ∈ items, ∃ b ∈ results, f a = .ok b) ∧
      ∀ b ∈ results, ∃ a ∈ items, f a = .ok b := by
  induction items generalizing results with
  | nil =>
      rw [hnil] at h
      cases h
      simp
  | cons a rest ih =>
      rw [hcons] at h
      obtain ⟨b, hb, h⟩ := bind_eq_ok.mp h
      obtain ⟨others, hothers, rfl⟩ := map_eq_ok.mp h
      obtain ⟨hresults, hitems⟩ := ih hothers
      refine ⟨List.forall_mem_cons.mpr
          ⟨⟨b, List.mem_cons_self, hb⟩, fun a' hmem => ?_⟩,
        List.forall_mem_cons.mpr
          ⟨⟨a, List.mem_cons_self, hb⟩, fun b' hmem => ?_⟩⟩
      · obtain ⟨b', hb', heq⟩ := hresults a' hmem
        exact ⟨b', List.mem_cons_of_mem _ hb', heq⟩
      · obtain ⟨a', ha', heq⟩ := hitems b' hmem
        exact ⟨a', List.mem_cons_of_mem _ ha', heq⟩

end Traverse

end Harmost.Support
