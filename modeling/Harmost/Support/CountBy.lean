import Mathlib.Algebra.BigOperators.Group.Finset.Piecewise

/-!
# Counting by class

The entries of a list counted by a class that each of them has, as a table with
one counter for each class.  An entry that comes or goes changes the counter of
its class alone, and the counters of some classes add up to the entries in
them.
-/

namespace Harmost.Support

variable {α β : Type*} [DecidableEq β] (f : α → β)

/-- How many entries are of each class. -/
def countBy (l : List α) (b : β) : ℕ :=
  l.countP fun a => f a = b

theorem countBy_perm {l l' : List α} (h : l.Perm l') :
    countBy f l = countBy f l' :=
  funext fun _ => h.countP_eq _

theorem countBy_cons (a : α) (l : List α) :
    countBy f (a :: l) =
      Function.update (countBy f l) (f a) (countBy f l (f a) + 1) := by
  funext b
  rw [countBy, List.countP_cons]
  by_cases hclass : b = f a
  · subst hclass
    rw [Function.update_self, if_pos (decide_eq_true rfl), countBy]
  · rw [Function.update_of_ne hclass,
      if_neg (mt of_decide_eq_true (Ne.symm hclass)), Nat.add_zero, countBy]

theorem countBy_concat (l : List α) (a : α) :
    countBy f (l ++ [a]) =
      Function.update (countBy f l) (f a) (countBy f l (f a) + 1) :=
  (countBy_perm f (List.perm_append_singleton a l)).trans (countBy_cons f a l)

theorem countBy_erase [DecidableEq α] {a : α} {l : List α} (h : a ∈ l) :
    countBy f (l.erase a) =
      Function.update (countBy f l) (f a) (countBy f l (f a) - 1) := by
  have hcons := (countBy_perm f (List.perm_cons_erase h)).trans
    (countBy_cons f a (l.erase a))
  rw [hcons, Function.update_self, Nat.add_sub_cancel, Function.update_idem,
    Function.update_eq_self]

/-- The counters of some classes add up. -/
theorem sum_countBy (s : Finset β) (l : List α) :
    ∑ b ∈ s, countBy f l b = l.countP fun a => f a ∈ s := by
  induction l with
  | nil => exact Finset.sum_const_zero
  | cons a l ih =>
      have hone : ∀ b, countBy f (a :: l) b =
          countBy f l b + if f a = b then 1 else 0 := by
        intro b
        rw [countBy, List.countP_cons, countBy]
        simp only [decide_eq_true_eq]
      rw [Finset.sum_congr rfl fun b _ => hone b, Finset.sum_add_distrib, ih,
        Finset.sum_ite_eq, List.countP_cons]
      simp only [decide_eq_true_eq]

end Harmost.Support
