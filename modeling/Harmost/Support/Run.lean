import Mathlib.Data.List.Basic

/-!
# Runs of a step function

A program that takes one operation at a time is a step function, and its runs
are the folds of that function.  What every step preserves holds after every
run; what a step preserves only when it is taken in the right state holds after
every run that takes it in such states.
-/

namespace Harmost.Support

variable {σ τ α : Type*}

/-- The state after a list of operations. -/
def run (step : σ → α → σ) (s : σ) (ops : List α) : σ :=
  ops.foldl step s

section Run

variable (step : σ → α → σ)

@[simp] theorem run_nil (s : σ) : run step s [] = s :=
  rfl

@[simp] theorem run_cons (s : σ) (a : α) (ops : List α) :
    run step s (a :: ops) = run step (step s a) ops :=
  rfl

theorem run_append (s : σ) (ops ops' : List α) :
    run step s (ops ++ ops') = run step (run step s ops) ops' :=
  List.foldl_append

variable {step}

theorem run_invariant {P : σ → Prop} (hstep : ∀ s a, P s → P (step s a))
    {s : σ} (hs : P s) (ops : List α) : P (run step s ops) :=
  List.foldlRecOn ops step hs fun s' hs' a _ => hstep s' a hs'

/-- A counter that a step raises by at most one. -/
theorem run_le_add_length {f : σ → ℕ} (hstep : ∀ s a, f (step s a) ≤ f s + 1)
    (s : σ) (ops : List α) : f (run step s ops) ≤ f s + ops.length := by
  induction ops generalizing s with
  | nil => exact Nat.le_refl _
  | cons a ops ih =>
      have hfirst := hstep s a
      have hrest := ih (step s a)
      rw [run_cons, List.length_cons]
      omega

/-- Every operation of the list is taken in a state that allows it. -/
def Guarded (step : σ → α → σ) (ok : σ → α → Prop) : σ → List α → Prop
  | _, [] => True
  | s, a :: ops => ok s a ∧ Guarded step ok (step s a) ops

instance instDecidableGuarded {ok : σ → α → Prop} [∀ s a, Decidable (ok s a)] :
    ∀ (s : σ) (ops : List α), Decidable (Guarded step ok s ops)
  | _, [] => inferInstanceAs (Decidable True)
  | s, a :: ops =>
      have : Decidable (Guarded step ok (step s a) ops) :=
        instDecidableGuarded (step s a) ops
      inferInstanceAs (Decidable (_ ∧ _))

theorem guarded_append {ok : σ → α → Prop} {s : σ} {ops ops' : List α} :
    Guarded step ok s (ops ++ ops') ↔
      Guarded step ok s ops ∧ Guarded step ok (run step s ops) ops' := by
  induction ops generalizing s with
  | nil => simp [Guarded]
  | cons a ops ih => simp [Guarded, ih, and_assoc]

theorem run_invariant_of_guarded {P : σ → Prop} {ok : σ → α → Prop}
    (hstep : ∀ s a, ok s a → P s → P (step s a)) {s : σ} (hs : P s)
    {ops : List α} (hops : Guarded step ok s ops) : P (run step s ops) := by
  induction ops generalizing s with
  | nil => exact hs
  | cons a ops ih => exact ih (hstep s a hops.1 hs) hops.2

/-- Two step functions stay related over every run that the second one
allows. -/
theorem run_simulation {step' : τ → α → τ} {R : σ → τ → Prop}
    {ok : τ → α → Prop}
    (hstep : ∀ s t a, ok t a → R s t → R (step s a) (step' t a)) {s : σ}
    {t : τ} (h : R s t) {ops : List α} (hops : Guarded step' ok t ops) :
    R (run step s ops) (run step' t ops) := by
  induction ops generalizing s t with
  | nil => exact h
  | cons a ops ih => exact ih (hstep s t a hops.1 h) hops.2

end Run

end Harmost.Support
