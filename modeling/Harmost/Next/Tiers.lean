import Harmost.Next.Acceptance

/-!
# The tiers of a generated file

The generator gives low-priority work a share of the capacity that has room for
one image, where the capacity can be divided at all.  What a weight and a
priority then have to meet is one ceiling, and that there are tiers.
-/

namespace Harmost.Next

open Harmost.Support
open Harmost.Config

/-- The ceiling of a tier: all of the capacity, or the share of the low tier
where there is one. -/
def Options.ceiling (options : Options) (lowPriorityPercent : ℕ)
    (priority : Option Priority) : ℕ :=
  if priority = some .low ∧ 1 < options.concurrency then
    options.concurrency *
      options.effectiveLowPriorityPercent lowPriorityPercent / 100
  else options.concurrency

theorem saturatingMul_of_le {concurrency percent : ℕ}
    (hmax : concurrency ≤ maxSafeInteger) (h : percent ≤ 100) :
    saturatingMul concurrency percent = concurrency * percent := by
  have hle : concurrency * percent ≤ maxSafeInteger * 100 :=
    Nat.mul_le_mul hmax h
  have hsmall : maxSafeInteger * 100 ≤ 2 ^ 64 - 1 := by decide
  exact min_eq_left (hle.trans hsmall)

theorem getD_eq_low {priority : Option Priority} :
    priority.getD .normal = .low ↔ priority = some .low := by
  cases priority <;> simp

section Written

variable {options : Options} (low : ℕ) (hupstreams : options.upstreams ≠ [])
  (hpos : 1 ≤ options.concurrency)
  (hmax : options.concurrency ≤ maxSafeInteger)
include hupstreams

theorem priorities_origin :
    (options.origin low).priorities =
      if 1 < options.concurrency then
        { low := options.effectiveLowPriorityPercent low }
      else {} := by
  simp [Options.origin, Options.imageUsesPriority, hupstreams]

theorem imageWeight_eq :
    options.imageWeight = min 4 (max 1 (options.concurrency - 1)) := by
  simp [Options.imageWeight, hupstreams]

/-- The low tier always has room for an image, and is never the whole
ceiling on account of it. -/
theorem effectiveLowPriorityPercent_bounds (hlarge : 1 < options.concurrency) :
    options.imageWeight * 100 ≤
        options.concurrency * options.effectiveLowPriorityPercent low ∧
      low ≤ options.effectiveLowPriorityPercent low ∧
      options.effectiveLowPriorityPercent low ≤ max low 80 := by
  have hweight := imageWeight_eq hupstreams
  have hpercent : options.effectiveLowPriorityPercent low =
      max low ((options.imageWeight * 100 + (options.concurrency - 1)) /
        options.concurrency) := by
    simp [Options.effectiveLowPriorityPercent, Options.imageUsesPriority,
      hupstreams, hlarge]
  have hle : (options.imageWeight * 100 + (options.concurrency - 1)) /
      options.concurrency < 81 :=
    (Nat.div_lt_iff_lt_mul (by omega)).mpr (by omega)
  have hceil : options.imageWeight * 100 ≤ options.concurrency *
      ((options.imageWeight * 100 + (options.concurrency - 1)) /
        options.concurrency) := by
    have hdivision := Nat.div_add_mod
      (options.imageWeight * 100 + (options.concurrency - 1))
      options.concurrency
    have hrest := Nat.mod_lt
      (options.imageWeight * 100 + (options.concurrency - 1))
      (Nat.zero_lt_of_lt hlarge)
    omega
  rw [hpercent]
  exact ⟨hceil.trans (Nat.mul_le_mul_left _ (le_max_right _ _)),
    le_max_left _ _, max_le_max_left _ (by omega)⟩

/-- The share of every tier but the low one is the whole. -/
theorem percentFor_origin {priority : Priority}
    (h : ¬(priority = .low ∧ 1 < options.concurrency)) :
    (options.origin low).priorities.percentFor priority = 100 := by
  rw [priorities_origin low hupstreams]
  cases priority with
  | high | normal => split_ifs <;> rfl
  | low =>
      rw [if_neg fun hlarge => h ⟨rfl, hlarge⟩]
      rfl

theorem percentFor_low (hlarge : 1 < options.concurrency) :
    (options.origin low).priorities.percentFor .low =
      options.effectiveLowPriorityPercent low := by
  rw [priorities_origin low hupstreams, if_pos hlarge]
  rfl

include hpos in
/-- The weight of an image fits the share that was made for it. -/
theorem imageWeight_le_ceiling :
    options.imageWeight ≤ options.ceiling low
      (if options.upstreams.isEmpty || decide (1 < options.concurrency) then
        some .low else none) := by
  have hvalue := imageWeight_eq hupstreams
  by_cases hlarge : 1 < options.concurrency
  · have hroom := (effectiveLowPriorityPercent_bounds low hupstreams hlarge).1
    simp only [hlarge, decide_true, Bool.or_true, if_true, Options.ceiling,
      true_and]
    exact (Nat.le_div_iff_mul_le (by decide)).mpr hroom
  · simp only [hlarge, decide_false, Bool.or_false, Options.ceiling,
      and_false, if_false]
    omega

include hmax

theorem validatePriority_low (hlarge : 1 < options.concurrency)
    (hless : low < 100) :
    validatePriority (options.origin low) .low = .ok () := by
  obtain ⟨hroom, -, heffective⟩ :=
    effectiveLowPriorityPercent_bounds low hupstreams hlarge
  have hweight := imageWeight_eq hupstreams
  have hconcurrency : (options.origin low).concurrency.max =
      options.concurrency := rfl
  have hne : options.effectiveLowPriorityPercent low ≠ 0 := by
    intro hzero
    rw [hzero, Nat.mul_zero] at hroom
    omega
  rw [validatePriority_eq_ok, percentFor_low low hupstreams hlarge,
    hconcurrency, saturatingMul_of_le hmax (by omega)]
  omega

include hpos

theorem validatePriority_of_whole {priority : Priority}
    (h : ¬(priority = .low ∧ 1 < options.concurrency)) :
    validatePriority (options.origin low) priority = .ok () := by
  have hconcurrency : (options.origin low).concurrency.max =
      options.concurrency := rfl
  rw [validatePriority_eq_ok, percentFor_origin low hupstreams h,
    hconcurrency, saturatingMul_of_le hmax (le_refl 100)]
  omega

/-- The generated priorities pass, with a tier of their own for low work where
the capacity can be divided, exactly if that tier is left a part of it. -/
theorem validatePriorities_origin :
    (validatePriorities (options.origin low) = .ok () ∧
        (1 < options.concurrency →
          (options.origin low).priorities.isUniform = false)) ↔
      (1 < options.concurrency → low < 100) := by
  constructor
  · rintro ⟨hvalid, huniform⟩ hlarge
    obtain ⟨-, hlow, -⟩ :=
      effectiveLowPriorityPercent_bounds low hupstreams hlarge
    have hle := (validatePriority_eq_ok.mp
      (validatePriorities_eq_ok.mp hvalid .low)).2.1
    rw [percentFor_low low hupstreams hlarge] at hle
    have hne := huniform hlarge
    rw [priorities_origin low hupstreams, if_pos hlarge] at hne
    simp only [Priorities.isUniform, beq_self_eq_true, Bool.and_self,
      Bool.true_and, beq_eq_false_iff_ne] at hne
    omega
  · intro hless
    refine ⟨validatePriorities_eq_ok.mpr fun priority => ?_, fun hlarge => ?_⟩
    · by_cases htier : priority = .low ∧ 1 < options.concurrency
      · obtain ⟨rfl, hlarge⟩ := htier
        exact validatePriority_low low hupstreams hmax hlarge (hless hlarge)
      · exact validatePriority_of_whole low hupstreams hpos hmax htier
    · have hsmall := hless hlarge
      obtain ⟨-, -, heffective⟩ :=
        effectiveLowPriorityPercent_bounds low hupstreams hlarge
      rw [priorities_origin low hupstreams, if_pos hlarge]
      simp only [Priorities.isUniform, beq_self_eq_true, Bool.and_self,
        Bool.true_and, beq_eq_false_iff_ne]
      omega

section

variable (hlow : 1 < options.concurrency → low < 100)
include hlow

/-- A weight fits every ceiling exactly if it fits that of its tier. -/
theorem weight_le_iff {priority : Option Priority} {weight : ℕ} :
    (weight ≤ (options.origin low).concurrency.max ∧
        weight ≤ max (saturatingMul (options.origin low).concurrency.max
          ((options.origin low).priorities.percentFor
            (priority.getD .normal)) / 100) 1) ↔
      weight ≤ options.ceiling low priority := by
  have hconcurrency : (options.origin low).concurrency.max =
      options.concurrency := rfl
  rw [hconcurrency, Options.ceiling]
  split_ifs with htier
  · obtain ⟨rfl, hlarge⟩ := htier
    obtain ⟨hroom, -, heffective⟩ :=
      effectiveLowPriorityPercent_bounds low hupstreams hlarge
    have hsmall : options.effectiveLowPriorityPercent low ≤ 100 := by
      have := hlow hlarge
      omega
    have hweight := imageWeight_eq hupstreams
    have hpercent := percentFor_low low hupstreams hlarge
    have hle : options.concurrency *
        options.effectiveLowPriorityPercent low ≤ options.concurrency * 100 :=
      Nat.mul_le_mul_left _ hsmall
    rw [getD_eq_low.mpr rfl, hpercent, saturatingMul_of_le hmax hsmall,
      Nat.max_eq_left (by omega)]
    omega
  · rw [← getD_eq_low] at htier
    rw [percentFor_origin low hupstreams htier,
      saturatingMul_of_le hmax (le_refl 100),
      Nat.mul_div_cancel _ (by decide), Nat.max_eq_left hpos]
    omega

/-- A priority means something exactly if the tiers differ. -/
theorem priority_iff (priority : Option Priority) :
    (priority.getD .normal = .normal ∨
        (options.origin low).priorities.isUniform = false) ↔
      priority = none ∨ priority = some .normal ∨ 1 < options.concurrency := by
  have huniform : (options.origin low).priorities.isUniform = false ↔
      1 < options.concurrency := by
    constructor
    · intro h
      by_contra hsmall
      rw [priorities_origin low hupstreams, if_neg hsmall] at h
      cases h
    · intro hlarge
      exact ((validatePriorities_origin low hupstreams hpos hmax).mpr hlow).2
        hlarge
  rw [huniform]
  cases priority <;> simp

theorem ceiling_pos (priority : Option Priority) :
    1 ≤ options.ceiling low priority := by
  rw [← weight_le_iff low hupstreams hpos hmax hlow]
  exact ⟨hpos, le_max_right _ _⟩

/-! ## What a written route needs -/

theorem passes_iff {draft : Draft}
    (hweight : ∀ weight, draft.weight = some weight → 0 < weight) :
    draft.Passes (options.origin low) ↔
      (∀ text ∈ draft.durations, ∃ d, Dur.parse text = .ok d) ∧
        (∀ methods, draft.methods = some methods →
          ∀ method ∈ methods, isKnown method = true) ∧
        (∀ weight, draft.weight = some weight →
          weight ≤ options.ceiling low draft.priority) ∧
        (draft.priority = none ∨ draft.priority = some .normal ∨
          1 < options.concurrency) ∧
        draft.ReusePasses := by
  have hfits : (0 < draft.weight.getD 1 ∧
      draft.weight.getD 1 ≤ (options.origin low).concurrency.max ∧
      draft.weight.getD 1 ≤
        max (saturatingMul (options.origin low).concurrency.max
          ((options.origin low).priorities.percentFor
            (draft.priority.getD .normal)) / 100) 1) ↔
      ∀ weight, draft.weight = some weight →
        weight ≤ options.ceiling low draft.priority := by
    rw [weight_le_iff low hupstreams hpos hmax hlow]
    cases hsome : draft.weight with
    | none => simp [ceiling_pos low hupstreams hpos hmax hlow]
    | some weight => simp [hweight weight hsome]
  rw [← hfits, ← priority_iff low hupstreams hpos hmax hlow draft.priority]
  constructor
  · intro h
    exact ⟨h.durations, h.methods, h.weight, h.priority, h.reuse⟩
  · rintro ⟨hdurations, hmethods, hweight, hpriority, hreuse⟩
    exact ⟨hdurations, hmethods, hweight, hpriority, hreuse⟩

end

end Written

end Harmost.Next
