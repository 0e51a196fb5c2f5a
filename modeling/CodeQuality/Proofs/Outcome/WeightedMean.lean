import CodeQuality.Score
import Mathlib.Algebra.BigOperators.Ring.List
import Mathlib.Algebra.Order.BigOperators.Group.List
import Mathlib.Algebra.Order.Field.Basic
import Mathlib.Algebra.Order.Ring.Rat
import Mathlib.Data.Set.Finite.Lemmas

/-!
# The mean by weights in exact arithmetic

The mean by weights is one definition for all kinds of numbers. Here it is read with rational
numbers, where nothing is rounded. With weights that are not negative and not all zero it lies
among the values that have a weight. It does not depend on the order of the entries, on entries
without a weight or on the unit of the weights, and it rises with each value.
-/

namespace CodeQuality

/-- The sum of the weights. -/
def totalWeight (entries : List (ℚ × ℚ)) : ℚ :=
  (entries.map Prod.snd).sum

/-- The sum of the values, each times its weight. -/
def weightedSum (entries : List (ℚ × ℚ)) : ℚ :=
  (entries.map fun entry => entry.1 * entry.2).sum

/-- No weight is negative, and they are not all zero. -/
structure IsWeighting (entries : List (ℚ × ℚ)) : Prop where
  weight_nonneg : ∀ entry ∈ entries, 0 ≤ entry.2
  totalWeight_pos : 0 < totalWeight entries

/-- The values with a positive weight. -/
def weighedValues (entries : List (ℚ × ℚ)) : Set ℚ :=
  {value | ∃ weight, 0 < weight ∧ (value, weight) ∈ entries}

/-- What a mean by weights has to satisfy. -/
structure IsMean (mean : List (ℚ × ℚ) → ℚ) : Prop where
  eq_div : ∀ entries, IsWeighting entries → mean entries = weightedSum entries / totalWeight entries
  /-- It lies between the least and the greatest of the values that have a weight. -/
  between : ∀ entries, IsWeighting entries → ∃ least greatest,
    IsLeast (weighedValues entries) least ∧ IsGreatest (weighedValues entries) greatest ∧
      least ≤ mean entries ∧ mean entries ≤ greatest
  /-- The mean of values from zero to one is not clamped. -/
  clampUnit_eq : ∀ entries, IsWeighting entries →
    (∀ value ∈ weighedValues entries, 0 ≤ value ∧ value ≤ 1) →
      clampUnit (mean entries) = mean entries
  /-- The order of the entries does not matter. -/
  perm : ∀ entries other, IsWeighting entries → entries.Perm other → mean other = mean entries
  /-- Entries without a weight do not matter. -/
  drop : ∀ entries kept dropped, IsWeighting entries → entries.Perm (kept ++ dropped) →
    (∀ entry ∈ dropped, entry.2 = 0) → mean kept = mean entries
  /-- The unit of the weights does not matter. -/
  scale : ∀ entries factor, IsWeighting entries → 0 < factor →
    mean (entries.map fun entry => (entry.1, entry.2 * factor)) = mean entries
  /-- A greater value does not lower the mean. -/
  mono : ∀ before value weight after greater,
    IsWeighting (before ++ (value, weight) :: after) → value ≤ greater →
      mean (before ++ (value, weight) :: after) ≤ mean (before ++ (greater, weight) :: after)

section Sums

variable {entries : List (ℚ × ℚ)}

@[simp] theorem totalWeight_cons (entry : ℚ × ℚ) (entries : List (ℚ × ℚ)) :
    totalWeight (entry :: entries) = entry.2 + totalWeight entries := by
  simp [totalWeight]

@[simp] theorem totalWeight_append (first second : List (ℚ × ℚ)) :
    totalWeight (first ++ second) = totalWeight first + totalWeight second := by
  simp [totalWeight]

@[simp] theorem weightedSum_cons (entry : ℚ × ℚ) (entries : List (ℚ × ℚ)) :
    weightedSum (entry :: entries) = entry.1 * entry.2 + weightedSum entries := by
  simp [weightedSum]

@[simp] theorem weightedSum_append (first second : List (ℚ × ℚ)) :
    weightedSum (first ++ second) = weightedSum first + weightedSum second := by
  simp [weightedSum]

/-- The two sums of the mean are taken in one pass. -/
theorem foldl_weighted (entries : List (ℚ × ℚ)) (weighted weights : ℚ) :
    entries.foldl (fun sums entry => (sums.1 + entry.1 * entry.2, sums.2 + entry.2))
        (weighted, weights) =
      (weighted + weightedSum entries, weights + totalWeight entries) := by
  induction entries generalizing weighted weights with
  | nil => simp [weightedSum, totalWeight]
  | cons entry rest ih =>
    rw [List.foldl_cons, ih, weightedSum_cons, totalWeight_cons, add_assoc, add_assoc]

theorem weightedMean_eq_ite (entries : List (ℚ × ℚ)) :
    weightedMean entries =
      if 0 < totalWeight entries then weightedSum entries / totalWeight entries else 0 := by
  have hsums := foldl_weighted entries 0 0
  rw [zero_add, zero_add] at hsums
  have hmean : weightedMean entries =
      let sums := entries.foldl
        (fun sums entry => (sums.1 + entry.1 * entry.2, sums.2 + entry.2)) (0, 0)
      if 0 < sums.2 then sums.1 / sums.2 else 0 := rfl
  rw [hmean, hsums]

/-- With a weighting, the mean is the quotient of the sums. -/
theorem IsWeighting.weightedMean_eq (h : IsWeighting entries) :
    weightedMean entries = weightedSum entries / totalWeight entries := by
  rw [weightedMean_eq_ite, if_pos h.totalWeight_pos]

/-- Means with the same sums are the same. -/
theorem weightedMean_congr {other : List (ℚ × ℚ)} (hsum : weightedSum other = weightedSum entries)
    (hweight : totalWeight other = totalWeight entries) :
    weightedMean other = weightedMean entries := by
  rw [weightedMean_eq_ite, weightedMean_eq_ite, hsum, hweight]

/-- Entries without a weight add nothing to the sums. -/
theorem sums_eq_zero (h : ∀ entry ∈ entries, entry.2 = 0) :
    weightedSum entries = 0 ∧ totalWeight entries = 0 := by
  constructor <;> refine List.sum_eq_zero fun term hterm => ?_
  · obtain ⟨entry, hentry, rfl⟩ := List.mem_map.mp hterm
    rw [h entry hentry, mul_zero]
  · obtain ⟨entry, hentry, rfl⟩ := List.mem_map.mp hterm
    exact h entry hentry

theorem weightedSum_perm {other : List (ℚ × ℚ)} (h : entries.Perm other) :
    weightedSum other = weightedSum entries :=
  (h.symm.map _).sum_eq

theorem totalWeight_perm {other : List (ℚ × ℚ)} (h : entries.Perm other) :
    totalWeight other = totalWeight entries :=
  (h.symm.map _).sum_eq

end Sums

namespace IsWeighting

variable {entries : List (ℚ × ℚ)} (h : IsWeighting entries)
include h

/-- Some value has a weight. -/
theorem weighedValues_nonempty : (weighedValues entries).Nonempty := by
  by_contra hempty
  have hzero : ∀ entry ∈ entries, entry.2 = 0 := by
    intro entry hentry
    by_contra hne
    have hpos : 0 < entry.2 := lt_of_le_of_ne (h.weight_nonneg entry hentry) (Ne.symm hne)
    exact hempty ⟨entry.1, entry.2, hpos, hentry⟩
  exact h.totalWeight_pos.ne' (sums_eq_zero hzero).2

omit h in
theorem finite_weighedValues (entries : List (ℚ × ℚ)) : (weighedValues entries).Finite := by
  refine (entries.map Prod.fst).finite_toSet.subset ?_
  rintro value ⟨weight, -, hmem⟩
  exact List.mem_map.mpr ⟨(value, weight), hmem, rfl⟩

/-- Sums by the same weights are compared where the weights are positive. -/
theorem sum_mul_le {lower upper : ℚ × ℚ → ℚ}
    (hle : ∀ entry ∈ entries, 0 < entry.2 → lower entry ≤ upper entry) :
    (entries.map fun entry => lower entry * entry.2).sum ≤
      (entries.map fun entry => upper entry * entry.2).sum := by
  refine List.sum_le_sum fun entry hentry => ?_
  rcases (h.weight_nonneg entry hentry).eq_or_lt with hzero | hpos
  · simp [← hzero]
  · exact mul_le_mul_of_nonneg_right (hle entry hentry hpos) hpos.le

/-- A bound below all values with a weight is a bound below their mean. -/
theorem le_weightedMean {bound : ℚ} (hbound : ∀ value ∈ weighedValues entries, bound ≤ value) :
    bound ≤ weightedMean entries := by
  rw [h.weightedMean_eq, le_div_iff₀ h.totalWeight_pos]
  calc bound * totalWeight entries = (entries.map fun entry => bound * entry.2).sum :=
        (List.sum_map_mul_left ..).symm
    _ ≤ weightedSum entries :=
        h.sum_mul_le fun entry hentry hpos => hbound entry.1 ⟨entry.2, hpos, hentry⟩

/-- A bound above all values with a weight is a bound above their mean. -/
theorem weightedMean_le {bound : ℚ} (hbound : ∀ value ∈ weighedValues entries, value ≤ bound) :
    weightedMean entries ≤ bound := by
  rw [h.weightedMean_eq, div_le_iff₀ h.totalWeight_pos]
  calc weightedSum entries ≤ (entries.map fun entry => bound * entry.2).sum :=
        h.sum_mul_le fun entry hentry hpos => hbound entry.1 ⟨entry.2, hpos, hentry⟩
    _ = bound * totalWeight entries := List.sum_map_mul_left ..

/-- Weights in another unit are scaled, and so are their products. -/
theorem weightedMean_scale {factor : ℚ} (hfactor : 0 < factor) :
    weightedMean (entries.map fun entry => (entry.1, entry.2 * factor)) = weightedMean entries := by
  have hweight : totalWeight (entries.map fun entry => (entry.1, entry.2 * factor)) =
      totalWeight entries * factor := by
    rw [totalWeight, List.map_map]
    exact List.sum_map_mul_right ..
  have hsum : weightedSum (entries.map fun entry => (entry.1, entry.2 * factor)) =
      weightedSum entries * factor := by
    rw [weightedSum, List.map_map, weightedSum, ← List.sum_map_mul_right]
    simp only [Function.comp_def, mul_assoc]
  rw [weightedMean_eq_ite, hweight, hsum, if_pos (mul_pos h.totalWeight_pos hfactor),
    mul_div_mul_right _ _ hfactor.ne', h.weightedMean_eq]

end IsWeighting

/-- A number from zero to one is not clamped. -/
theorem clampUnit_eq_self {value : ℚ} (hzero : 0 ≤ value) (hone : value ≤ 1) :
    clampUnit value = value := by
  rw [clampUnit, if_neg hzero.not_gt, if_neg hone.not_gt]

/-- In exact arithmetic the mean by weights is a mean. -/
theorem isMean_weightedMean : IsMean weightedMean where
  eq_div entries h := h.weightedMean_eq
  between entries h := by
    obtain ⟨least, hleast, hlower⟩ :=
      Set.exists_min_image _ id (IsWeighting.finite_weighedValues entries) h.weighedValues_nonempty
    obtain ⟨greatest, hgreatest, hupper⟩ :=
      Set.exists_max_image _ id (IsWeighting.finite_weighedValues entries) h.weighedValues_nonempty
    exact ⟨least, greatest, ⟨hleast, hlower⟩, ⟨hgreatest, hupper⟩, h.le_weightedMean hlower,
      h.weightedMean_le hupper⟩
  clampUnit_eq entries h hunit :=
    clampUnit_eq_self (h.le_weightedMean fun value hvalue => (hunit value hvalue).1)
      (h.weightedMean_le fun value hvalue => (hunit value hvalue).2)
  perm entries other _ hperm :=
    weightedMean_congr (weightedSum_perm hperm) (totalWeight_perm hperm)
  drop entries kept dropped _ hperm hdropped := by
    obtain ⟨hsum, hweight⟩ := sums_eq_zero hdropped
    apply weightedMean_congr
    · rw [← weightedSum_perm hperm, weightedSum_append, hsum, add_zero]
    · rw [← totalWeight_perm hperm, totalWeight_append, hweight, add_zero]
  scale entries factor h hfactor := h.weightedMean_scale hfactor
  mono before value weight after greater h hle := by
    have hweight : 0 ≤ weight :=
      h.weight_nonneg _ (List.mem_append_right before List.mem_cons_self)
    have hsame : totalWeight (before ++ (greater, weight) :: after) =
        totalWeight (before ++ (value, weight) :: after) := by simp
    rw [h.weightedMean_eq, weightedMean_eq_ite, hsame, if_pos h.totalWeight_pos]
    refine div_le_div_of_nonneg_right ?_ h.totalWeight_pos.le
    simp only [weightedSum_append, weightedSum_cons]
    gcongr

end CodeQuality
