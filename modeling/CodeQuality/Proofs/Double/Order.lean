import Mathlib.Algebra.Order.Ring.Int
import Mathlib.Data.Nat.Cast.Order.Ring
import Mathlib.Data.Prod.Lex
import Mathlib.Tactic.Tauto

/-!
# The order of doubles

Doubles are compared by what they are unpacked to: a sign, an exponent and a significand. The
comparison is put here as that of ranks, which are ordered linearly. What is not a number is
neither less than nor equal to anything.
-/

namespace CodeQuality.Double

open Float.Model

/-- What a double is unpacked to. -/
def unpacked (x : Float) : UnpackedFloat :=
  x.toModel.unpack

/-- The place of a number among all doubles: by its sign and whether it is infinite, then by its
exponent, then by its significand. -/
def rank : UnpackedFloat → ℤ ×ₗ ℤ ×ₗ ℤ
  | .infinity .negative => toLex (-2, toLex (0, 0))
  | .finite .negative mantissa exponent _ => toLex (-1, toLex (-exponent, -(mantissa : ℤ)))
  | .zero _ => toLex (0, toLex (0, 0))
  | .notANumber => toLex (0, toLex (0, 0))
  | .finite .positive mantissa exponent _ => toLex (1, toLex (exponent, (mantissa : ℤ)))
  | .infinity .positive => toLex (2, toLex (0, 0))

/-- Numbers are compared by their ranks. -/
theorem compare_eq {a b : UnpackedFloat} (ha : a ≠ .notANumber) (hb : b ≠ .notANumber) :
    a.compare b = some (compare (rank a) (rank b)) := by
  have hneg (m n : ℤ) : compare (-m) (-n) = compare n m := by
    rw [← cmp_eq_compare, ← cmp_eq_compare]
    exact StrictAnti.cmp_map_eq (fun _ _ h => neg_lt_neg h) m n
  have hcast (m n : ℕ) : compare (m : ℤ) (n : ℤ) = compare m n := by
    rw [← cmp_eq_compare, ← cmp_eq_compare]
    exact Nat.strictMono_cast.cmp_map_eq m n
  have hlex (k m n k' m' n' : ℤ) :
      compare (toLex (k, toLex (m, n)) : ℤ ×ₗ ℤ ×ₗ ℤ) (toLex (k', toLex (m', n'))) =
        (compare k k').then ((compare m m').then (compare n n')) := rfl
  -- Only finite numbers of one sign are told apart by more than their first component.
  rcases a with (_ | _) | _ | _ | ⟨_ | _, m, e, _⟩
  case notANumber => exact absurd rfl ha
  all_goals rcases b with (_ | _) | _ | _ | ⟨_ | _, n, f, _⟩
  all_goals first
    | exact absurd rfl hb
    | rfl
    | skip
  · change some ((compare e f).then (compare m n)).swap = _
    rw [Ordering.swap_then, ← Std.OrientedOrd.eq_swap, ← Std.OrientedOrd.eq_swap, ← hcast,
      ← hneg e f, ← hneg m n]
    rfl
  · change some ((compare e f).then (compare m n)) = _
    rw [← hcast]
    rfl

/-- What is not a number cannot be compared. -/
theorem compare_eq_none_of_notANumber {a b : UnpackedFloat}
    (h : a = .notANumber ∨ b = .notANumber) : a.compare b = none := by
  rcases h with rfl | rfl
  · rfl
  · cases a <;> rfl

/-- A double is at most another one if both are numbers and their ranks are in that order. -/
theorem le_iff {x y : Float} :
    x ≤ y ↔ unpacked x ≠ .notANumber ∧ unpacked y ≠ .notANumber ∧
      rank (unpacked x) ≤ rank (unpacked y) := by
  have hmodel : x ≤ y ↔ (((unpacked x).compare (unpacked y)).any (·.isLE)) = true := by
    change decide (x.toModel ≤ y.toModel) = true ↔ _
    rw [decide_eq_true_iff]
    rfl
  rw [hmodel]
  by_cases hnumber : unpacked x = .notANumber ∨ unpacked y = .notANumber
  · rw [compare_eq_none_of_notANumber hnumber]
    simp only [Option.any_none, Bool.false_eq_true, false_iff]
    tauto
  · rw [not_or] at hnumber
    rw [compare_eq hnumber.1 hnumber.2, Option.any_some, Ordering.isLE_iff_ne_gt, ← ne_eq,
      compare_le_iff_le]
    tauto

/-- A double is less than another one if both are numbers and their ranks are in that order. -/
theorem lt_iff {x y : Float} :
    x < y ↔ unpacked x ≠ .notANumber ∧ unpacked y ≠ .notANumber ∧
      rank (unpacked x) < rank (unpacked y) := by
  have hmodel : x < y ↔ (unpacked x).compare (unpacked y) = some .lt := by
    change decide (x.toModel < y.toModel) = true ↔ _
    rw [decide_eq_true_iff, ← beq_iff_eq]
    rfl
  rw [hmodel]
  by_cases hnumber : unpacked x = .notANumber ∨ unpacked y = .notANumber
  · rw [compare_eq_none_of_notANumber hnumber]
    simp only [reduceCtorEq, false_iff]
    tauto
  · rw [not_or] at hnumber
    rw [compare_eq hnumber.1 hnumber.2, Option.some_inj, compare_lt_iff_lt]
    tauto

/-- A number that stands at or below another one is not above what the other one is at most. -/
theorem not_lt_of_rank_le {x y bound : Float}
    (hrank : rank (unpacked x) ≤ rank (unpacked y)) (hbound : y ≤ bound) : ¬ bound < x := by
  intro hlt
  exact absurd (lt_iff.mp hlt).2.2 (not_lt_of_ge (hrank.trans (le_iff.mp hbound).2.2))

end CodeQuality.Double
