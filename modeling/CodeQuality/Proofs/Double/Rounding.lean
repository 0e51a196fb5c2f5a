import CodeQuality.Proofs.Double.Order
import Mathlib.Algebra.Order.Field.Power
import Mathlib.Data.Int.Log
import Mathlib.Data.Rat.Floor
import Mathlib.Tactic.FieldSimp
import Mathlib.Tactic.Linarith

/-!
# Rounding to doubles

A positive number is rounded by its exact value alone: the place of the last bit follows from its
magnitude, and the significand is the nearest whole number in units of that place. The arithmetic
of doubles shifts bits out of a significand instead and keeps two bits of what is lost. Both give
the same result, for products and for quotients. Rounding by the exact value preserves the order.
-/

namespace CodeQuality.Double

open Float.Model Float.Model.UnpackedFloat

section RoundEven

/-- The whole number nearest to a number that is not negative, the even one of two. -/
def roundEven (x : ℚ) : ℕ :=
  if x < ⌊x⌋₊ + 1 / 2 then ⌊x⌋₊
  else if ⌊x⌋₊ + 1 / 2 < x then ⌊x⌋₊ + 1
  else ⌊x⌋₊ + ⌊x⌋₊ % 2

/-- The rounded number is the whole part or one more. -/
theorem roundEven_bounds (x : ℚ) : ⌊x⌋₊ ≤ roundEven x ∧ roundEven x ≤ ⌊x⌋₊ + 1 := by
  unfold roundEven
  split_ifs <;> omega

/-- A whole number is rounded to itself. -/
@[simp] theorem roundEven_natCast (n : ℕ) : roundEven n = n := by
  simp [roundEven]

/-- Rounding preserves the order. -/
theorem roundEven_mono {x y : ℚ} (h : x ≤ y) : roundEven x ≤ roundEven y := by
  have hx := roundEven_bounds x
  have hy := roundEven_bounds y
  rcases (Nat.floor_mono h).lt_or_eq with hfloor | hfloor
  · omega
  · -- With equal whole parts, the fractions are in the order of the numbers.
    unfold roundEven
    rw [hfloor]
    split_ifs <;> first | omega | linarith

end RoundEven

section Shifting

/-- A significand with its round bit and its sticky bit stands for a number: the significand is
the whole part, the round bit says whether the rest is a half or more, and the sticky bit whether
it is neither nothing nor a half. -/
structure Holds (em : ExtendedMantissa) (x : ℚ) : Prop where
  le : em.mantissa ≤ x
  lt : x < em.mantissa + 1
  roundBit_iff : em.roundBit = true ↔ em.mantissa + 1 / 2 ≤ x
  stickyBit_iff : em.stickyBit = true ↔ x ≠ em.mantissa ∧ x ≠ em.mantissa + 1 / 2

namespace Holds

variable {em : ExtendedMantissa} {x : ℚ}

/-- The bits say how the number is rounded. -/
theorem roundedMantissa_eq (h : Holds em x) : em.roundedMantissa = roundEven x := by
  have hfloor : ⌊x⌋₊ = em.mantissa :=
    (Nat.floor_eq_iff ((Nat.cast_nonneg em.mantissa).trans h.le)).mpr ⟨h.le, h.lt⟩
  have hround := h.roundBit_iff
  have hsticky := h.stickyBit_iff
  rw [roundEven, hfloor]
  obtain ⟨m, r, s⟩ := em
  cases r with
  | false =>
    have hbelow : x < m + 1 / 2 := by simpa using hround
    rw [if_pos hbelow]
    cases s <;> rfl
  | true =>
    have habove : (m : ℚ) + 1 / 2 ≤ x := by simpa using hround
    rw [if_neg (not_lt_of_ge habove)]
    cases s with
    | false =>
      have hhalf : x = m + 1 / 2 := by
        by_contra hne
        have hwhole : x ≠ m := by linarith
        exact absurd (hsticky.mpr ⟨hwhole, hne⟩) (by simp)
      rw [if_neg hhalf.not_gt]
      rfl
    | true =>
      rw [if_pos (lt_of_le_of_ne habove (hsticky.mp rfl).2.symm)]
      rfl

/-- A shift by one bit halves the number. -/
theorem shiftRightOne (h : Holds em x) : Holds em.shiftRightOne (x / 2) := by
  obtain ⟨m, r, s⟩ := em
  obtain ⟨hle, hlt, hround, hsticky⟩ := h
  simp only at hle hlt hround hsticky
  have hlost : (r || s) = true ↔ x ≠ m := by
    rw [Bool.or_eq_true, hround, hsticky]
    constructor
    · rintro (habove | ⟨hwhole, -⟩)
      · linarith
      · exact hwhole
    · intro hwhole
      by_cases hhalf : x = m + 1 / 2
      · exact Or.inl hhalf.ge
      · exact Or.inr ⟨hwhole, hhalf⟩
  -- The last bit of the significand becomes the round bit.
  rcases Nat.even_or_odd' m with ⟨k, rfl | rfl⟩
  · have hmantissa : 2 * k / 2 = k := by omega
    have hbit : (2 * k % 2 != 0) = false := by simp
    push_cast at hle hlt hlost
    refine ⟨?_, ?_, ?_, ?_⟩ <;> simp only [ExtendedMantissa.shiftRightOne, hmantissa, hbit, hlost]
    · linarith
    · linarith
    · simp only [Bool.false_eq_true, false_iff, not_le]
      linarith
    · constructor
      · intro hne
        exact ⟨fun h => hne (by linarith), by linarith⟩
      · rintro ⟨hne, -⟩ h
        exact hne (by linarith)
  · have hmantissa : (2 * k + 1) / 2 = k := by omega
    have hbit : ((2 * k + 1) % 2 != 0) = true := by simp
    push_cast at hle hlt hlost
    refine ⟨?_, ?_, ?_, ?_⟩ <;> simp only [ExtendedMantissa.shiftRightOne, hmantissa, hbit, hlost]
    · linarith
    · linarith
    · simp only [true_iff]
      linarith
    · constructor
      · intro hne
        exact ⟨by linarith, fun h => hne (by linarith)⟩
      · rintro ⟨-, hne⟩ h
        exact hne (by linarith)

/-- A shift by several bits divides the number by a power of two. -/
theorem shiftRight (h : Holds em x) (count : ℕ) : Holds (em >>> count) (x / 2 ^ count) := by
  change Holds (count.repeat ExtendedMantissa.shiftRightOne em) _
  induction count with
  | zero => simpa [Nat.repeat] using h
  | succ count ih =>
    rw [Nat.repeat, pow_succ, ← div_div]
    exact ih.shiftRightOne

/-- A significand without further bits stands for itself. -/
theorem exact (m : ℕ) : Holds (ExtendedMantissa.ofMantissaAndAccuracy m .exact) m := by
  refine ⟨le_rfl, ?_, ?_, ?_⟩ <;> simp [ExtendedMantissa.ofMantissaAndAccuracy]

/-- A whole quotient and the accuracy of the remainder stand for the quotient. -/
theorem fraction (m : ℕ) {num den : ℕ} (h : num < den) :
    Holds (ExtendedMantissa.ofMantissaAndAccuracy m (accuracyOfFraction num den))
      (m + num / den) := by
  have hden : (0 : ℚ) < den := by exact_mod_cast Nat.zero_lt_of_lt h
  have hwhole : (num : ℚ) / den < 1 := by
    rw [div_lt_one hden]
    exact_mod_cast h
  rw [accuracyOfFraction]
  split
  · rename_i hzero
    simpa [hzero] using exact m
  rename_i hnum
  have hpos : 0 < (num : ℚ) / den := div_pos (by exact_mod_cast Nat.pos_of_ne_zero hnum) hden
  rcases lt_trichotomy (2 * num) den with hhalf | hhalf | hhalf
  · have hbelow : (num : ℚ) / den < 1 / 2 := by
      rw [div_lt_iff₀ hden]
      have : (2 : ℚ) * num < den := by exact_mod_cast hhalf
      linarith
    rw [Nat.compare_eq_lt.mpr hhalf]
    refine ⟨?_, ?_, ?_, ?_⟩ <;> simp only [ExtendedMantissa.ofMantissaAndAccuracy]
    · linarith
    · linarith
    · simp only [Bool.false_eq_true, false_iff]
      linarith
    · simp only [true_iff]
      exact ⟨by linarith, by linarith⟩
  · have hequal : (num : ℚ) / den = 1 / 2 := by
      rw [div_eq_iff hden.ne']
      have : (2 : ℚ) * num = den := by exact_mod_cast hhalf
      linarith
    rw [Nat.compare_eq_eq.mpr hhalf, hequal]
    refine ⟨?_, ?_, ?_, ?_⟩ <;> simp only [ExtendedMantissa.ofMantissaAndAccuracy]
    · linarith
    · linarith
    · simp
    · simp
  · have habove : 1 / 2 < (num : ℚ) / den := by
      rw [lt_div_iff₀ hden]
      have : (den : ℚ) < 2 * num := by exact_mod_cast hhalf
      linarith
    rw [Nat.compare_eq_gt.mpr hhalf]
    refine ⟨?_, ?_, ?_, ?_⟩ <;> simp only [ExtendedMantissa.ofMantissaAndAccuracy]
    · linarith
    · linarith
    · simp only [true_iff]
      linarith
    · simp only [true_iff]
      exact ⟨by linarith, by linarith⟩

end Holds

end Shifting

section Place

/-- The exponent of the last bit that a positive number is rounded to. -/
def placeOf (x : ℚ) : ℤ :=
  max (Int.log 2 x - 52) (-1074)

/-- A number is as large as the significand that is its whole part. -/
theorem log_eq {m : ℕ} (hm : 0 < m) {e : ℤ} {x : ℚ} (hle : m ≤ x / 2 ^ e)
    (hlt : x / 2 ^ e < m + 1) : Int.log 2 x = m.log2 + e := by
  have hunit : (0 : ℚ) < 2 ^ e := zpow_pos two_pos e
  have hfirst : (2 : ℚ) ^ m.log2 ≤ m := by exact_mod_cast Nat.log2_self_le hm.ne'
  have hlast : (m : ℚ) + 1 ≤ 2 ^ (m.log2 + 1) := by exact_mod_cast Nat.lt_log2_self
  rw [le_div_iff₀ hunit] at hle
  rw [div_lt_iff₀ hunit] at hlt
  have hx : 0 < x := lt_of_lt_of_le (mul_pos (by exact_mod_cast hm) hunit) hle
  apply le_antisymm
  · rw [← Int.lt_add_one_iff, ← Int.lt_zpow_iff_log_lt one_lt_two hx]
    calc x < (m + 1) * 2 ^ e := hlt
      _ ≤ 2 ^ (m.log2 + 1) * 2 ^ e := mul_le_mul_of_nonneg_right hlast hunit.le
      _ = ((2 : ℕ) : ℚ) ^ (m.log2 + e + 1 : ℤ) := by
        rw [← zpow_natCast, ← zpow_add₀ two_ne_zero]
        push_cast
        ring_nf
  · rw [← Int.zpow_le_iff_le_log one_lt_two hx]
    calc ((2 : ℕ) : ℚ) ^ (m.log2 + e : ℤ) = 2 ^ m.log2 * 2 ^ e := by
          rw [← zpow_natCast, ← zpow_add₀ two_ne_zero]
          rfl
      _ ≤ m * 2 ^ e := mul_le_mul_of_nonneg_right hfirst hunit.le
      _ ≤ x := hle

/-- The exponent that the arithmetic shifts to. -/
theorem targetExponent_eq (m : ℕ) (e : ℤ) :
    Format.binary64.targetExponent (totalExponent m e) = max (m.log2 + e - 52) (-1074) := by
  have hmin : Format.binary64.minExponent = -1074 := by decide
  have hbits : Format.binary64.mantissaBits = 53 := by decide
  rw [Format.targetExponent, hmin, hbits, totalExponent]
  congr 1
  push_cast
  ring

/-- The arithmetic shifts to the place of the number, unless it starts above. -/
theorem targetExponent_eq_placeOf {m : ℕ} {e : ℤ} {x : ℚ} (hx : 0 < x) (hle : m ≤ x / 2 ^ e)
    (hlt : x / 2 ^ e < m + 1) (he : e ≤ placeOf x) :
    Format.binary64.targetExponent (totalExponent m e) = placeOf x := by
  rw [targetExponent_eq]
  unfold placeOf at he ⊢
  rcases Nat.eq_zero_or_pos m with rfl | hm
  · -- A whole part of zero shows no magnitude, but only numbers of the least place have it.
    have hlog : Int.log 2 x < e := by
      rw [← Int.lt_zpow_iff_log_lt one_lt_two hx]
      simpa [div_lt_one (zpow_pos (two_pos : (0 : ℚ) < 2) e)] using hlt
    simp only [Nat.log2_zero]
    omega
  · rw [log_eq hm hle hlt]

/-- In units of its place a positive number is less than the first number with a bit too many. -/
theorem div_place_lt {x : ℚ} (hx : 0 < x) : x / 2 ^ placeOf x < 2 ^ 53 := by
  rw [div_lt_iff₀ (zpow_pos two_pos _), ← zpow_natCast, ← zpow_add₀ two_ne_zero]
  refine (Int.lt_zpow_iff_log_lt one_lt_two hx).mpr ?_
  unfold placeOf
  omega

/-- Above the least place, a number in units of its place uses all bits. -/
theorem le_div_place {x : ℚ} (hx : 0 < x) (h : -1074 < placeOf x) :
    2 ^ 52 ≤ x / 2 ^ placeOf x := by
  rw [le_div_iff₀ (zpow_pos two_pos _), ← zpow_natCast, ← zpow_add₀ two_ne_zero]
  refine (Int.zpow_le_iff_le_log one_lt_two hx).mpr ?_
  unfold placeOf at h ⊢
  omega

end Place

section Nearest

/-- The number that a rounded significand gives: a significand with a bit too many, which is a
power of two, moves to the next exponent. -/
def normalized (m : ℕ) (e : ℤ) : UnpackedFloat :=
  if h : m = 0 then .zero .positive
  else if m < 2 ^ 53 then .finite .positive m e (Nat.pos_of_ne_zero h)
  else .finite .positive (2 ^ 52) (e + 1) (by decide)

theorem normalized_zero (e : ℤ) : normalized 0 e = .zero .positive :=
  dif_pos rfl

/-- A significand that fits is kept. -/
theorem normalized_of_lt {m : ℕ} (hm : 0 < m) (h : m < 2 ^ 53) (e : ℤ) :
    normalized m e = .finite .positive m e hm := by
  rw [normalized, dif_neg hm.ne', if_pos h]

/-- A significand with a bit too many moves to the next exponent. -/
theorem normalized_of_le {m : ℕ} (h : 2 ^ 53 ≤ m) (e : ℤ) :
    normalized m e = .finite .positive (2 ^ 52) (e + 1) (Nat.two_pow_pos 52) := by
  have hm : m ≠ 0 := by omega
  rw [normalized, dif_neg hm, if_neg (Nat.not_lt.mpr h)]

/-- The double nearest to a number that is not negative, for an exponent without a limit. -/
def nearest (x : ℚ) : UnpackedFloat :=
  normalized (roundEven (x / 2 ^ placeOf x)) (placeOf x)

/-- A rounded significand has at most the first number with a bit too many. -/
theorem roundEven_le {x : ℚ} (hx : 0 < x) : roundEven (x / 2 ^ placeOf x) ≤ 2 ^ 53 := by
  have h := roundEven_mono (div_place_lt hx).le
  have hpow : roundEven (2 ^ 53) = 2 ^ 53 := by exact_mod_cast roundEven_natCast (2 ^ 53)
  rwa [hpow] at h

/-- Above the least place, a rounded significand uses all bits. -/
theorem le_roundEven {x : ℚ} (hx : 0 < x) (h : -1074 < placeOf x) :
    2 ^ 52 ≤ roundEven (x / 2 ^ placeOf x) := by
  have h := roundEven_mono (le_div_place hx h)
  have hpow : roundEven (2 ^ 52) = 2 ^ 52 := by exact_mod_cast roundEven_natCast (2 ^ 52)
  rwa [hpow] at h

/-- The accuracy of a significand does not change it. -/
@[simp] theorem mantissa_ofMantissaAndAccuracy (m : ℕ) (acc : Accuracy) :
    (ExtendedMantissa.ofMantissaAndAccuracy m acc).mantissa = m := by
  rcases acc with _ | (_ | _ | _) <;> rfl

/-- The arithmetic shifts a significand to the place of its number. -/
theorem shiftToTargetExponent_holds {m : ℕ} {e : ℤ} {acc : Accuracy} {x : ℚ} (hx : 0 < x)
    (hholds : Holds (ExtendedMantissa.ofMantissaAndAccuracy m acc) (x / 2 ^ e))
    (he : e ≤ placeOf x) :
    Holds (shiftToTargetExponent Format.binary64 m e acc).1 (x / 2 ^ placeOf x) ∧
      (shiftToTargetExponent Format.binary64 m e acc).2 = placeOf x := by
  have hle := hholds.le
  have hlt := hholds.lt
  rw [mantissa_ofMantissaAndAccuracy] at hle hlt
  simp only [shiftToTargetExponent, shiftToExponent, targetExponent_eq_placeOf hx hle hlt he]
  have hshift : e + (placeOf x - e).toNat = placeOf x := by omega
  refine ⟨?_, hshift⟩
  have h := hholds.shiftRight (placeOf x - e).toNat
  rwa [div_div, ← zpow_natCast, ← zpow_add₀ two_ne_zero, hshift] at h

/-- A significand that fits is not shifted. -/
theorem shiftToTargetExponent_of_lt {m : ℕ} (hm : m < 2 ^ 53) {e : ℤ} (he : -1074 ≤ e) :
    shiftToTargetExponent Format.binary64 m e .exact =
      (ExtendedMantissa.ofMantissaAndAccuracy m .exact, e) := by
  have hlog : (m.log2 : ℤ) ≤ 52 := by
    rcases Nat.eq_zero_or_pos m with rfl | hpos
    · simp
    · exact_mod_cast Nat.le_of_lt_succ ((Nat.log2_lt hpos.ne').mpr hm)
  have hshift : (max (m.log2 + e - 52) (-1074) - e).toNat = 0 := by omega
  simp only [shiftToTargetExponent, shiftToExponent, targetExponent_eq, hshift]
  exact Prod.ext rfl (add_zero e)

/-- A significand with a bit too many is shifted once. -/
theorem shiftToTargetExponent_carry {e : ℤ} (he : -1074 ≤ e) :
    shiftToTargetExponent Format.binary64 (2 ^ 53) e .exact = (⟨2 ^ 52, false, false⟩, e + 1) := by
  have hlog : (2 ^ 53).log2 = 53 := by decide
  have hshift : (max (((2 ^ 53).log2 : ℕ) + e - 52) (-1074) - e).toNat = 1 := by omega
  simp only [shiftToTargetExponent, shiftToExponent, targetExponent_eq, hshift]
  rfl

/-- The arithmetic rounds a significand and what it lost to the double nearest to the number. -/
theorem roundWithAccuracy_eq_nearest {m : ℕ} {e : ℤ} {acc : Accuracy} {x : ℚ} (hx : 0 < x)
    (hholds : Holds (ExtendedMantissa.ofMantissaAndAccuracy m acc) (x / 2 ^ e))
    (he : e ≤ placeOf x) :
    roundWithAccuracy Format.binary64 .positive m e acc = nearest x := by
  obtain ⟨hrounded, hplace⟩ := shiftToTargetExponent_holds hx hholds he
  have hmin : -1074 ≤ placeOf x := le_max_right _ _
  have hmost := roundEven_le hx
  rw [nearest, ← hrounded.roundedMantissa_eq]
  rw [← hrounded.roundedMantissa_eq] at hmost
  unfold roundWithAccuracy
  generalize shiftToTargetExponent Format.binary64 m e acc = shifted at hplace hmost ⊢
  obtain ⟨em, place⟩ := shifted
  obtain rfl : place = placeOf x := hplace
  dsimp only at hmost ⊢
  generalize em.roundedMantissa = rounded at hmost ⊢
  rcases hmost.lt_or_eq with hlt | rfl
  · rw [shiftToTargetExponent_of_lt hlt hmin]
    rcases Nat.eq_zero_or_pos rounded with rfl | hpos
    · rfl
    · rw [normalized_of_lt hpos hlt]
      exact dif_neg hpos.ne'
  · rw [shiftToTargetExponent_carry hmin]
    rfl

/-- An exact number is rounded to the double nearest to it. -/
theorem roundWithAccuracy_exact {m : ℕ} (hm : 0 < m) {e : ℤ}
    (he : e ≤ placeOf (m * 2 ^ e)) :
    roundWithAccuracy Format.binary64 .positive m e .exact = nearest (m * 2 ^ e) := by
  have hunit : (0 : ℚ) < 2 ^ e := zpow_pos two_pos e
  have hvalue : (m * 2 ^ e : ℚ) / 2 ^ e = m := mul_div_cancel_right₀ _ hunit.ne'
  refine roundWithAccuracy_eq_nearest (mul_pos (by exact_mod_cast hm) hunit) ?_ he
  rw [hvalue]
  exact Holds.exact m

/-- A number is first given the bits that its place needs, and then rounded. -/
theorem round_eq_nearest {m : ℕ} (hm : 0 < m) (e : ℤ) :
    UnpackedFloat.round Format.binary64 .positive m e = nearest (m * 2 ^ e) := by
  have hunit : (0 : ℚ) < 2 ^ e := zpow_pos two_pos e
  have hvalue : (m * 2 ^ e : ℚ) / 2 ^ e = m := mul_div_cancel_right₀ _ hunit.ne'
  have htarget : Format.binary64.targetExponent (totalExponent m e) = placeOf (m * 2 ^ e) := by
    rw [targetExponent_eq, placeOf, log_eq hm hvalue.ge (by rw [hvalue]; exact lt_add_one _)]
  simp only [UnpackedFloat.round, decreaseExponent, htarget]
  generalize hcount : (e - placeOf (m * 2 ^ e)).toNat = count
  have hsame : ((m <<< count : ℕ) : ℚ) * 2 ^ (e - count) = m * 2 ^ e := by
    rw [Nat.shiftLeft_eq, zpow_sub₀ two_ne_zero, zpow_natCast]
    push_cast
    field_simp
  have hpos : 0 < m <<< count := by
    rw [Nat.shiftLeft_eq]
    positivity
  have hplace : e - count ≤ placeOf ((m <<< count : ℕ) * 2 ^ (e - count)) := by
    rw [hsame]
    omega
  rw [roundWithAccuracy_exact hpos hplace, hsame]

/-- A quotient is at least as large as the magnitudes of its parts say. -/
theorem le_log_div {m n : ℕ} (hm : 0 < m) (hn : 0 < n) (e f : ℤ) :
    m.log2 + e - (n.log2 + f) - 1 ≤ Int.log 2 ((m * 2 ^ e / (n * 2 ^ f) : ℚ)) := by
  have hnum : (2 : ℚ) ^ m.log2 ≤ m := by exact_mod_cast Nat.log2_self_le hm.ne'
  have hden : (n : ℚ) ≤ 2 ^ (n.log2 + 1) := by exact_mod_cast Nat.lt_log2_self.le
  have hm' : (0 : ℚ) < m := by exact_mod_cast hm
  have hn' : (0 : ℚ) < n := by exact_mod_cast hn
  rw [← Int.zpow_le_iff_le_log one_lt_two (by positivity)]
  calc ((2 : ℕ) : ℚ) ^ (m.log2 + e - (n.log2 + f) - 1 : ℤ)
      = 2 ^ m.log2 * 2 ^ e / (2 ^ (n.log2 + 1) * 2 ^ f) := by
        rw [← zpow_natCast, ← zpow_natCast, ← zpow_add₀ two_ne_zero, ← zpow_add₀ two_ne_zero,
          ← zpow_sub₀ two_ne_zero]
        push_cast
        ring_nf
    _ ≤ m * 2 ^ e / (n * 2 ^ f) := by gcongr

/-- A quotient is rounded to the double nearest to the exact quotient. -/
theorem div_eq_nearest {m n : ℕ} (hm : 0 < m) (hn : 0 < n) (e f : ℤ) :
    UnpackedFloat.div Format.binary64 (.finite .positive m e hm) (.finite .positive n f hn) =
      nearest (m * 2 ^ e / (n * 2 ^ f)) := by
  have hm' : (0 : ℚ) < m := by exact_mod_cast hm
  have hn' : (0 : ℚ) < n := by exact_mod_cast hn
  have hlog := le_log_div hm hn e f
  change roundWithAccuracy Format.binary64 .positive (divCore Format.binary64 m e n f).1
    (divCore Format.binary64 m e n f).2.1 (divCore Format.binary64 m e n f).2.2 = _
  unfold divCore
  dsimp only
  generalize hplace : min (e - f) _ = place
  generalize hcount : (e - f - place).toNat = count
  refine roundWithAccuracy_eq_nearest (by positivity) ?_ ?_
  · have hvalue : (m * 2 ^ e / (n * 2 ^ f) : ℚ) / 2 ^ place =
        (m <<< count / n : ℕ) + (m <<< count % n : ℕ) / n := by
      have hshift : e - f = place + count := by omega
      have hdivide : ((m <<< count : ℕ) : ℚ) =
          n * (m <<< count / n : ℕ) + (m <<< count % n : ℕ) := by
        exact_mod_cast (Nat.div_add_mod _ n).symm
      calc (m * 2 ^ e / (n * 2 ^ f) : ℚ) / 2 ^ place
          = m / n * (2 ^ (e - f) / 2 ^ place) := by
            rw [zpow_sub₀ two_ne_zero]
            field_simp
        _ = (m <<< count : ℕ) / n := by
            rw [hshift, zpow_add₀ two_ne_zero, mul_div_cancel_left₀ _ (by positivity), zpow_natCast,
              Nat.shiftLeft_eq]
            push_cast
            ring
        _ = _ := by
            rw [hdivide]
            field_simp
    rw [hvalue]
    exact Holds.fraction _ (Nat.mod_lt _ hn)
  · unfold placeOf
    simp only [Format.targetExponent, totalExponent] at hplace
    have hmin : Format.binary64.minExponent = -1074 := by decide
    have hbits : Format.binary64.mantissaBits = 53 := by decide
    rw [hmin, hbits] at hplace
    omega

end Nearest

section Canonical

/-- A significand and an exponent as a double holds them: the significand uses all bits, unless
the exponent is the least one. -/
structure Canonical (m : ℕ) (e : ℤ) : Prop where
  lt : m < 2 ^ 53
  le_exponent : -1074 ≤ e
  full : 2 ^ 52 ≤ m ∨ e = -1074

/-- The numbers that rounding gives, and infinity. -/
inductive Regular : UnpackedFloat → Prop
  | zero : Regular (.zero .positive)
  | finite {m : ℕ} {e : ℤ} (hm : 0 < m) (h : Canonical m e) : Regular (.finite .positive m e hm)
  | infinity : Regular (.infinity .positive)

/-- Zero is ranked below finite numbers. -/
theorem rank_zero_le_finite {m : ℕ} (hm : 0 < m) (e : ℤ) :
    rank (.zero .positive) ≤ rank (.finite .positive m e hm) :=
  Prod.Lex.toLex_le_toLex.mpr (.inl zero_lt_one)

/-- Zero is ranked below the other regular numbers. -/
theorem Regular.rank_zero_le {u : UnpackedFloat} (h : Regular u) :
    rank (.zero .positive) ≤ rank u := by
  cases h with
  | zero => exact le_rfl
  | finite hm _ => exact rank_zero_le_finite hm _
  | infinity => exact Prod.Lex.toLex_le_toLex.mpr (.inl zero_lt_two)

/-- Finite numbers are ranked by their exponents, then by their significands. -/
theorem rank_finite_le_iff {m n : ℕ} {e f : ℤ} (hm : 0 < m) (hn : 0 < n) :
    rank (.finite .positive m e hm) ≤ rank (.finite .positive n f hn) ↔ e < f ∨ e = f ∧ m ≤ n := by
  change toLex ((1 : ℤ), toLex (e, (m : ℤ))) ≤ toLex (1, toLex (f, (n : ℤ))) ↔ _
  simp [Prod.Lex.toLex_le_toLex]

/-- A number without magnitude is rounded to zero. -/
@[simp] theorem nearest_zero : nearest 0 = .zero .positive := by
  have hzero : roundEven 0 = 0 := by exact_mod_cast roundEven_natCast 0
  rw [nearest, zero_div, hzero, normalized_zero]

/-- Rounding gives a regular number. -/
theorem regular_nearest {x : ℚ} (hx : 0 ≤ x) : Regular (nearest x) := by
  rcases hx.eq_or_lt with rfl | hpos
  · rw [nearest_zero]
    exact .zero
  have hmin : -1074 ≤ placeOf x := le_max_right _ _
  have hfull : 2 ^ 52 ≤ roundEven (x / 2 ^ placeOf x) ∨ placeOf x = -1074 := by
    rcases hmin.lt_or_eq with hplace | hplace
    · exact Or.inl (le_roundEven hpos hplace)
    · exact Or.inr hplace.symm
  unfold nearest
  generalize roundEven (x / 2 ^ placeOf x) = rounded at hfull ⊢
  rcases Nat.eq_zero_or_pos rounded with rfl | hrounded
  · exact .zero
  rcases Nat.lt_or_ge rounded (2 ^ 53) with hlt | hle
  · rw [normalized_of_lt hrounded hlt]
    exact .finite _ ⟨hlt, hmin, hfull⟩
  · rw [normalized_of_le hle]
    exact .finite _ ⟨by decide, by omega, Or.inl le_rfl⟩

/-- A rounded significand gives zero or a finite number. -/
theorem rank_zero_le_normalized (m : ℕ) (e : ℤ) :
    rank (.zero .positive) ≤ rank (normalized m e) := by
  rcases Nat.eq_zero_or_pos m with rfl | hm
  · exact le_rfl
  rcases Nat.lt_or_ge m (2 ^ 53) with hlt | hle
  · rw [normalized_of_lt hm hlt]
    exact rank_zero_le_finite hm e
  · rw [normalized_of_le hle]
    exact rank_zero_le_finite _ (e + 1)

/-- A larger significand does not give a number of lower rank. -/
theorem rank_normalized_mono {m n : ℕ} (h : m ≤ n) (e : ℤ) :
    rank (normalized m e) ≤ rank (normalized n e) := by
  rcases Nat.eq_zero_or_pos m with rfl | hm
  · exact rank_zero_le_normalized n e
  rcases Nat.lt_or_ge n (2 ^ 53) with hn | hn
  · rw [normalized_of_lt hm (h.trans_lt hn), normalized_of_lt (hm.trans_le h) hn]
    exact (rank_finite_le_iff _ _).mpr (Or.inr ⟨rfl, h⟩)
  rw [normalized_of_le hn]
  rcases Nat.lt_or_ge m (2 ^ 53) with hfits | hfits
  · rw [normalized_of_lt hm hfits]
    exact (rank_finite_le_iff _ _).mpr (Or.inl (lt_add_one e))
  · rw [normalized_of_le hfits]

/-- A significand that uses all bits, at a higher place, does not give a number of lower rank. -/
theorem rank_normalized_le_of_lt {m n : ℕ} {e f : ℤ} (h : e < f) (hn : 2 ^ 52 ≤ n) :
    rank (normalized m e) ≤ rank (normalized n f) := by
  rcases Nat.eq_zero_or_pos m with rfl | hm
  · exact rank_zero_le_normalized n f
  have hn' : 0 < n := by omega
  rcases Nat.lt_or_ge m (2 ^ 53) with hfits | hfits <;>
    rcases Nat.lt_or_ge n (2 ^ 53) with hfits' | hfits'
  · rw [normalized_of_lt hm hfits, normalized_of_lt hn' hfits', rank_finite_le_iff]
    omega
  · rw [normalized_of_lt hm hfits, normalized_of_le hfits', rank_finite_le_iff]
    omega
  · rw [normalized_of_le hfits, normalized_of_lt hn' hfits', rank_finite_le_iff]
    omega
  · rw [normalized_of_le hfits, normalized_of_le hfits', rank_finite_le_iff]
    omega

/-- Rounding preserves the order. -/
theorem rank_nearest_mono {x y : ℚ} (hx : 0 ≤ x) (h : x ≤ y) :
    rank (nearest x) ≤ rank (nearest y) := by
  rcases hx.eq_or_lt with rfl | hpos
  · rw [nearest_zero]
    exact (regular_nearest h).rank_zero_le
  have hplace : placeOf x ≤ placeOf y :=
    max_le_max_right _ (Int.sub_le_sub_right (Int.log_mono_right hpos h) _)
  rcases hplace.eq_or_lt with heq | hlt
  · unfold nearest
    rw [heq]
    exact rank_normalized_mono (roundEven_mono (by gcongr)) _
  · have hmin : -1074 ≤ placeOf x := le_max_right _ _
    exact rank_normalized_le_of_lt hlt (le_roundEven (hpos.trans_le h) (hmin.trans_lt hlt))

/-- The place of a number that a double holds is its exponent. -/
theorem Canonical.placeOf_eq {m : ℕ} {e : ℤ} (h : Canonical m e) (hm : 0 < m) :
    placeOf (m * 2 ^ e) = e := by
  have hvalue : (m * 2 ^ e : ℚ) / 2 ^ e = m := mul_div_cancel_right₀ _ (zpow_ne_zero e two_ne_zero)
  have hlog : m.log2 ≤ 52 := Nat.le_of_lt_succ ((Nat.log2_lt hm.ne').mpr h.lt)
  rw [placeOf, log_eq hm hvalue.ge (by rw [hvalue]; exact lt_add_one _)]
  rcases h.full with hfull | hleast
  · have hlog' := (Nat.le_log2 hm.ne').mpr hfull
    have hmin := h.le_exponent
    omega
  · omega

/-- A number that a double holds is rounded to that double. -/
theorem Canonical.nearest_eq {m : ℕ} {e : ℤ} (h : Canonical m e) (hm : 0 < m) :
    nearest (m * 2 ^ e) = .finite .positive m e hm := by
  rw [nearest, h.placeOf_eq hm, mul_div_cancel_right₀ _ (zpow_ne_zero e two_ne_zero),
    roundEven_natCast, normalized_of_lt hm h.lt]

/-- The rank of a double follows its value. -/
theorem value_le_of_rank_le {m n : ℕ} {e f : ℤ} (hm : 0 < m) (hn : 0 < n)
    (hcanonical : Canonical m e) (hcanonical' : Canonical n f)
    (h : rank (.finite .positive m e hm) ≤ rank (.finite .positive n f hn)) :
    (m * 2 ^ e : ℚ) ≤ n * 2 ^ f := by
  rcases (rank_finite_le_iff hm hn).mp h with hlt | ⟨rfl, hle⟩
  · have hfull : (2 ^ 52 : ℚ) ≤ n := by
      have := hcanonical.le_exponent
      exact_mod_cast hcanonical'.full.resolve_right (by omega)
    have hupper : (m : ℚ) ≤ 2 ^ 53 := by exact_mod_cast hcanonical.lt.le
    calc (m * 2 ^ e : ℚ) ≤ 2 ^ 53 * 2 ^ e := by gcongr
      _ = 2 ^ 52 * 2 ^ (e + 1) := by
        rw [zpow_add₀ two_ne_zero, zpow_one]
        ring
      _ ≤ n * 2 ^ f := by
        gcongr
        · exact one_le_two
        · omega
  · have hle' : (m : ℚ) ≤ n := by exact_mod_cast hle
    gcongr

end Canonical

end CodeQuality.Double
