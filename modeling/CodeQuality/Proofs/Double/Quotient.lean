import CodeQuality.Proofs.Double.Packing

/-!
# Quotients of whole numbers as doubles

A whole number becomes the double nearest to it, and the quotient of two such doubles is the
double nearest to their exact quotient, up to the largest exponent. Each step preserves the order,
so a quotient does not get larger when its numerator gets smaller. This holds for numbers of any
size, those included that are too large for a double.
-/

namespace CodeQuality.Double

open Float.Model Float.Model.UnpackedFloat

/-- A product is computed on what its factors are unpacked to, and packed. -/
theorem unpacked_mul (x y : Float) :
    unpacked (x * y) = UnpackedFloat.unpack Format.binary64 (UnpackedFloat.pack Format.binary64
      (UnpackedFloat.mul Format.binary64 (unpacked x) (unpacked y))) :=
  rfl

/-- A quotient is computed on what its parts are unpacked to, and packed. -/
theorem unpacked_div (x y : Float) :
    unpacked (x / y) = UnpackedFloat.unpack Format.binary64 (UnpackedFloat.pack Format.binary64
      (UnpackedFloat.div Format.binary64 (unpacked x) (unpacked y))) :=
  rfl

section WholeNumbers

/-- A whole number is rounded to the double nearest to it. -/
theorem ofNat_eq_nearest (k : ℕ) : UnpackedFloat.ofNat Format.binary64 k = nearest k := by
  rcases Nat.eq_zero_or_pos k with rfl | hk
  · rw [Nat.cast_zero, nearest_zero]
    rfl
  · have hcompare : compare (k : ℤ) 0 = .gt := Int.compare_eq_gt.mpr (by exact_mod_cast hk)
    simp only [UnpackedFloat.ofNat, UnpackedFloat.ofInt, UnpackedFloat.normalize, hcompare,
      Int.toNat_natCast]
    rw [round_eq_nearest hk, zpow_zero, mul_one]

/-- A product of finite numbers is rounded from the exact product. -/
theorem mul_finite {m n : ℕ} (hm : 0 < m) (hn : 0 < n) (e f : ℤ) :
    UnpackedFloat.mul Format.binary64 (.finite .positive m e hm) (.finite .positive n f hn) =
      roundWithAccuracy Format.binary64 .positive (m * n) (e + f) .exact :=
  rfl

/-- A product with one is the other number. -/
theorem Regular.mul_one {u : UnpackedFloat} (h : Regular u) :
    UnpackedFloat.mul Format.binary64 u (.finite .positive (2 ^ 52) (-52) (by decide)) = u := by
  cases h with
  | zero => rfl
  | infinity => rfl
  | @finite m e hm h =>
    have hvalue : ((m * 2 ^ 52 : ℕ) : ℚ) * 2 ^ (e + -52) = m * 2 ^ e := by
      rw [zpow_add₀ two_ne_zero, zpow_neg]
      push_cast
      field_simp
    have hplace : e + -52 ≤ placeOf ((m * 2 ^ 52 : ℕ) * 2 ^ (e + -52)) := by
      rw [hvalue, h.placeOf_eq hm]
      omega
    rw [mul_finite, roundWithAccuracy_exact (by positivity) hplace, hvalue, h.nearest_eq hm]

/-- A word as a double is rounded and packed. -/
theorem unpacked_toFloat (n : UInt64) : unpacked n.toFloat = limited (nearest n.toNat) := by
  change UnpackedFloat.unpack _ (UnpackedFloat.pack _ (UnpackedFloat.ofNat _ n.toNat)) = _
  rw [ofNat_eq_nearest]
  exact (regular_nearest n.toNat.cast_nonneg).unpack_pack

/-- The double one. -/
theorem unpacked_one : unpacked (Float.ofBits 0x3FF0000000000000) =
    .finite .positive (2 ^ 52) (-52) (by decide) :=
  rfl

/-- A whole number that is not zero, shifted up by the bits of a significand, is rounded to the
double nearest to it. -/
theorem ofScientific_eq_nearest {k : ℕ} (hk : 0 < k) :
    UnpackedFloat.ofScientific Format.binary64 k 0 = nearest k := by
  have hvalue : (((k <<< 53) * 10 ^ 0 : ℕ) : ℚ) * 2 ^ (-53 + 0 : ℤ) = k := by
    rw [Nat.shiftLeft_eq, add_zero, zpow_neg]
    push_cast
    field_simp
  have hone : (1 : ℚ) ≤ k := by exact_mod_cast hk
  have hlog : 0 ≤ Int.log 2 (k : ℚ) := by
    rw [← Int.zpow_le_iff_le_log one_lt_two (zero_lt_one.trans_le hone), zpow_zero]
    exact hone
  have hplace : (-53 + 0 : ℤ) ≤ placeOf (((k <<< 53) * 10 ^ 0 : ℕ) * 2 ^ (-53 + 0 : ℤ)) := by
    rw [hvalue]
    unfold placeOf
    omega
  have hshifted : 0 < (k <<< 53) * 10 ^ 0 := by
    rw [Nat.shiftLeft_eq]
    positivity
  have hbits : Format.binary64.mantissaBits = 53 := by decide
  have hsmall : ¬ (0 : ℤ) < -(2 ^ Format.binary64.exponentBits + k.log2) := by
    rw [not_lt, neg_nonpos]
    exact add_nonneg (pow_nonneg zero_le_two _) (Int.natCast_nonneg _)
  rw [UnpackedFloat.ofScientific, dif_neg hk.ne', if_neg (by decide), if_neg hsmall,
    if_pos le_rfl, mul_finite]
  simp only [hbits]
  exact (roundWithAccuracy_exact hshifted hplace).trans (congrArg nearest hvalue)

/-- A whole number as a double is the nearest one, or infinite. -/
theorem unpacked_ofNat (k : ℕ) : unpacked (Float.ofNat k) = limited (nearest k) := by
  have hregular : Regular (nearest k) := regular_nearest k.cast_nonneg
  change unpacked (Float.ofScientific k false 0) = _
  by_cases hk : k < 2 ^ 53
  · -- A number that fits the significand is converted and multiplied by one.
    have hword : k.toUInt64.toNat = k := UInt64.toNat_ofNat_of_lt (hk.trans (by decide))
    rw [Float.ofScientific, dif_pos ⟨hk, by decide⟩]
    simp only [Bool.false_eq_true, if_false]
    change unpacked (k.toUInt64.toFloat * Float.ofBits 0x3FF0000000000000) = _
    rw [unpacked_mul, unpacked_one, unpacked_toFloat, hword, hregular.limited.mul_one,
      hregular.limited.unpack_pack, limited_limited]
  · -- A larger number is shifted to have a fraction that covers the significand.
    rw [Float.ofScientific, dif_neg (by omega)]
    change UnpackedFloat.unpack _ (UnpackedFloat.pack _ (UnpackedFloat.ofScientific _ k 0)) = _
    rw [ofScientific_eq_nearest (by omega), hregular.unpack_pack]

/-- A whole number as a double is regular. -/
theorem regular_ofNat (k : ℕ) : Regular (unpacked (Float.ofNat k)) := by
  rw [unpacked_ofNat]
  exact (regular_nearest k.cast_nonneg).limited

/-- Whole numbers keep their order as doubles. -/
theorem rank_ofNat_mono {k m : ℕ} (h : k ≤ m) :
    rank (unpacked (Float.ofNat k)) ≤ rank (unpacked (Float.ofNat m)) := by
  rw [unpacked_ofNat, unpacked_ofNat]
  apply rank_limited_mono (regular_nearest k.cast_nonneg) (regular_nearest m.cast_nonneg)
  exact rank_nearest_mono k.cast_nonneg (by exact_mod_cast h)

end WholeNumbers

section Quotients

variable {u v w : UnpackedFloat}

/-- A quotient that is a number is a regular one. -/
theorem regular_div (hu : Regular u) (hw : Regular w)
    (hnumber : UnpackedFloat.div Format.binary64 u w ≠ .notANumber) :
    Regular (UnpackedFloat.div Format.binary64 u w) := by
  cases hu with
  | zero =>
    cases hw with
    | zero => exact absurd rfl hnumber
    | finite | infinity => exact .zero
  | infinity =>
    cases hw with
    | infinity => exact absurd rfl hnumber
    | zero | finite => exact .infinity
  | @finite m e hm hu =>
    cases hw with
    | zero => exact .infinity
    | infinity => exact .zero
    | @finite n f hn hw =>
      rw [div_eq_nearest]
      exact regular_nearest (by positivity)

/-- A quotient does not rank lower when its numerator ranks higher. -/
theorem rank_div_mono (hu : Regular u) (hv : Regular v) (hw : Regular w) (h : rank u ≤ rank v)
    (hnumber : UnpackedFloat.div Format.binary64 u w ≠ .notANumber)
    (hnumber' : UnpackedFloat.div Format.binary64 v w ≠ .notANumber) :
    rank (UnpackedFloat.div Format.binary64 u w) ≤
      rank (UnpackedFloat.div Format.binary64 v w) := by
  have hregular := regular_div hu hw hnumber
  have hregular' := regular_div hv hw hnumber'
  cases hu with
  | zero =>
    cases hw with
    | zero => exact absurd rfl hnumber
    | finite | infinity => exact hregular'.rank_zero_le
  | infinity =>
    cases hv with
    | infinity => exact le_rfl
    | zero | finite => simp [rank, Prod.Lex.toLex_le_toLex] at h
  | @finite m e hm hu =>
    cases hv with
    | zero => simp [rank, Prod.Lex.toLex_le_toLex] at h
    | infinity =>
      cases hw with
      | infinity => exact absurd rfl hnumber'
      | zero | finite => exact hregular.rank_le_infinity
    | @finite n f hn hv =>
      cases hw with
      | zero | infinity => exact le_rfl
      | @finite d g hd hw =>
        rw [div_eq_nearest, div_eq_nearest]
        have hvalue := value_le_of_rank_le hm hn hu hv h
        exact rank_nearest_mono (by positivity) (by gcongr)

/-- A double that is a quotient and a number comes from a quotient that is a number. -/
theorem div_ne_notANumber {x y : Float} (h : unpacked (x / y) ≠ .notANumber) :
    UnpackedFloat.div Format.binary64 (unpacked x) (unpacked y) ≠ .notANumber := by
  intro hnone
  rw [unpacked_div, hnone] at h
  exact h unpack_packedNaN

/-- A quotient of whole numbers is not above what the quotient of a larger one is at most. -/
theorem not_lt_ofNat_div {k m : ℕ} (h : k ≤ m) (n : ℕ) {bound : Float}
    (hbound : Float.ofNat m / Float.ofNat n ≤ bound) : ¬ bound < Float.ofNat k / Float.ofNat n := by
  intro hlt
  -- Both quotients are compared with the bound, so both are numbers.
  have hk := div_ne_notANumber (lt_iff.mp hlt).2.1
  have hm := div_ne_notANumber (le_iff.mp hbound).1
  have hregular := regular_div (regular_ofNat k) (regular_ofNat n) hk
  have hregular' := regular_div (regular_ofNat m) (regular_ofNat n) hm
  apply not_lt_of_rank_le ?_ hbound hlt
  rw [unpacked_div, unpacked_div, hregular.unpack_pack, hregular'.unpack_pack]
  apply rank_limited_mono hregular hregular'
  exact rank_div_mono (regular_ofNat k) (regular_ofNat m) (regular_ofNat n) (rank_ofNat_mono h)
    hk hm

end Quotients

end CodeQuality.Double
