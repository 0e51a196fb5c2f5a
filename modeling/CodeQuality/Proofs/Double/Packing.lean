import CodeQuality.Proofs.Double.Rounding
import Mathlib

/-!
# Packing doubles

A double is a word of bits. The result of an operation is packed into such a word and unpacked
again by the next one. A regular number survives this, unless its exponent is beyond the largest
one: it is then infinite. Packing keeps regular numbers in order.

The lemmas that take a word apart are reached only through the whole library, so it is imported
whole here.
-/

namespace CodeQuality.Double

open Float.Model Float.Model.UnpackedFloat

section Words

/-- A word with an exponent between the extreme ones has one more bit in front of its fraction. -/
theorem unpack_packComponents_normal (sign : Sign) {exponent : ℕ} (hpos : 0 < exponent)
    (hlt : exponent < 2047) (fraction : BitVec 52) :
    UnpackedFloat.unpack Format.binary64
        (packComponents Format.binary64 sign (BitVec.ofNat 11 exponent) fraction) =
      .finite sign (2 ^ 52 + fraction.toNat) (exponent - 1075)
        (Nat.add_pos_left (Nat.two_pow_pos 52) _) := by
  have hexponent : (BitVec.ofNat 11 exponent).toNat = exponent := by
    rw [BitVec.toNat_ofNat, Nat.mod_eq_of_lt (by omega)]
  have hlast : BitVec.ofNat 11 exponent ≠ -1#11 := by
    intro h
    have hword := congrArg BitVec.toNat h
    rw [hexponent, BitVec.neg_one_eq_allOnes, BitVec.toNat_allOnes] at hword
    omega
  have hfirst : BitVec.ofNat 11 exponent ≠ 0#11 := by
    intro h
    have hword := congrArg BitVec.toNat h
    rw [hexponent, BitVec.toNat_zero] at hword
    omega
  have himplicit : (1#1 ++ fraction).toNat = 2 ^ 52 + fraction.toNat := by
    rw [BitVec.toNat_append, ← Nat.shiftLeft_add_eq_or_of_lt fraction.isLt]
    rfl
  simp only [UnpackedFloat.unpack, unpackExponent_packComponents, unpackMantissa_packComponents,
    unpackSign_packComponents, Sign.ofBitVec_toBitVec, if_neg hlast, if_neg hfirst, himplicit,
    hexponent]
  rfl

/-- A word with the least exponent has only its fraction. -/
theorem unpack_packComponents_subnormal (sign : Sign) {fraction : BitVec 52}
    (h : 0 < fraction.toNat) :
    UnpackedFloat.unpack Format.binary64 (packComponents Format.binary64 sign 0#11 fraction) =
      .finite sign fraction.toNat (-1074) h := by
  have hlast : 0#11 ≠ -1#11 := by decide
  have hfraction : fraction ≠ 0#52 := by
    rintro rfl
    exact absurd h (by decide)
  simp only [UnpackedFloat.unpack, unpackExponent_packComponents, unpackMantissa_packComponents,
    unpackSign_packComponents, Sign.ofBitVec_toBitVec, if_neg hlast, dif_neg hfraction]
  rfl

end Words

section Limit

/-- A number as it is after packing: a finite one beyond the largest exponent is infinite. -/
def limited : UnpackedFloat → UnpackedFloat
  | .finite sign m e h => if 972 ≤ e then .infinity sign else .finite sign m e h
  | u => u

/-- A finite number survives packing up to the largest exponent. -/
theorem limited_finite (sign : Sign) {m : ℕ} (hm : 0 < m) (e : ℤ) :
    limited (.finite sign m e hm) = if 972 ≤ e then .infinity sign else .finite sign m e hm :=
  rfl

/-- Packing a second time changes nothing. -/
@[simp] theorem limited_limited (u : UnpackedFloat) : limited (limited u) = limited u := by
  cases u with
  | notANumber | zero | infinity => rfl
  | finite sign m e h =>
    rw [limited_finite]
    split_ifs with hlarge
    · rfl
    · rw [limited_finite, if_neg hlarge]

/-- A finite number of either sign survives packing up to the largest exponent. -/
theorem Canonical.unpack_pack {m : ℕ} {e : ℤ} (h : Canonical m e) (hm : 0 < m) (sign : Sign) :
    UnpackedFloat.unpack Format.binary64
      (UnpackedFloat.pack Format.binary64 (.finite sign m e hm)) =
        limited (.finite sign m e hm) := by
  have hbias : Format.binary64.exponentBias = 1023 := by decide
  have hbits : Format.binary64.mantissaBits = 53 := by decide
  have hmin := h.le_exponent
  have hlt := h.lt
  simp only [UnpackedFloat.pack, hbias, hbits, limited_finite]
  by_cases hlarge : 972 ≤ e
  · rw [if_pos hlarge, if_pos (by push_cast; omega)]
    cases sign <;> rfl
  rw [if_neg hlarge, if_neg (by push_cast; omega)]
  by_cases hfull : 2 ^ 52 ≤ m
  · have hlog : m.log2 + 1 = 53 := by
      have hle := (Nat.le_log2 hm.ne').mpr hfull
      have hlt := (Nat.log2_lt hm.ne').mpr h.lt
      omega
    have hfraction : 2 ^ 52 + (BitVec.ofNat 52 m).toNat = m := by
      rw [BitVec.toNat_ofNat]
      omega
    rw [if_pos hlog, unpack_packComponents_normal _ (by omega) (by omega), finite.injEq]
    exact ⟨rfl, hfraction, by omega⟩
  · have hlog : m.log2 + 1 ≠ 53 := by
      have hlt := (Nat.log2_lt hm.ne').mpr (not_le.mp hfull)
      omega
    have hfraction : (BitVec.ofNat 52 m).toNat = m := by
      rw [BitVec.toNat_ofNat]
      omega
    rw [if_neg hlog, unpack_packComponents_subnormal _ (hfraction.symm ▸ hm), finite.injEq]
    exact ⟨rfl, hfraction, (h.full.resolve_left hfull).symm⟩

/-- A regular number survives packing up to the largest exponent. -/
theorem Regular.unpack_pack {u : UnpackedFloat} (h : Regular u) :
    UnpackedFloat.unpack Format.binary64 (UnpackedFloat.pack Format.binary64 u) = limited u := by
  cases h with
  | zero => rfl
  | infinity => rfl
  | finite hm h => exact h.unpack_pack hm .positive

/-- A number stays regular in packing. -/
theorem Regular.limited {u : UnpackedFloat} (h : Regular u) : Regular (limited u) := by
  cases h with
  | zero => exact .zero
  | infinity => exact .infinity
  | finite hm h =>
    rw [limited_finite]
    split_ifs
    · exact .infinity
    · exact .finite hm h

/-- Infinity is ranked above the other regular numbers. -/
theorem Regular.rank_le_infinity {u : UnpackedFloat} (h : Regular u) :
    rank u ≤ rank (.infinity .positive) := by
  cases h <;> simp [rank, Prod.Lex.toLex_le_toLex]

/-- Packing preserves the order of regular numbers. -/
theorem rank_limited_mono {u v : UnpackedFloat} (hu : Regular u) (hv : Regular v)
    (h : rank u ≤ rank v) : rank (limited u) ≤ rank (limited v) := by
  cases hu with
  | zero => exact hv.limited.rank_zero_le
  | infinity =>
    cases hv with
    | infinity => exact le_rfl
    | zero | finite => simp [rank, Prod.Lex.toLex_le_toLex] at h
  | @finite m e hm hu =>
    have hlimited := (Regular.finite hm hu).limited
    cases hv with
    | zero => simp [rank, Prod.Lex.toLex_le_toLex] at h
    | infinity => exact hlimited.rank_le_infinity
    | @finite n f hn hv =>
      by_cases hlarge : 972 ≤ f
      · rw [limited_finite _ hn, if_pos hlarge]
        exact hlimited.rank_le_infinity
      · have hsmall : ¬ 972 ≤ e := by
          rcases (rank_finite_le_iff hm hn).mp h with hlt | ⟨rfl, -⟩ <;> omega
        rwa [limited_finite, limited_finite, if_neg hlarge, if_neg hsmall]

end Limit

end CodeQuality.Double
