import CodeQuality.Outcome.Project
import CodeQuality.Proofs.Double.Packing

/-!
# The total order of doubles

Every double is a word of bits: a sign, and a magnitude that grows with the number. So the words
put all doubles into one order. It is the order of numbers, where the negative zero comes before
the positive one, and what is not a number comes last.
-/

namespace CodeQuality.Double

open Float.Model Float.Model.UnpackedFloat

section Words

/-- The part of a word that its sign makes up. -/
def signPart : Sign → ℕ
  | .positive => 0
  | .negative => 2 ^ 63

/-- A double with the sign and the magnitude of its word. -/
inductive HasWord : UnpackedFloat → Sign → ℕ → Prop
  | zero (sign : Sign) : HasWord (.zero sign) sign 0
  | finite (sign : Sign) {m : ℕ} {e : ℤ} (hm : 0 < m) (h : Canonical m e) (hlt : e < 972) :
    HasWord (.finite sign m e hm) sign ((e + 1074).toNat * 2 ^ 52 + m)
  | infinity (sign : Sign) : HasWord (.infinity sign) sign (2047 * 2 ^ 52)
  | notANumber : HasWord .notANumber .positive (2047 * 2 ^ 52 + 2 ^ 51)

/-- A word is the sum of its parts. -/
theorem toNat_packComponents (sign : Sign) (exponent : BitVec 11) (fraction : BitVec 52) :
    (packComponents Format.binary64 sign exponent fraction).toNat =
      signPart sign + (exponent.toNat * 2 ^ 52 + fraction.toNat) := by
  have happend : (sign.toBitVec ++ exponent).toNat =
      sign.toBitVec.toNat * 2 ^ 11 + exponent.toNat := by
    rw [BitVec.toNat_append, ← Nat.shiftLeft_add_eq_or_of_lt exponent.isLt, Nat.shiftLeft_eq]
  change (sign.toBitVec ++ exponent ++ fraction).toNat = _
  rw [BitVec.toNat_append, ← Nat.shiftLeft_add_eq_or_of_lt fraction.isLt, Nat.shiftLeft_eq,
    happend]
  cases sign with
  | positive => simp [Sign.toBitVec, signPart]
  | negative =>
    simp only [Sign.toBitVec, signPart, BitVec.toNat_ofNat]
    omega

/-- A word with the largest exponent is infinite or not a number. Of the latter there is only one
word. -/
theorem hasWord_special (sign : Sign) {fraction : BitVec 52}
    (hvalid : Format.binary64.Valid (packComponents Format.binary64 sign (-1#11) fraction)) :
    HasWord (UnpackedFloat.unpack Format.binary64
        (packComponents Format.binary64 sign (-1#11) fraction)) sign
      (2047 * 2 ^ 52 + fraction.toNat) := by
  by_cases hfraction : fraction = 0#52
  · subst hfraction
    cases sign <;> exact .infinity _
  · have hnan := hvalid.eq_packedNaN (by simp) (by simpa using hfraction)
    have hsign : sign = .positive := by
      have hbit := congrArg unpackSign hnan
      rw [packedNaN, unpackSign_packComponents, unpackSign_packComponents] at hbit
      rw [← Sign.ofBitVec_toBitVec sign, hbit, Sign.ofBitVec_toBitVec]
    have hmantissa : fraction = 1#52 <<< 51 := by
      have hbits := congrArg unpackMantissa hnan
      rwa [packedNaN, unpackMantissa_packComponents, unpackMantissa_packComponents] at hbits
    subst hsign hmantissa
    exact .notANumber

/-- A word with another exponent is zero or finite. -/
theorem hasWord_ordinary (sign : Sign) {exponent : BitVec 11} (h : exponent ≠ -1#11)
    (fraction : BitVec 52) :
    HasWord (UnpackedFloat.unpack Format.binary64
        (packComponents Format.binary64 sign exponent fraction)) sign
      (exponent.toNat * 2 ^ 52 + fraction.toNat) := by
  have hfraction := fraction.isLt
  by_cases hexponent : exponent = 0#11
  · subst hexponent
    rcases Nat.eq_zero_or_pos fraction.toNat with hzero | hpos
    · obtain rfl : fraction = 0#52 := BitVec.eq_of_toNat_eq hzero
      cases sign <;> exact .zero _
    · rw [unpack_packComponents_subnormal sign hpos]
      exact .finite sign hpos ⟨by omega, le_rfl, Or.inr rfl⟩ (by decide)
  · have hpos : 0 < exponent.toNat :=
      Nat.pos_of_ne_zero fun heq => hexponent (BitVec.eq_of_toNat_eq heq)
    have hlt : exponent.toNat < 2047 := by
      have hlast : exponent.toNat ≠ 2047 := fun heq => h (BitVec.eq_of_toNat_eq heq)
      have hbound := exponent.isLt
      omega
    have hword := unpack_packComponents_normal sign hpos hlt fraction
    rw [BitVec.ofNat_toNat, BitVec.setWidth_eq] at hword
    have hmagnitude : exponent.toNat * 2 ^ 52 + fraction.toNat =
        ((exponent.toNat : ℤ) - 1075 + 1074).toNat * 2 ^ 52 + (2 ^ 52 + fraction.toNat) := by
      omega
    rw [hword, hmagnitude]
    exact .finite sign _ ⟨by omega, by omega, Or.inl (by omega)⟩ (by omega)

/-- Every double has a word. -/
theorem exists_hasWord (x : Float) :
    ∃ sign word, HasWord (unpacked x) sign word ∧ x.toBits.toNat = signPart sign + word := by
  have hvalid := x.toModel.valid
  have hparts := @packComponents_unpackSign_unpackExponent_unpackMantissa Format.binary64
    x.toModel.toBits.toBitVec
  revert hparts
  generalize Sign.ofBitVec _ = sign
  generalize unpackExponent _ = exponent
  generalize unpackMantissa _ = fraction
  intro hparts
  rw [← hparts] at hvalid
  refine ⟨sign, exponent.toNat * 2 ^ 52 + fraction.toNat, ?_, ?_⟩
  · change HasWord (UnpackedFloat.unpack Format.binary64 x.toModel.toBits.toBitVec) _ _
    rw [← hparts]
    by_cases hspecial : exponent = -1#11
    · subst hspecial
      exact hasWord_special sign hvalid
    · exact hasWord_ordinary sign hspecial fraction
  · rw [← toNat_packComponents, hparts]
    rfl

/-- A magnitude leaves room for the sign. -/
theorem HasWord.lt {u : UnpackedFloat} {sign : Sign} {word : ℕ} (h : HasWord u sign word) :
    word < 2 ^ 63 := by
  cases h with
  | zero | infinity | notANumber => decide
  | finite _ hm h hlt =>
    have hsignificand := h.lt
    omega

/-- A double is what it is unpacked to. -/
theorem unpacked_injective : Function.Injective unpacked := by
  intro x y h
  have hbits := (unpack_inj_of_valid x.toModel.valid y.toModel.valid).mp h
  exact Float.toBits_inj.mp (UInt64.toBitVec_inj.mp hbits)

end Words

section Order

/-- The place of a word among all words. -/
def signedWord : Sign → ℕ → ℤ
  | .positive, word => word
  | .negative, word => -word - 1

/-- Magnitudes of finite numbers are in the order of the exponents, then of the significands. -/
theorem Canonical.word_lt_iff {m n : ℕ} {e f : ℤ} (h : Canonical m e) (h' : Canonical n f) :
    (e + 1074).toNat * 2 ^ 52 + m < (f + 1074).toNat * 2 ^ 52 + n ↔ e < f ∨ e = f ∧ m < n := by
  obtain ⟨hlt, hmin, hfull⟩ := h
  obtain ⟨hlt', hmin', hfull'⟩ := h'
  omega

namespace HasWord

variable {u v : UnpackedFloat} {sign sign' : Sign} {word word' : ℕ}

/-- The words of numbers are in the order of the numbers, and tell zeros apart. -/
theorem signedWord_lt_iff (hu : HasWord u sign word) (hv : HasWord v sign' word')
    (hnumber : u ≠ .notANumber) (hnumber' : v ≠ .notANumber) :
    signedWord sign word < signedWord sign' word' ↔
      rank u < rank v ∨ (u = .zero .negative ∧ v = .zero .positive) := by
  cases hu with
  | notANumber => exact absurd rfl hnumber
  | zero =>
    cases hv with
    | notANumber => exact absurd rfl hnumber'
    | zero => cases sign <;> cases sign' <;> simp [signedWord, rank]
    | infinity => cases sign <;> cases sign' <;> simp [signedWord, rank, Prod.Lex.toLex_lt_toLex]
    | finite _ hm =>
      cases sign <;> cases sign' <;> simp [signedWord, rank, Prod.Lex.toLex_lt_toLex] <;> omega
  | infinity =>
    cases hv with
    | notANumber => exact absurd rfl hnumber'
    | zero | infinity =>
      cases sign <;> cases sign' <;> simp [signedWord, rank, Prod.Lex.toLex_lt_toLex]
    | finite _ hm h hlt =>
      have hsignificand := h.lt
      cases sign <;> cases sign' <;> simp [signedWord, rank, Prod.Lex.toLex_lt_toLex] <;> omega
  | finite _ hm h hlt =>
    have hsignificand := h.lt
    cases hv with
    | notANumber => exact absurd rfl hnumber'
    | zero | infinity =>
      cases sign <;> cases sign' <;> simp [signedWord, rank, Prod.Lex.toLex_lt_toLex] <;> omega
    | finite _ hm' h' =>
      -- Two negative numbers are in the order opposite to that of their magnitudes.
      have hword := h.word_lt_iff h'
      have hword' := h'.word_lt_iff h
      cases sign <;> cases sign' <;> simp [signedWord, rank, Prod.Lex.toLex_lt_toLex] <;> omega

/-- What is not a number has the last word. -/
theorem signedWord_lt_notANumber (hu : HasWord u sign word) (hnumber : u ≠ .notANumber) :
    signedWord sign word < signedWord .positive (2047 * 2 ^ 52 + 2 ^ 51) := by
  cases hu with
  | notANumber => exact absurd rfl hnumber
  | zero | infinity => cases sign <;> decide
  | finite _ hm h hlt =>
    have hsignificand := h.lt
    cases sign <;> simp only [signedWord] <;> omega

end HasWord

/-- The key of a double is the place of its word. -/
theorem orderKey_eq {x : Float} {sign : Sign} {word : ℕ} (h : HasWord (unpacked x) sign word)
    (hbits : x.toBits.toNat = signPart sign + word) :
    ProjectOutcome.orderKey x = signedWord sign word := by
  have hlt := h.lt
  simp only [ProjectOutcome.orderKey, Decimal.signBit, hbits]
  cases sign with
  | positive =>
    rw [if_pos (by simp only [signPart]; omega)]
    simp [signPart, signedWord]
  | negative =>
    rw [if_neg (by simp only [signPart]; omega)]
    simp only [signPart, signedWord]
    omega

theorem isNaN_iff_unpacked {x : Float} : x.isNaN = true ↔ unpacked x = .notANumber :=
  isNaN_iff

/-- The double comes before the other one in the total order: it is less, or it is the negative
one of two zeros, or it is a number and the other one is not. -/
def Precedes (x y : Float) : Prop :=
  x < y ∨ (x = -0.0 ∧ y = 0.0) ∨ (¬ x.isNaN ∧ y.isNaN)

/-- The total order by what the doubles are unpacked to. -/
theorem precedes_iff {x y : Float} :
    Precedes x y ↔ x < y ∨ (unpacked x = .zero .negative ∧ unpacked y = .zero .positive) ∨
      (unpacked x ≠ .notANumber ∧ unpacked y = .notANumber) := by
  have hnegative : x = -0.0 ↔ unpacked x = .zero .negative := unpacked_injective.eq_iff.symm
  have hpositive : y = 0.0 ↔ unpacked y = .zero .positive := unpacked_injective.eq_iff.symm
  rw [Precedes, isNaN_iff_unpacked, isNaN_iff_unpacked, hnegative, hpositive]

/-- Keys are in the total order of their doubles. -/
theorem orderKey_lt_iff {x y : Float} :
    ProjectOutcome.orderKey x < ProjectOutcome.orderKey y ↔ Precedes x y := by
  obtain ⟨sign, word, hx, hbits⟩ := exists_hasWord x
  obtain ⟨sign', word', hy, hbits'⟩ := exists_hasWord y
  rw [orderKey_eq hx hbits, orderKey_eq hy hbits', precedes_iff, lt_iff]
  by_cases hnumber : unpacked x = .notANumber
  · -- Nothing has a later word than what is not a number.
    have hlast : ¬ signedWord sign word < signedWord sign' word' := by
      rw [hnumber] at hx
      cases hx
      by_cases hnumber' : unpacked y = .notANumber
      · rw [hnumber'] at hy
        cases hy
        exact lt_irrefl _
      · exact (hy.signedWord_lt_notANumber hnumber').le.not_gt
    simp [hlast, hnumber]
  · by_cases hnumber' : unpacked y = .notANumber
    · have hlast := hx.signedWord_lt_notANumber hnumber
      rw [hnumber'] at hy
      cases hy
      exact iff_of_true hlast (Or.inr (Or.inr ⟨hnumber, hnumber'⟩))
    · rw [hx.signedWord_lt_iff hy hnumber hnumber']
      simp [hnumber, hnumber']

/-- Only a double itself has the same key. -/
theorem orderKey_injective : Function.Injective ProjectOutcome.orderKey := by
  intro x y h
  obtain ⟨sign, word, hx, hbits⟩ := exists_hasWord x
  obtain ⟨sign', word', hy, hbits'⟩ := exists_hasWord y
  rw [orderKey_eq hx hbits, orderKey_eq hy hbits'] at h
  have hwords : sign = sign' ∧ word = word' := by
    cases sign <;> cases sign' <;> simp only [signedWord] at h <;> simp <;> omega
  rw [← hwords.1, ← hwords.2, ← hbits] at hbits'
  exact (Float.toBits_inj.mp (UInt64.toNat_inj.mp hbits')).symm

end Order

end CodeQuality.Double
