import CodeQuality.Proofs.Double.Quotient
import CodeQuality.Proofs.Double.Value

/-!
# Sums and distances of doubles

The sum of two positive doubles is the double nearest to their exact sum, and their distance is
the double nearest to their exact distance, both up to the largest exponent. So a sum of doubles
that are not negative is a number and not negative either.
-/

namespace CodeQuality.Double

open Float.Model Float.Model.UnpackedFloat

section Exact

/-- A number keeps its value when its exponent is lowered. -/
theorem decreaseExponent_value (m : ℕ) {e place : ℤ} (h : place ≤ e) :
    ((decreaseExponent m e place).1 : ℚ) * 2 ^ place = m * 2 ^ e := by
  have hshift : (2 : ℚ) ^ e = 2 ^ (e - place).toNat * 2 ^ place := by
    rw [← zpow_natCast, ← zpow_add₀ two_ne_zero]
    congr 1
    omega
  rw [hshift, decreaseExponent, Nat.shiftLeft_eq]
  push_cast
  ring

/-- The sign of a number does not matter for the magnitude that it is rounded to. -/
theorem abs_round (sign : Sign) {m : ℕ} (hm : 0 < m) (e : ℤ) :
    (UnpackedFloat.round Format.binary64 sign m e).abs = nearest (m * 2 ^ e) := by
  rw [← round_eq_nearest hm]
  simp only [UnpackedFloat.round, roundWithAccuracy]
  split <;> rfl

/-- A whole number in units of a place is rounded to the nearest double. -/
theorem normalize_natCast (k : ℕ) (place : ℤ) :
    UnpackedFloat.normalize Format.binary64 k place .positive = nearest (k * 2 ^ place) := by
  rcases Nat.eq_zero_or_pos k with rfl | hk
  · simp [UnpackedFloat.normalize]
  · have hcompare : compare (k : ℤ) 0 = .gt := Int.compare_eq_gt.mpr (by omega)
    simp only [UnpackedFloat.normalize, hcompare, Int.toNat_natCast]
    exact round_eq_nearest hk place

/-- An integer in units of a place is rounded to the double nearest in magnitude. -/
theorem abs_normalize (k place : ℤ) :
    (UnpackedFloat.normalize Format.binary64 k place .positive).abs =
      nearest (|(k : ℚ)| * 2 ^ place) := by
  have hmagnitude : |(k : ℚ)| = (k.natAbs : ℚ) := by rw [Nat.cast_natAbs, Int.cast_abs]
  rw [hmagnitude]
  rcases lt_trichotomy k 0 with hk | rfl | hk
  · have hcompare : compare k 0 = .lt := Int.compare_eq_lt.mpr hk
    have hnat : (-k).toNat = k.natAbs := by omega
    simp only [UnpackedFloat.normalize, hcompare, hnat]
    exact abs_round .negative (by omega) place
  · simp [UnpackedFloat.normalize, UnpackedFloat.abs]
  · have hcompare : compare k 0 = .gt := Int.compare_eq_gt.mpr hk
    have hnat : k.toNat = k.natAbs := by omega
    simp only [UnpackedFloat.normalize, hcompare, hnat]
    exact abs_round .positive (by omega) place

/-- The sum of two positive numbers is rounded from the exact sum. -/
theorem add_finite {m n : ℕ} (hm : 0 < m) (hn : 0 < n) (e f : ℤ) :
    UnpackedFloat.add Format.binary64 (.finite .positive m e hm) (.finite .positive n f hn) =
      nearest (m * 2 ^ e + n * 2 ^ f) := by
  rw [← decreaseExponent_value m (min_le_left e f), ← decreaseExponent_value n (min_le_right e f),
    ← add_mul, ← Nat.cast_add, ← normalize_natCast, Nat.cast_add]
  rfl

/-- The distance of two positive numbers is rounded from the exact distance. -/
theorem abs_sub_finite {m n : ℕ} (hm : 0 < m) (hn : 0 < n) (e f : ℤ) :
    (UnpackedFloat.sub Format.binary64 (.finite .positive m e hm) (.finite .positive n f hn)).abs =
      nearest |m * 2 ^ e - n * 2 ^ f| := by
  have hunit : (0 : ℚ) < 2 ^ min e f := zpow_pos two_pos _
  rw [← decreaseExponent_value m (min_le_left e f), ← decreaseExponent_value n (min_le_right e f),
    ← sub_mul, abs_mul, abs_of_pos hunit]
  have habs := abs_normalize
    ((decreaseExponent m e (min e f)).1 - (decreaseExponent n f (min e f)).1) (min e f)
  rwa [Int.cast_sub, Int.cast_natCast, Int.cast_natCast] at habs

end Exact

section Packed

/-- A number of regular magnitude survives packing up to the largest exponent. -/
theorem unpack_pack_of_regular_abs {u : UnpackedFloat} (h : Regular u.abs) :
    UnpackedFloat.unpack Format.binary64 (UnpackedFloat.pack Format.binary64 u) = limited u := by
  cases u with
  | notANumber => cases h
  | infinity sign => cases sign <;> rfl
  | zero sign => cases sign <;> rfl
  | finite sign m e hm =>
    cases h with
    | finite _ hcanonical => exact hcanonical.unpack_pack hm sign

/-- Packing treats magnitudes alike. -/
theorem abs_limited (u : UnpackedFloat) : (limited u).abs = limited u.abs := by
  cases u with
  | notANumber | infinity | zero => rfl
  | finite sign m e hm =>
    simp only [limited, UnpackedFloat.abs]
    split_ifs <;> rfl

/-- A sum is computed on what its parts are unpacked to, and packed. -/
theorem unpacked_add (x y : Float) :
    unpacked (x + y) = UnpackedFloat.unpack Format.binary64 (UnpackedFloat.pack Format.binary64
      (UnpackedFloat.add Format.binary64 (unpacked x) (unpacked y))) :=
  rfl

/-- A distance is the magnitude of a difference, packed. -/
theorem unpacked_abs_sub {x y : Float}
    (h : Regular (UnpackedFloat.sub Format.binary64 (unpacked x) (unpacked y)).abs) :
    unpacked (x - y).abs =
      limited (UnpackedFloat.sub Format.binary64 (unpacked x) (unpacked y)).abs := by
  have hsub : unpacked (x - y) =
      limited (UnpackedFloat.sub Format.binary64 (unpacked x) (unpacked y)) :=
    unpack_pack_of_regular_abs h
  change UnpackedFloat.unpack Format.binary64
    (UnpackedFloat.pack Format.binary64 (unpacked (x - y)).abs) = _
  rw [hsub, abs_limited, h.limited.unpack_pack, limited_limited]

/-- Two positive doubles are as far from each other as their values, up to rounding. -/
theorem unpacked_abs_sub_finite {x y : Float} {m n : ℕ} {e f : ℤ} {hm : 0 < m} {hn : 0 < n}
    (hx : unpacked x = .finite .positive m e hm) (hy : unpacked y = .finite .positive n f hn) :
    unpacked (x - y).abs = limited (nearest |m * 2 ^ e - n * 2 ^ f|) := by
  have hregular : Regular (nearest |(m * 2 ^ e - n * 2 ^ f : ℚ)|) := regular_nearest (abs_nonneg _)
  rw [← abs_sub_finite hm hn, ← hx, ← hy] at hregular ⊢
  exact unpacked_abs_sub hregular

end Packed

section Nonnegative

/-- A double is not negative when it is the negative zero or regular. -/
theorem zero_le_iff {x : Float} :
    0 ≤ x ↔ unpacked x = .zero .negative ∨ Regular (unpacked x) := by
  rw [le_iff_number?]
  constructor
  · rintro ⟨a, ha, b, hb, hle⟩
    obtain rfl : rational 0 = a := Option.some.inj (number?_zero.symm.trans ha)
    have hstands := stands_of_number? hb
    generalize unpacked x = u at hstands
    cases hstands with
    | leastInfinity => simp at hle
    | negative hm =>
      rw [rational_le, neg_nonneg] at hle
      exact absurd hle (not_le_of_gt (by positivity))
    | zero sign =>
      cases sign with
      | negative => exact Or.inl rfl
      | positive => exact Or.inr .zero
    | positive hm h => exact Or.inr (.finite hm h)
    | infinity => exact Or.inr .infinity
  · intro h
    refine ⟨rational 0, number?_zero, ?_⟩
    simp only [number?]
    generalize unpacked x = u at h
    rcases h with rfl | h
    · exact ⟨rational 0, rfl, le_rfl⟩
    · cases h with
      | zero => exact ⟨rational 0, rfl, le_rfl⟩
      | infinity => exact ⟨⊤, rfl, le_top⟩
      | finite hm => exact ⟨_, rfl, rational_le.mpr (by positivity)⟩

/-- A zero of either sign adds nothing to a regular number. -/
theorem Regular.zero_add {u : UnpackedFloat} (h : Regular u) (sign : Sign) :
    UnpackedFloat.add Format.binary64 (.zero sign) u = u := by
  cases h <;> cases sign <;> rfl

theorem Regular.add_zero {u : UnpackedFloat} (h : Regular u) (sign : Sign) :
    UnpackedFloat.add Format.binary64 u (.zero sign) = u := by
  cases h <;> cases sign <;> rfl

/-- The sum of regular numbers is regular. -/
theorem Regular.add {u v : UnpackedFloat} (hu : Regular u) (hv : Regular v) :
    Regular (UnpackedFloat.add Format.binary64 u v) := by
  cases hu with
  | zero => rwa [hv.zero_add]
  | infinity => cases hv <;> exact .infinity
  | finite hm h =>
    cases hv with
    | zero => exact .finite hm h
    | infinity => exact .infinity
    | finite hn h' =>
      rw [add_finite]
      exact regular_nearest (by positivity)

/-- The sum of two doubles that are not negative is not negative. -/
theorem zero_le_add {x y : Float} (hx : 0 ≤ x) (hy : 0 ≤ y) : 0 ≤ x + y := by
  rw [zero_le_iff] at hx hy ⊢
  rw [unpacked_add]
  rcases hx with hx | hx
  · rw [hx]
    rcases hy with hy | hy
    · rw [hy]
      exact Or.inl rfl
    · rw [hy.zero_add, hy.unpack_pack]
      exact Or.inr hy.limited
  · have hregular : Regular (UnpackedFloat.add Format.binary64 (unpacked x) (unpacked y)) := by
      rcases hy with hy | hy
      · rwa [hy, hx.add_zero]
      · exact hx.add hy
    rw [hregular.unpack_pack]
    exact Or.inr hregular.limited

/-- A sum of doubles that are not negative is not negative. -/
theorem zero_le_foldl_add {xs : List Float} (h : ∀ x ∈ xs, 0 ≤ x) {start : Float}
    (hstart : 0 ≤ start) : 0 ≤ xs.foldl (· + ·) start := by
  induction xs generalizing start with
  | nil => exact hstart
  | cons x xs ih =>
    refine ih (fun y hy => h y (List.mem_cons_of_mem x hy)) ?_
    exact zero_le_add hstart (h x List.mem_cons_self)

end Nonnegative

end CodeQuality.Double
