import CodeQuality.Proofs.Double.Total

/-!
# The values of doubles

A double stands for a rational number or for one of two infinities, unless it is not a number.
Doubles are compared by what they stand for: a comparison holds when both of them are numbers in
that order.
-/

namespace CodeQuality.Double

open Float.Model Float.Model.UnpackedFloat

/-- The rational numbers with an infinity at either end. -/
abbrev Number := WithBot (WithTop ℚ)

/-- A rational number among them. -/
def rational (q : ℚ) : Number := ((q : WithTop ℚ) : WithBot (WithTop ℚ))

@[simp] theorem rational_le {p q : ℚ} : rational p ≤ rational q ↔ p ≤ q := by
  simp [rational]

@[simp] theorem rational_ne_bot (q : ℚ) : rational q ≠ ⊥ :=
  WithBot.coe_ne_bot

@[simp] theorem rational_ne_top (q : ℚ) : rational q ≠ ⊤ :=
  fun h => WithTop.coe_ne_top (WithBot.coe_injective h)

theorem rational_injective : Function.Injective rational :=
  fun _ _ h => WithTop.coe_injective (WithBot.coe_injective h)

/-- The number that an unpacked double stands for. -/
def valueOf : UnpackedFloat → Option Number
  | .notANumber => none
  | .infinity .negative => some ⊥
  | .infinity .positive => some ⊤
  | .zero _ => some (rational 0)
  | .finite .negative m e _ => some (rational (-(m * 2 ^ e)))
  | .finite .positive m e _ => some (rational (m * 2 ^ e))

/-- The number that a double stands for, if it is one. -/
def number? (x : Float) : Option Number :=
  valueOf (unpacked x)

theorem number?_eq_none_iff {x : Float} : number? x = none ↔ unpacked x = .notANumber := by
  rw [number?]
  rcases unpacked x with (_ | _) | _ | _ | ⟨_ | _, _⟩ <;> simp [valueOf]

theorem number?_zero : number? 0 = some (rational 0) := rfl

theorem unpacked_literal_one :
    unpacked 1 = .finite .positive (2 ^ 52) (-52) (Nat.two_pow_pos 52) :=
  rfl

theorem number?_one : number? 1 = some (rational 1) := by
  rw [number?, unpacked_literal_one, valueOf]
  norm_num

section Order

/-- Positive numbers in canonical form are in the order of their exponents, then of their
significands. -/
theorem Canonical.value_le_iff {m n : ℕ} {e f : ℤ} (h : Canonical m e) (h' : Canonical n f)
    (hm : 0 < m) (hn : 0 < n) : (m * 2 ^ e : ℚ) ≤ n * 2 ^ f ↔ e < f ∨ e = f ∧ m ≤ n := by
  constructor
  · intro hle
    by_contra hrank
    rw [← rank_finite_le_iff hm hn, not_le] at hrank
    -- Equal values are rounded alike, so they have one canonical form.
    have heq := le_antisymm hle (value_le_of_rank_le hn hm h' h hrank.le)
    have hnearest := congrArg nearest heq
    rw [h.nearest_eq hm, h'.nearest_eq hn] at hnearest
    rw [hnearest] at hrank
    exact lt_irrefl _ hrank
  · intro hrank
    exact value_le_of_rank_le hm hn h h' ((rank_finite_le_iff hm hn).mpr hrank)

/-- A double in canonical form with the number that it stands for. -/
inductive Stands : UnpackedFloat → Number → Prop
  | leastInfinity : Stands (.infinity .negative) ⊥
  | negative {m : ℕ} {e : ℤ} (hm : 0 < m) (h : Canonical m e) :
    Stands (.finite .negative m e hm) (rational (-(m * 2 ^ e)))
  | zero (sign : Sign) : Stands (.zero sign) (rational 0)
  | positive {m : ℕ} {e : ℤ} (hm : 0 < m) (h : Canonical m e) :
    Stands (.finite .positive m e hm) (rational (m * 2 ^ e))
  | infinity : Stands (.infinity .positive) ⊤

theorem stands_of_number? {x : Float} {a : Number} (h : number? x = some a) :
    Stands (unpacked x) a := by
  obtain ⟨sign, word, hword, -⟩ := exists_hasWord x
  rw [number?] at h
  generalize unpacked x = u at h hword
  cases hword with
  | notANumber => cases h
  | zero => exact Option.some.inj h ▸ .zero sign
  | infinity =>
    cases sign with
    | negative => exact Option.some.inj h ▸ .leastInfinity
    | positive => exact Option.some.inj h ▸ .infinity
  | finite _ hm hcanonical =>
    cases sign with
    | negative => exact Option.some.inj h ▸ .negative hm hcanonical
    | positive => exact Option.some.inj h ▸ .positive hm hcanonical

namespace Stands

variable {u v : UnpackedFloat} {a b : Number}

/-- Numbers are in the order of the ranks of their doubles. -/
theorem le_iff (hu : Stands u a) (hv : Stands v b) : a ≤ b ↔ rank u ≤ rank v := by
  have hpositive {m : ℕ} (hm : 0 < m) (e : ℤ) : (0 : ℚ) < m * 2 ^ e := by positivity
  cases hu with
  | leastInfinity | infinity => cases hv <;> simp [rank, Prod.Lex.toLex_le_toLex]
  | zero =>
    cases hv with
    | leastInfinity | zero | infinity => simp [rank, Prod.Lex.toLex_le_toLex]
    | negative hm | positive hm =>
      simp [rank, Prod.Lex.toLex_le_toLex, hpositive hm, (hpositive hm _).le]
  | @negative m e hm h =>
    cases hv with
    | leastInfinity | infinity => simp [rank, Prod.Lex.toLex_le_toLex]
    | zero => simp [rank, Prod.Lex.toLex_le_toLex, (hpositive hm e).le]
    | negative hn h' =>
      simp [rank, Prod.Lex.toLex_le_toLex, h'.value_le_iff h hn hm, eq_comm]
    | @positive n f hn =>
      have hlt := (neg_neg_of_pos (hpositive hm e)).trans (hpositive hn f)
      simp [rank, Prod.Lex.toLex_le_toLex, hlt.le]
  | @positive m e hm h =>
    cases hv with
    | leastInfinity | infinity => simp [rank, Prod.Lex.toLex_le_toLex]
    | zero => simp [rank, Prod.Lex.toLex_le_toLex, hpositive hm e]
    | @negative n f hn =>
      have hlt := (neg_neg_of_pos (hpositive hn f)).trans (hpositive hm e)
      simp [rank, Prod.Lex.toLex_le_toLex, hlt]
    | positive hn h' =>
      simp [rank, Prod.Lex.toLex_le_toLex, h.value_le_iff h' hm hn]

theorem lt_iff (hu : Stands u a) (hv : Stands v b) : a < b ↔ rank u < rank v := by
  rw [← not_le, hv.le_iff hu, not_le]

end Stands

/-- A double is at most another one exactly when both are numbers in that order. -/
theorem le_iff_number? {x y : Float} :
    x ≤ y ↔ ∃ a ∈ number? x, ∃ b ∈ number? y, a ≤ b := by
  rw [le_iff, ne_eq, ne_eq, ← number?_eq_none_iff, ← number?_eq_none_iff]
  cases hx : number? x with
  | none => simp
  | some a =>
    cases hy : number? y with
    | none => simp
    | some b => simp [(stands_of_number? hx).le_iff (stands_of_number? hy)]

/-- A double is less than another one exactly when both are numbers in that order. -/
theorem lt_iff_number? {x y : Float} :
    x < y ↔ ∃ a ∈ number? x, ∃ b ∈ number? y, a < b := by
  rw [lt_iff, ne_eq, ne_eq, ← number?_eq_none_iff, ← number?_eq_none_iff]
  cases hx : number? x with
  | none => simp
  | some a =>
    cases hy : number? y with
    | none => simp
    | some b => simp [(stands_of_number? hx).lt_iff (stands_of_number? hy)]

/-- Of two numbers that are not in one order, the second one is at most the first one. -/
theorem le_of_not_lt {x y : Float} (hx : x.isNaN = false) (hy : y.isNaN = false) (h : ¬ x < y) :
    y ≤ x := by
  have hnumber {z : Float} (hz : z.isNaN = false) : ∃ a, number? z = some a := by
    rw [← Option.ne_none_iff_exists', ne_eq, number?_eq_none_iff, ← isNaN_iff_unpacked, hz]
    exact Bool.false_ne_true
  obtain ⟨a, ha⟩ := hnumber hx
  obtain ⟨b, hb⟩ := hnumber hy
  rw [lt_iff_number?] at h
  rw [le_iff_number?]
  exact ⟨b, hb, a, ha, not_lt.mp fun hlt => h ⟨a, ha, b, hb, hlt⟩⟩

end Order

end CodeQuality.Double
