import CodeQuality.Config.Validation
import CodeQuality.Proofs.Double.Sum

/-!
# Valid configurations

A configuration is valid when each of its numbers meets its condition, and otherwise the first
condition that fails is reported. The conditions are on the numbers that the doubles stand for:
a double that is not a number is no ratio and no weight, but it passes for a saturation. The sum of
the weights is compared with the double next to a hundredth, which decides the same as a hundredth.
-/

namespace CodeQuality

open Double Float.Model Float.Model.UnpackedFloat

section Numbers

/-- The double is a number from zero to one. -/
def IsShare (x : Float) : Prop :=
  ∃ n ∈ number? x, rational 0 ≤ n ∧ n ≤ rational 1

/-- The double is a number that differs from one by at most a hundredth. -/
def IsNearOne (x : Float) : Prop :=
  ∃ q : ℚ, number? x = some (rational q) ∧ |q - 1| ≤ 1 / 100

theorem inUnit_iff {x : Float} : inUnit x = true ↔ IsShare x := by
  rw [inUnit, Bool.and_eq_true, decide_eq_true_iff, decide_eq_true_iff, le_iff_number?,
    le_iff_number?, number?_zero, number?_one, IsShare]
  simp only [Option.mem_some_iff, exists_eq_left']
  cases number? x <;> simp

end Numbers

section Tolerance

/-- The tolerance as it is unpacked: a little more than a hundredth. -/
theorem unpacked_tolerance : unpacked weightSumTolerance =
    .finite .positive 5764607523034235 (-59) (Nat.succ_pos _) :=
  rfl

/-- Doubles from one half on are whole numbers in units of the same place. -/
theorem exists_units_of_le {m : ℕ} {e : ℤ} (h : Canonical m e)
    (hle : (1 / 2 : ℚ) ≤ m * 2 ^ e) : ∃ k : ℕ, (m * 2 ^ e : ℚ) = k / 2 ^ 53 := by
  have hexponent : -53 ≤ e := by
    by_contra hlow
    have hm : (m : ℚ) < 2 ^ 53 := by exact_mod_cast h.lt
    have hunit : (2 : ℚ) ^ e ≤ 2 ^ (-54 : ℤ) := zpow_le_zpow_right₀ one_le_two (by omega)
    have hproduct : (m * 2 ^ e : ℚ) < 2 ^ 53 * 2 ^ (-54 : ℤ) :=
      mul_lt_mul hm hunit (zpow_pos two_pos e) (by positivity)
    norm_num at hproduct
    linarith
  refine ⟨m * 2 ^ (e + 53).toNat, ?_⟩
  have hshift : (2 : ℚ) ^ (e + 53).toNat = 2 ^ e * 2 ^ 53 := by
    rw [← zpow_natCast, Int.toNat_of_nonneg (by omega), zpow_add₀ two_ne_zero]
    rfl
  push_cast
  rw [hshift]
  field_simp

/-- Among the distances of doubles from one, the first one above a hundredth is above the
tolerance too. -/
theorem le_distance_of_lt {m : ℕ} {e : ℤ} (h : Canonical m e)
    (hlt : (1 / 100 : ℚ) < |(m : ℚ) * 2 ^ e - 1|) :
    ((5764607523034240 : ℕ) : ℚ) * 2 ^ (-59 : ℤ) ≤ |(m : ℚ) * 2 ^ e - 1| := by
  rcases lt_or_ge ((m : ℚ) * 2 ^ e) (1 / 2) with hsmall | hlarge
  · rw [abs_of_neg (by linarith)]
    norm_num
    linarith
  · obtain ⟨k, hk⟩ := exists_units_of_le h hlarge
    have hunit : (0 : ℚ) < 2 ^ 53 := by positivity
    have hdistance : |(k : ℚ) / 2 ^ 53 - 1| = ((|(k : ℤ) - 2 ^ 53| : ℤ) : ℚ) / 2 ^ 53 := by
      have hdifference : (k : ℚ) / 2 ^ 53 - 1 = (k - 2 ^ 53) / 2 ^ 53 := by ring
      rw [hdifference, abs_div, abs_of_pos hunit]
      norm_cast
    rw [hk, hdistance] at hlt ⊢
    generalize |(k : ℤ) - 2 ^ 53| = z at hlt ⊢
    have hunits : 2 ^ 53 < 100 * z := by
      rw [lt_div_iff₀ hunit] at hlt
      have : (2 ^ 53 : ℚ) < 100 * z := by linarith
      exact_mod_cast this
    have hleast : (90071992547410 : ℚ) ≤ z := by
      exact_mod_cast (by omega : (90071992547410 : ℤ) ≤ z)
    rw [le_div_iff₀ hunit]
    norm_num
    linarith

/-- A double that is rounded from a distance exceeds the tolerance exactly when the distance is
more than a hundredth. -/
theorem tolerance_lt_iff_of_rounded {x : Float} {d : ℚ} (hd : 0 ≤ d)
    (hgap : 1 / 100 < d → ((5764607523034240 : ℕ) : ℚ) * 2 ^ (-59 : ℤ) ≤ d)
    (hx : unpacked x = limited (nearest d)) : weightSumTolerance < x ↔ 1 / 100 < d := by
  have hregular : Regular (limited (nearest d)) := (regular_nearest hd).limited
  have hnumber : limited (nearest d) ≠ .notANumber := by
    intro h
    rw [h] at hregular
    cases hregular
  -- Both the tolerance and the number next to it are doubles, so rounding keeps them.
  have hfits {m : ℕ} (hm : 0 < m) (h : Canonical m (-59)) :
      limited (nearest (m * 2 ^ (-59 : ℤ))) = .finite .positive m (-59) hm := by
    rw [h.nearest_eq hm]
    rfl
  have hmono {p q : ℚ} (hp : 0 ≤ p) (h : p ≤ q) :
      rank (limited (nearest p)) ≤ rank (limited (nearest q)) :=
    rank_limited_mono (regular_nearest hp) (regular_nearest (hp.trans h)) (rank_nearest_mono hp h)
  rw [lt_iff, hx, unpacked_tolerance]
  constructor
  · rintro ⟨-, -, hrank⟩
    by_contra hle
    have hbelow : d ≤ ((5764607523034235 : ℕ) : ℚ) * 2 ^ (-59 : ℤ) := by
      norm_num
      linarith
    have hrank' := hmono hd hbelow
    rw [hfits (Nat.succ_pos _) ⟨by decide, by decide, Or.inl (by decide)⟩] at hrank'
    exact absurd hrank hrank'.not_gt
  · intro hlt
    refine ⟨by simp, hnumber, ?_⟩
    have hrank' := hmono (by positivity) (hgap hlt)
    rw [hfits (Nat.succ_pos _) ⟨by decide, by decide, Or.inl (by decide)⟩] at hrank'
    refine lt_of_lt_of_le ?_ hrank'
    simp [rank, Prod.Lex.toLex_lt_toLex]

/-- A double that is not negative is further from one than the tolerance exactly when it is not
near one. -/
theorem tolerance_lt_iff {x : Float} (h : 0 ≤ x) :
    weightSumTolerance < (x - 1).abs ↔ ¬ IsNearOne x := by
  have hnear {q : ℚ} (hq : number? x = some (rational q)) : IsNearOne x ↔ |q - 1| ≤ 1 / 100 := by
    rw [IsNearOne, hq]
    simp [rational_injective.eq_iff]
  have hone : Canonical (2 ^ 52) (-52) := ⟨by decide, by decide, Or.inl le_rfl⟩
  have hvalue : ((2 ^ 52 : ℕ) : ℚ) * 2 ^ (-52 : ℤ) = 1 := by norm_num
  have hzero {sign : Sign} (hu : unpacked x = .zero sign) :
      weightSumTolerance < (x - 1).abs ↔ ¬ IsNearOne x := by
    have hsub : (UnpackedFloat.sub Format.binary64 (unpacked x) (unpacked 1)).abs =
        nearest |(0 - 1 : ℚ)| := by
      rw [hu, unpacked_literal_one, zero_sub, abs_neg, abs_one, ← hvalue, hone.nearest_eq]
      cases sign <;> rfl
    have hdistance := unpacked_abs_sub (hsub ▸ regular_nearest (abs_nonneg _))
    rw [hsub] at hdistance
    rw [tolerance_lt_iff_of_rounded (abs_nonneg _) (by norm_num) hdistance,
      hnear (by rw [number?, hu, valueOf]), not_le]
  rcases zero_le_iff.mp h with hu | hregular
  · exact hzero hu
  · generalize hu : unpacked x = u at hregular
    cases hregular with
    | zero => exact hzero hu
    | finite hm hcanonical =>
      have hdistance := unpacked_abs_sub_finite hu unpacked_literal_one
      rw [hvalue] at hdistance
      rw [tolerance_lt_iff_of_rounded (abs_nonneg _) (le_distance_of_lt hcanonical) hdistance,
        hnear (by rw [number?, hu, valueOf]), not_le]
    | infinity =>
      have hsub : (UnpackedFloat.sub Format.binary64 (unpacked x) (unpacked 1)).abs =
          .infinity .positive := by
        rw [hu, unpacked_literal_one]
        rfl
      have hdistance := unpacked_abs_sub (hsub ▸ Regular.infinity)
      rw [hsub] at hdistance
      refine iff_of_true ?_ ?_
      · rw [lt_iff, hdistance, unpacked_tolerance]
        simp [limited, rank, Prod.Lex.toLex_lt_toLex]
      · rintro ⟨q, hq, -⟩
        rw [number?, hu] at hq
        exact rational_ne_top q (Option.some.inj hq).symm

end Tolerance

section Checks

/-- A condition with the fault that is reported where it fails. -/
structure Check where
  holds : Prop
  fault : ConfigFault

/-- What checks that are made one after the other report: the first fault, if there is one. -/
inductive Reports : List Check → Except ConfigFault Unit → Prop
  | nil : Reports [] (.ok ())
  | pass {check : Check} {checks : List Check} {outcome : Except ConfigFault Unit}
    (h : check.holds) (rest : Reports checks outcome) : Reports (check :: checks) outcome
  | fail {check : Check} {checks : List Check} (h : ¬ check.holds) :
    Reports (check :: checks) (.error check.fault)

/-- The fault of a check that fails while all checks before it hold. -/
def FirstFault (checks : List Check) (fault : ConfigFault) : Prop :=
  ∃ before check after, checks = before ++ check :: after ∧
    (∀ earlier ∈ before, earlier.holds) ∧ ¬ check.holds ∧ check.fault = fault

namespace Reports

variable {checks rest : List Check} {outcome : Except ConfigFault Unit}

theorem eq_ok_iff (h : Reports checks outcome) :
    outcome = .ok () ↔ ∀ check ∈ checks, check.holds := by
  induction h with
  | nil => simp
  | pass h _ ih => simp [ih, h]
  | fail h => simp [h]

theorem eq_error_iff (h : Reports checks outcome) {fault : ConfigFault} :
    outcome = .error fault ↔ FirstFault checks fault := by
  induction h with
  | nil => simp [FirstFault]
  | @pass check checks outcome h _ ih =>
    rw [ih]
    constructor
    · rintro ⟨before, failing, after, rfl, hbefore, hfailing⟩
      exact ⟨check :: before, failing, after, rfl, List.forall_mem_cons.mpr ⟨h, hbefore⟩, hfailing⟩
    · rintro ⟨before, failing, after, hchecks, hbefore, hfailing⟩
      cases before with
      | nil =>
        obtain ⟨rfl, rfl⟩ := List.cons.inj hchecks
        exact absurd h hfailing.1
      | cons first before =>
        obtain ⟨rfl, rfl⟩ := List.cons.inj hchecks
        exact ⟨before, failing, after, rfl, (List.forall_mem_cons.mp hbefore).2, hfailing⟩
  | @fail check checks h =>
    constructor
    · intro hfault
      exact ⟨[], check, checks, rfl, by simp, h, Except.error.inj hfault⟩
    · rintro ⟨before, failing, after, hchecks, hbefore, -, rfl⟩
      cases before with
      | nil => rw [(List.cons.inj hchecks).1]
      | cons first before =>
        obtain ⟨rfl, rfl⟩ := List.cons.inj hchecks
        exact absurd (hbefore _ List.mem_cons_self) h

/-- Checks that pass are followed by the others. -/
theorem append (hchecks : ∀ check ∈ checks, check.holds) (hrest : Reports rest outcome) :
    Reports (checks ++ rest) outcome := by
  induction checks with
  | nil => exact hrest
  | cons check checks ih =>
    obtain ⟨hcheck, hchecks⟩ := List.forall_mem_cons.mp hchecks
    exact .pass hcheck (ih hchecks)

/-- Checks after a fault are not made. -/
theorem append_of_error {fault : ConfigFault} (h : Reports checks (.error fault)) :
    Reports (checks ++ rest) (.error fault) := by
  generalize houtcome : Except.error fault = outcome at h
  induction h with
  | nil => cases houtcome
  | pass h _ ih => exact .pass h (ih houtcome)
  | fail h => exact .fail h

/-- A check is made by a test for its failure. -/
theorem ite {check : Check} {failing : Prop} [Decidable failing]
    (hfailing : failing ↔ ¬ check.holds) (hrest : Reports rest outcome) :
    Reports (check :: rest) (if failing then .error check.fault else outcome) := by
  split_ifs with h
  · exact .fail (hfailing.mp h)
  · exact .pass (not_not.mp (mt hfailing.mpr h)) hrest

/-- Where one item of a list fails its check, the first such item is reported. -/
theorem of_find? {α : Type} {items : List α} {test : α → Bool} {check : α → Check}
    (htest : ∀ item, test item = true ↔ (check item).holds) {item : α}
    (h : items.find? (fun item => !test item) = some item) :
    Reports (items.map check) (.error (check item).fault) := by
  induction items with
  | nil => cases h
  | cons first items ih =>
    by_cases hfirst : test first = true
    · refine .pass ((htest first).mp hfirst) (ih ?_)
      simpa [List.find?_cons, hfirst] using h
    · obtain rfl : first = item := by simpa [List.find?_cons, hfirst] using h
      exact .fail fun hholds => hfirst ((htest first).mpr hholds)

end Reports

end Checks

section Validation

theorem isShare_of_find?_eq_none {α : Type} {items : List α} {value : α → Float}
    (h : items.find? (fun item => !inUnit (value item)) = none) :
    ∀ item ∈ items, IsShare (value item) := by
  intro item hitem
  rw [← inUnit_iff]
  simpa using List.find?_eq_none.mp h item hitem

/-- What the weights have to meet, in the order of the metrics and then as a whole. -/
def Weights.checks (weights : Weights) : List Check :=
  (MetricKind.all.map fun kind =>
      ⟨IsShare (weights.of kind), .weightRange kind (weights.of kind)⟩) ++
    [⟨IsNearOne weights.sum, .weightSum weights.sum⟩]

theorem Weights.zero_le_sum {weights : Weights}
    (h : ∀ kind ∈ MetricKind.all, IsShare (weights.of kind)) : 0 ≤ weights.sum := by
  refine zero_le_foldl_add ?_ (zero_le_iff.mpr (Or.inl rfl))
  intro weight hweight
  obtain ⟨kind, hkind, rfl⟩ := List.mem_map.mp hweight
  obtain ⟨n, hn, hzero, -⟩ := h kind hkind
  exact le_iff_number?.mpr ⟨_, number?_zero, n, hn, hzero⟩

theorem Weights.reports (weights : Weights) : Reports weights.checks weights.validate := by
  rw [validate, checks]
  split
  next kind hkind => exact (Reports.of_find? (fun _ => inUnit_iff) hkind).append_of_error
  next hnone =>
    have hshares := isShare_of_find?_eq_none hnone
    refine .append (List.forall_mem_map.mpr hshares) (.ite ?_ .nil)
    exact tolerance_lt_iff (zero_le_sum hshares)

/-- The weights that stand where none are configured are valid. -/
theorem Weights.validate_default : Weights.validate {} = .ok () := by
  have hnone : MetricKind.all.find? (fun kind => !inUnit (Weights.of {} kind)) = none := rfl
  have hsum : ¬ weightSumTolerance < (Weights.sum {} - 1).abs := by decide +kernel
  rewrite [validate, hnone]
  exact if_neg hsum

namespace Thresholds

variable (thresholds : Thresholds)

/-- The lower end of the band of comment ratios is not above the upper one. -/
def HasCommentBand : Prop :=
  ∃ low ∈ number? thresholds.commentRatio.low, ∃ high ∈ number? thresholds.commentRatio.high,
    low ≤ high

/-- The saturations are positive as far as they are numbers. -/
def HasSaturations : Prop :=
  (∀ n ∈ number? thresholds.complexity.saturation, rational 0 < n) ∧
    ∀ n ∈ number? thresholds.functionLength.saturation, rational 0 < n

/-- The range of block lengths holds a positive length. -/
def HasBlockRange : Prop :=
  1 ≤ thresholds.duplication.minBlockLines ∧
    thresholds.duplication.minBlockLines ≤ thresholds.duplication.maxBlockLines

/-- What the thresholds have to meet: the ratios, then the ranges. -/
def checks : List Check :=
  (thresholds.ratios.map fun ratio => ⟨IsShare ratio.2, .ratioRange ratio.1 ratio.2⟩) ++
    [⟨thresholds.HasCommentBand, .commentBand⟩,
     ⟨thresholds.HasSaturations, .saturation⟩,
     ⟨thresholds.HasBlockRange, .blockRange thresholds.duplication.minBlockLines
        thresholds.duplication.maxBlockLines⟩]

theorem high_lt_low_iff (hlow : IsShare thresholds.commentRatio.low)
    (hhigh : IsShare thresholds.commentRatio.high) :
    thresholds.commentRatio.high < thresholds.commentRatio.low ↔ ¬ thresholds.HasCommentBand := by
  obtain ⟨low, hlow, -⟩ := hlow
  obtain ⟨high, hhigh, -⟩ := hhigh
  rw [lt_iff_number?, HasCommentBand, hlow, hhigh]
  simp

theorem saturation_le_zero_iff :
    (thresholds.complexity.saturation ≤ 0 || thresholds.functionLength.saturation ≤ 0) = true ↔
      ¬ thresholds.HasSaturations := by
  have hnot (x : Float) : x ≤ 0 ↔ ¬ ∀ n ∈ number? x, rational 0 < n := by
    rw [le_iff_number?, number?_zero]
    simp
  rw [Bool.or_eq_true, decide_eq_true_iff, decide_eq_true_iff, hnot, hnot, HasSaturations,
    not_and_or]

theorem reports : Reports thresholds.checks thresholds.validate := by
  rw [validate, checks]
  split
  next name value hratio =>
    exact (Reports.of_find? (fun _ => inUnit_iff) hratio).append_of_error
  next hnone =>
    have hshares := isShare_of_find?_eq_none hnone
    refine .append (List.forall_mem_map.mpr hshares) (.ite ?_ (.ite ?_ (.ite ?_ .nil)))
    · exact thresholds.high_lt_low_iff (hshares ("comment_ratio.low", _) (by simp [ratios]))
        (hshares ("comment_ratio.high", _) (by simp [ratios]))
    · exact thresholds.saturation_le_zero_iff
    · simp only [Bool.or_eq_true, decide_eq_true_iff, HasBlockRange]
      omega

end Thresholds

namespace Config

/-- Everything that a configuration has to meet, in the order in which it is checked. -/
def checks (config : Config) : List Check :=
  config.weights.checks ++ config.thresholds.checks

/-- The configurations that are valid. -/
structure Acceptable (config : Config) : Prop where
  weights : ∀ kind, IsShare (config.weights.of kind)
  weightSum : IsNearOne config.weights.sum
  commentLow : IsShare config.thresholds.commentRatio.low
  commentHigh : IsShare config.thresholds.commentRatio.high
  commentIdeal : IsShare config.thresholds.commentRatio.ideal
  minCoverage : IsShare config.thresholds.errorHandling.minCoverage
  similarity : IsShare config.thresholds.duplication.similarity
  minCommentRatio : IsShare config.thresholds.layout.minCommentRatio
  minBlankRatio : IsShare config.thresholds.layout.minBlankRatio
  commentBand : config.thresholds.HasCommentBand
  saturations : config.thresholds.HasSaturations
  blockRange : config.thresholds.HasBlockRange

theorem acceptable_iff {config : Config} :
    config.Acceptable ↔ ∀ check ∈ config.checks, check.holds := by
  have hkinds (kind : MetricKind) : kind ∈ MetricKind.all := by cases kind <;> decide
  simp only [checks, Weights.checks, Thresholds.checks, Thresholds.ratios, List.forall_mem_append,
    List.forall_mem_map, List.forall_mem_cons, List.not_mem_nil, false_imp_iff, implies_true,
    and_true, hkinds, true_imp_iff]
  constructor
  · intro h
    exact ⟨⟨h.weights, h.weightSum⟩, ⟨h.commentLow, h.commentHigh, h.commentIdeal, h.minCoverage,
      h.similarity, h.minCommentRatio, h.minBlankRatio⟩, h.commentBand, h.saturations,
      h.blockRange⟩
  · rintro ⟨⟨weights, weightSum⟩, ⟨low, high, ideal, coverage, similarity, comment, blank⟩, band,
      saturations, blocks⟩
    exact ⟨weights, weightSum, low, high, ideal, coverage, similarity, comment, blank, band,
      saturations, blocks⟩

theorem validate_of_weights {config : Config} (h : config.weights.validate = .ok ()) :
    config.validate = config.thresholds.validate := by
  rw [validate, h]

theorem reports (config : Config) : Reports config.checks config.validate := by
  have hweights := config.weights.reports
  rw [checks]
  cases hvalid : config.weights.validate with
  | error fault =>
    rw [validate, hvalid]
    exact (hvalid ▸ hweights).append_of_error
  | ok =>
    rw [validate_of_weights hvalid]
    exact .append (hweights.eq_ok_iff.mp hvalid) config.thresholds.reports

/-- A configuration is valid exactly when it is acceptable, and otherwise the first check that
fails is reported. A saturation that is not a number is accepted. -/
theorem validate_first_fault (config : Config) :
    (config.validate = .ok () ↔ config.Acceptable) ∧
      ∀ fault, config.validate = .error fault ↔ FirstFault config.checks fault :=
  ⟨config.reports.eq_ok_iff.trans acceptable_iff.symm, fun _ => config.reports.eq_error_iff⟩

/-- A saturation that is not a number is not positive, and still no fault is reported. -/
theorem validate_saturation_notANumber :
    Config.validate { thresholds := { complexity := { saturation := 0 / 0 } } } = .ok () ∧
      ¬ ∃ n ∈ number? (0 / 0), rational 0 < n := by
  have hvalid : Thresholds.validate { complexity := { saturation := 0 / 0 } } = .ok () := rfl
  refine ⟨hvalid ▸ validate_of_weights Weights.validate_default, ?_⟩
  rintro ⟨n, hn, -⟩
  cases hn

end Config

end Validation

end CodeQuality
