import CodeQuality.Proofs.Signature.Depth
import CodeQuality.Proofs.Text.Blank

/-!
# The parts of a list

A list is cut at the commas outside of brackets, its separators. The stretches between them are
trimmed, and those that hold nothing else than white space are dropped. Main statement: nothing is
lost by this. The parts are slices of the text in order, with a separator between any two of them
and none within them, and all that stands outside of them is white space or a separator.
-/

namespace CodeQuality.Signature

open Text

/-- A stretch of a text, from the index of its first character to the one behind its last. -/
structure Stretch where
  start : Nat
  stop : Nat

namespace Stretch

/-- An index is in a stretch when its character is. -/
instance : Membership Nat Stretch :=
  ⟨fun stretch i => stretch.start ≤ i ∧ i < stretch.stop⟩

/-- The characters in the stretch. -/
def slice (text : List Char) (stretch : Stretch) : List Char :=
  text.extract stretch.start stretch.stop

/-- The stretch without the white space at its ends. -/
def trimmed (text : List Char) (stretch : Stretch) : Stretch where
  start := stretch.start + ((stretch.slice text).takeWhile isBlank).length
  stop := stretch.start + ((stretch.slice text).takeWhile isBlank).length +
    (trim (stretch.slice text)).length

end Stretch

/-- The stretches are the parts of a text between its separators. -/
structure IsTopLevelSplit (text : List Char) (parts : List Stretch) : Prop where
  /-- The parts are slices of the text and not empty. -/
  inside : ∀ part ∈ parts, part.start < part.stop ∧ part.stop ≤ text.length
  /-- They have no white space at their ends. -/
  trimmed : ∀ part ∈ parts, ∀ c,
    (part.slice text).head? = some c ∨ (part.slice text).getLast? = some c → isBlank c = false
  /-- They are in order and disjoint, for a separator stands between any two of them. -/
  separated : parts.Pairwise fun part later =>
    ∃ i, part.stop ≤ i ∧ i < later.start ∧ IsSeparator text i
  /-- They hold no separator. -/
  unsplit : ∀ part ∈ parts, ∀ i ∈ part, ¬ IsSeparator text i
  /-- What stands outside of them is white space or a separator. -/
  covered : ∀ i c, text[i]? = some c → (∀ part ∈ parts, i ∉ part) →
    isBlank c = true ∨ IsSeparator text i

/-! ## The stretches between cuts -/

/-- The stretches between two indices and the cuts between these. -/
def stretchesFrom (start stop : Nat) : List Nat → List Stretch
  | [] => [⟨start, stop⟩]
  | cut :: cuts => ⟨start, cut⟩ :: stretchesFrom (cut + 1) stop cuts

/-- The cuts are in order, from one index on and before another one. -/
structure AreCuts (start stop : Nat) (cuts : List Nat) : Prop where
  le : start ≤ stop
  sorted : cuts.Pairwise (· < ·)
  between : ∀ cut ∈ cuts, start ≤ cut ∧ cut < stop

namespace AreCuts

variable {start stop : Nat} {cuts : List Nat}

/-- The cuts behind the first one are cuts from there on. -/
theorem tail {cut : Nat} (h : AreCuts start stop (cut :: cuts)) :
    AreCuts (cut + 1) stop cuts where
  le := (h.between cut List.mem_cons_self).2
  sorted := (List.pairwise_cons.mp h.sorted).2
  between := fun later hlater =>
    ⟨(List.pairwise_cons.mp h.sorted).1 later hlater,
      (h.between later (List.mem_cons_of_mem _ hlater)).2⟩

/-- The stretches lie between the two indices. -/
theorem bounds (h : AreCuts start stop cuts) :
    ∀ stretch ∈ stretchesFrom start stop cuts,
      start ≤ stretch.start ∧ stretch.start ≤ stretch.stop ∧ stretch.stop ≤ stop := by
  induction cuts generalizing start with
  | nil =>
    intro stretch hstretch
    obtain rfl := List.mem_singleton.mp hstretch
    exact ⟨Nat.le_refl _, h.le, Nat.le_refl _⟩
  | cons cut cuts ih =>
    intro stretch hstretch
    have hcut := h.between cut List.mem_cons_self
    rcases List.mem_cons.mp hstretch with rfl | hlater
    · exact ⟨Nat.le_refl _, hcut.1, Nat.le_of_lt hcut.2⟩
    · have hbounds := ih h.tail stretch hlater
      omega

/-- A cut stands between any two stretches. -/
theorem separated (h : AreCuts start stop cuts) :
    (stretchesFrom start stop cuts).Pairwise fun stretch later =>
      ∃ cut ∈ cuts, stretch.stop ≤ cut ∧ cut < later.start := by
  induction cuts generalizing start with
  | nil => exact List.pairwise_singleton _ _
  | cons cut cuts ih =>
    refine List.pairwise_cons.mpr ⟨?_, (ih h.tail).imp ?_⟩
    · intro later hlater
      exact ⟨cut, List.mem_cons_self, Nat.le_refl _, (h.tail.bounds later hlater).1⟩
    · rintro stretch later ⟨other, hother, hplace⟩
      exact ⟨other, List.mem_cons_of_mem _ hother, hplace⟩

/-- No stretch holds a cut. -/
theorem notMem (h : AreCuts start stop cuts) :
    ∀ stretch ∈ stretchesFrom start stop cuts, ∀ i ∈ stretch, i ∉ cuts := by
  induction cuts generalizing start with
  | nil => exact fun _ _ _ _ => List.not_mem_nil
  | cons cut cuts ih =>
    intro stretch hstretch i hi
    rw [List.mem_cons, not_or]
    rcases List.mem_cons.mp hstretch with rfl | hlater
    · have hlt : i < cut := hi.2
      refine ⟨Nat.ne_of_lt hlt, fun hcut => ?_⟩
      have hafter := (h.tail.between i hcut).1
      omega
    · have hafter := (h.tail.bounds stretch hlater).1
      have hle : stretch.start ≤ i := hi.1
      exact ⟨by omega, ih h.tail stretch hlater i hi⟩

/-- An index between the two is a cut or in a stretch. -/
theorem covered (h : AreCuts start stop cuts) {i : Nat} (hstart : start ≤ i) (hstop : i < stop) :
    i ∈ cuts ∨ ∃ stretch ∈ stretchesFrom start stop cuts, i ∈ stretch := by
  induction cuts generalizing start with
  | nil => exact Or.inr ⟨_, List.mem_singleton.mpr rfl, hstart, hstop⟩
  | cons cut cuts ih =>
    rcases Nat.lt_trichotomy i cut with hbefore | rfl | hbehind
    · exact Or.inr ⟨_, List.mem_cons_self, hstart, hbefore⟩
    · exact Or.inl List.mem_cons_self
    · rcases ih h.tail hbehind with hcut | ⟨stretch, hstretch, hi⟩
      · exact Or.inl (List.mem_cons_of_mem _ hcut)
      · exact Or.inr ⟨stretch, List.mem_cons_of_mem _ hstretch, hi⟩

end AreCuts

/-! ## The separators of a text -/

/-- The separators of a text in order. -/
def separators (text : List Char) : List Nat :=
  (List.range text.length).filter fun i => IsSeparator text i

theorem mem_separators {text : List Char} {i : Nat} :
    i ∈ separators text ↔ IsSeparator text i := by
  rw [separators, List.mem_filter, List.mem_range, decide_eq_true_eq, and_iff_right_iff_imp]
  intro h
  exact (List.getElem?_eq_some_iff.mp h.1).1

/-- The separators cut the text. -/
theorem areCuts_separators (text : List Char) : AreCuts 0 text.length (separators text) where
  le := Nat.zero_le _
  sorted := List.pairwise_lt_range.filter _
  between := fun _ hcut => ⟨Nat.zero_le _, List.mem_range.mp (List.mem_filter.mp hcut).1⟩

/-- The stretch up to the end of a head of the text is in that head. -/
theorem Stretch.slice_append {start : Nat} {head : List Char} (h : start ≤ head.length)
    (rest : List Char) : (mk start head.length).slice (head ++ rest) = head.drop start := by
  rw [slice, List.extract_eq_take_drop, List.drop_append_of_le_length h,
    List.take_left' (List.length_drop ..)]

/-- Behind a head of the text, the pieces are the stretches between the separators to come. The
piece that is being read began at `start`. -/
theorem pieces_eq_stretches (start : Nat) (head rest piece : List Char)
    (hstart : start ≤ head.length) (hpiece : piece.reverse = head.drop start) :
    (BracketCount.read {} head).pieces piece rest =
      (stretchesFrom start (head ++ rest).length
        ((List.range' head.length rest.length).filter fun i => IsSeparator (head ++ rest) i)).map
          (·.slice (head ++ rest)) := by
  induction rest generalizing start head piece with
  | nil =>
    have hslice := Stretch.slice_append hstart []
    simp only [List.append_nil] at hslice
    simp [stretchesFrom, hpiece, hslice]
  | cons c rest ih =>
    have hseparator : IsSeparator (head ++ c :: rest) head.length ↔
        c = ',' ∧ (BracketCount.read {} head).depth = 0 := by
      simp [IsSeparator, bracketDepth]
    have htext : head ++ c :: rest = (head ++ [c]) ++ rest := by simp
    have hread : BracketCount.read {} (head ++ [c]) = (BracketCount.read {} head).next c :=
      BracketCount.read_append {} head [c]
    have hlength : (head ++ [c]).length = head.length + 1 := by simp
    rw [List.length_cons, List.range'_succ]
    by_cases h : c = ',' ∧ (BracketCount.read {} head).depth = 0
    · obtain ⟨rfl, hdepth⟩ := h
      have hrest := ih (head.length + 1) (head ++ [',']) [] (by simp) (by simp)
      rw [BracketCount.pieces_comma hdepth, ← hread, hrest, hlength,
        List.filter_cons_of_pos (by simpa using hseparator.mpr ⟨rfl, hdepth⟩), stretchesFrom,
        List.map_cons, Stretch.slice_append hstart, hpiece, htext]
    · have hlonger : (c :: piece).reverse = (head ++ [c]).drop start := by
        rw [List.reverse_cons, hpiece, List.drop_append_of_le_length hstart]
      have hrest := ih start (head ++ [c]) (c :: piece) (by omega) hlonger
      rw [BracketCount.pieces_cons h, ← hread, hrest, hlength,
        List.filter_cons_of_neg (by simpa using mt hseparator.mp h), htext]

/-- The pieces of a text are the stretches between its separators. -/
theorem pieces_eq (text : List Char) :
    BracketCount.pieces {} [] text =
      (stretchesFrom 0 text.length (separators text)).map (·.slice text) := by
  have h := pieces_eq_stretches 0 [] text [] (Nat.le_refl _) rfl
  rwa [List.nil_append, List.length_nil, ← List.range_eq_range'] at h

/-! ## Trimming the stretches -/

namespace Stretch

variable {text : List Char} {stretch : Stretch}

/-- From the start of a stretch on, the text is the slice and what stands behind the stretch. -/
theorem drop_start (hle : stretch.start ≤ stretch.stop) :
    text.drop stretch.start = stretch.slice text ++ text.drop stretch.stop := by
  have hdrop : text.drop stretch.stop =
      (text.drop stretch.start).drop (stretch.stop - stretch.start) := by
    rw [List.drop_drop, Nat.add_sub_cancel' hle]
  rw [slice, List.extract_eq_take_drop, hdrop, List.take_append_drop]

/-- The slice of a trimmed stretch is trimmed. -/
theorem slice_trimmed (hle : stretch.start ≤ stretch.stop) :
    (stretch.trimmed text).slice text = trim (stretch.slice text) := by
  obtain ⟨back, hslice, -⟩ := eq_append_trim (stretch.slice text)
  have hdrop : text.drop stretch.start = stretch.slice text ++ text.drop stretch.stop :=
    drop_start hle
  rw [hslice, List.append_assoc, List.append_assoc] at hdrop
  rw [slice, List.extract_eq_take_drop, trimmed, Nat.add_sub_cancel_left, ← List.drop_drop, hdrop,
    List.drop_left, List.take_left]

/-- Trimming takes nothing but white space off a stretch. -/
theorem trimmed_within (hle : stretch.start ≤ stretch.stop) (hstop : stretch.stop ≤ text.length) :
    stretch.start ≤ (stretch.trimmed text).start ∧ (stretch.trimmed text).stop ≤ stretch.stop ∧
      ∀ i ∈ stretch, i ∉ stretch.trimmed text → ∀ c, text[i]? = some c → isBlank c = true := by
  obtain ⟨back, hslice, hback⟩ := eq_append_trim (stretch.slice text)
  have hlength : (stretch.slice text).length = stretch.stop - stretch.start := by
    rw [slice, List.extract_eq_take_drop, List.length_take, List.length_drop]
    omega
  have hsum := congrArg List.length hslice
  rw [List.length_append, List.length_append, hlength] at hsum
  have hend : (stretch.trimmed text).stop = stretch.start +
      ((stretch.slice text).takeWhile isBlank).length + (trim (stretch.slice text)).length := rfl
  refine ⟨Nat.le_add_right _ _, by omega, ?_⟩
  intro i hi hout c hc
  obtain ⟨k, rfl⟩ := Nat.exists_eq_add_of_le hi.1
  have hk : k < stretch.stop - stretch.start := by
    have hlt := hi.2
    omega
  rw [← List.getElem?_drop, drop_start hle, List.getElem?_append_left (by omega), hslice] at hc
  by_cases hfront : k < ((stretch.slice text).takeWhile isBlank).length
  · rw [List.getElem?_append_left hfront] at hc
    exact List.mem_takeWhile_imp (List.mem_of_getElem? hc)
  · have hbehind : ((stretch.slice text).takeWhile isBlank).length +
        (trim (stretch.slice text)).length ≤ k := by
      by_contra hwithin
      exact hout ⟨by simp only [trimmed]; omega, by omega⟩
    rw [List.getElem?_append_right (by omega), List.getElem?_append_right (by omega)] at hc
    exact hback c (List.mem_of_getElem? hc)

end Stretch

/-! ## The parts -/

/-- The trimmed stretches between the separators of a text, without the empty ones. -/
def partsOf (text : List Char) : List Stretch :=
  ((stretchesFrom 0 text.length (separators text)).map (·.trimmed text)).filter fun part =>
    part.start < part.stop

theorem mem_partsOf {text : List Char} {part : Stretch} :
    part ∈ partsOf text ↔ part.start < part.stop ∧
      ∃ stretch ∈ stretchesFrom 0 text.length (separators text), stretch.trimmed text = part := by
  rw [partsOf, List.mem_filter, decide_eq_true_eq, List.mem_map, and_comm]

/-- Splitting a list gives the slices of its parts. -/
theorem splitTopLevel_eq (text : List Char) :
    splitTopLevel text = (partsOf text).map (·.slice text) := by
  have hempty (stretch : Stretch) : (!(trim (stretch.slice text)).isEmpty) =
      decide ((stretch.trimmed text).start < (stretch.trimmed text).stop) := by
    cases htrim : trim (stretch.slice text) <;> simp [Stretch.trimmed, htrim]
  rw [splitTopLevel_eq_pieces, pieces_eq, partsOf, List.map_map, List.filter_map, List.filter_map,
    List.map_map]
  have hkept : ((fun part => !part.isEmpty) ∘ trim ∘ fun stretch : Stretch => stretch.slice text) =
      (fun part => decide (part.start < part.stop)) ∘ fun stretch => stretch.trimmed text :=
    funext hempty
  rw [hkept]
  refine List.map_congr_left fun stretch hstretch => ?_
  have hbounds := (areCuts_separators text).bounds stretch (List.mem_filter.mp hstretch).1
  exact (Stretch.slice_trimmed hbounds.2.1).symm

/-- The parts of a text lie between its separators. -/
theorem isTopLevelSplit_partsOf (text : List Char) : IsTopLevelSplit text (partsOf text) := by
  have hcuts := areCuts_separators text
  have hwithin (stretch) (h : stretch ∈ stretchesFrom 0 text.length (separators text)) :=
    Stretch.trimmed_within (hcuts.bounds stretch h).2.1 (hcuts.bounds stretch h).2.2
  constructor
  case inside =>
    intro part hpart
    obtain ⟨hne, stretch, hstretch, rfl⟩ := mem_partsOf.mp hpart
    exact ⟨hne, (hwithin stretch hstretch).2.1.trans (hcuts.bounds stretch hstretch).2.2⟩
  case trimmed =>
    intro part hpart c hc
    obtain ⟨-, stretch, hstretch, rfl⟩ := mem_partsOf.mp hpart
    rw [Stretch.slice_trimmed (hcuts.bounds stretch hstretch).2.1] at hc
    exact hc.elim isBlank_of_head?_trim isBlank_of_getLast?_trim
  case separated =>
    refine List.Pairwise.filter _ (List.pairwise_map.mpr (hcuts.separated.imp_of_mem ?_))
    rintro stretch later hstretch hlater ⟨cut, hcut, hbehind, hbefore⟩
    exact ⟨cut, (hwithin stretch hstretch).2.1.trans hbehind,
      hbefore.trans_le (hwithin later hlater).1, mem_separators.mp hcut⟩
  case unsplit =>
    intro part hpart i hi hseparator
    obtain ⟨-, stretch, hstretch, rfl⟩ := mem_partsOf.mp hpart
    have hin : i ∈ stretch :=
      ⟨(hwithin stretch hstretch).1.trans hi.1, hi.2.trans_le (hwithin stretch hstretch).2.1⟩
    exact hcuts.notMem stretch hstretch i hin (mem_separators.mpr hseparator)
  case covered =>
    intro i c hc hout
    obtain ⟨hlength, -⟩ := List.getElem?_eq_some_iff.mp hc
    rcases hcuts.covered (Nat.zero_le i) hlength with hcut | ⟨stretch, hstretch, hi⟩
    · exact Or.inr (mem_separators.mp hcut)
    · -- A stretch that is left empty by trimming is no part, but then the index is not in it.
      have hnot : i ∉ stretch.trimmed text := fun hmem =>
        hout _ (mem_partsOf.mpr ⟨hmem.1.trans_lt hmem.2, stretch, hstretch, rfl⟩) hmem
      exact Or.inl ((hwithin stretch hstretch).2.2 i hi hnot c hc)

/-- Splitting a list loses nothing and splits it exactly at the commas outside of brackets: the
parts are slices of the text in order that are not empty, have no white space at their ends and
hold no such comma, such a comma stands between any two of them, and all that stands outside of
them is white space or such a comma. -/
theorem splitTopLevel_exact (text : List Char) :
    ∃ parts, IsTopLevelSplit text parts ∧ splitTopLevel text = parts.map (·.slice text) :=
  ⟨partsOf text, isTopLevelSplit_partsOf text, splitTopLevel_eq text⟩

end CodeQuality.Signature
