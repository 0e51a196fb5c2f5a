import CodeQuality.Text.Basic
import CodeQuality.Text.Word
import Mathlib.Data.List.DropRight

/-!
# Trimming

A text is its trimmed part with white space around it, and the trimmed part has none at its ends.
White space that is put around a text changes nothing in the trimmed part.
-/

namespace CodeQuality.Text

/-- A character of some kind is none of those that are not of that kind. -/
theorem notMem_of_kind {kind : Char → Bool} {c : Char} (h : kind c = true) {others : List Char}
    (hothers : others.any kind = false) : c ∉ others :=
  fun hmem => List.any_eq_false.mp hothers c hmem h

/-- A kind of characters that none of the white space belongs to excludes it. -/
theorem kind_of_isBlank {kind : Char → Bool}
    (h : ((blankRanges.flatMap fun range => List.range' range.1 (range.2 + 1 - range.1)).all
      fun code => !kind (Char.ofNat code)) = true) {c : Char} (hc : isBlank c = true) :
    kind c = false := by
  obtain ⟨range, hrange, hholds⟩ := List.any_eq_true.mp hc
  simp only [CodeRange.holds, Bool.and_eq_true, decide_eq_true_eq] at hholds
  have hcode : c.toNat ∈ blankRanges.flatMap fun range =>
      List.range' range.1 (range.2 + 1 - range.1) := by
    rw [List.mem_flatMap]
    exact ⟨range, hrange, List.mem_range'_1.mpr ⟨hholds.1, by omega⟩⟩
  have hchar := List.all_eq_true.mp h c.toNat hcode
  rwa [Char.ofNat_toNat, Bool.not_eq_true'] at hchar

/-- White space can not stand in a word. -/
theorem isWord_of_isBlank {c : Char} (h : isBlank c = true) : isWord c = false :=
  kind_of_isBlank (by decide +kernel) h

/-- Trimming the end of a text cuts off its trailing white space. -/
theorem trimEnd_eq_rdropWhile (text : List Char) : trimEnd text = text.rdropWhile isBlank := rfl

/-- A text is its trimmed part with white space before and behind it. -/
theorem eq_append_trim (text : List Char) :
    ∃ back, text = text.takeWhile isBlank ++ (trim text ++ back) ∧
      ∀ c ∈ back, isBlank c = true := by
  refine ⟨(trimStart text).rtakeWhile isBlank, ?_, fun c hc => List.mem_rtakeWhile_imp hc⟩
  rw [trim, trimEnd_eq_rdropWhile, List.rdropWhile_append_rtakeWhile, trimStart,
    List.takeWhile_append_dropWhile]

/-- White space in front of a text is trimmed. -/
theorem trim_append_left {front : List Char} (h : ∀ c ∈ front, isBlank c = true)
    (text : List Char) : trim (front ++ text) = trim text := by
  rw [trim, trimStart, List.dropWhile_append_of_pos h]
  rfl

/-- White space behind a text is trimmed. -/
theorem trimEnd_append {back : List Char} (h : ∀ c ∈ back, isBlank c = true) (text : List Char) :
    trimEnd (text ++ back) = trimEnd text := by
  rw [trimEnd, List.reverse_append, List.dropWhile_append_of_pos (by simpa using h)]
  rfl

/-- White space behind a text is trimmed, also when there is nothing else. -/
theorem trim_append_right {back : List Char} (h : ∀ c ∈ back, isBlank c = true)
    (text : List Char) : trim (text ++ back) = trim text := by
  rw [trim, trim, trimStart, trimStart, List.dropWhile_append]
  split
  · rename_i hempty
    have hback : back.dropWhile isBlank = [] := List.dropWhile_eq_nil_iff.mpr h
    rw [hback, List.isEmpty_iff.mp hempty]
  · exact trimEnd_append h _

/-- What is left of a text without its leading white space does not begin with any. -/
theorem isBlank_of_head?_dropWhile {text : List Char} {c : Char}
    (h : (text.dropWhile isBlank).head? = some c) : isBlank c = false := by
  have hnot := List.head?_dropWhile_not isBlank text
  rw [h] at hnot
  exact hnot

/-- A trimmed text does not begin with white space. -/
theorem isBlank_of_head?_trim {text : List Char} {c : Char} (h : (trim text).head? = some c) :
    isBlank c = false := by
  obtain ⟨back, hback⟩ : trim text <+: trimStart text :=
    List.rdropWhile_prefix isBlank (trimStart text)
  have hhead : (trimStart text).head? = some c := by
    rw [← hback, List.head?_append, h]
    rfl
  exact isBlank_of_head?_dropWhile hhead

/-- A trimmed text does not end with white space. -/
theorem isBlank_of_getLast?_trim {text : List Char} {c : Char}
    (h : (trim text).getLast? = some c) : isBlank c = false := by
  rw [trim, trimEnd, List.getLast?_reverse] at h
  exact isBlank_of_head?_dropWhile h

/-- A text that ends with another character than white space does so when it is trimmed. -/
theorem exists_trim_append {c : Char} (hc : isBlank c = false) (text : List Char) :
    ∃ head, trim (text ++ [c]) = head ++ [c] := by
  have hstart : ∃ head, trimStart (text ++ [c]) = head ++ [c] := by
    rw [trimStart, List.dropWhile_append]
    split
    · exact ⟨[], List.dropWhile_cons_of_neg (by simp [hc])⟩
    · exact ⟨_, rfl⟩
  obtain ⟨head, hhead⟩ := hstart
  refine ⟨head, ?_⟩
  rw [trim, hhead, trimEnd_eq_rdropWhile, List.rdropWhile_concat_neg _ _ _ (by simp [hc])]

/-- A text that begins with another character than white space does so when it is trimmed. -/
theorem exists_trim_cons {c : Char} (hc : isBlank c = false) (text : List Char) :
    ∃ tail, trim (c :: text) = c :: tail := by
  have hstart : trimStart (c :: text) = c :: text := List.dropWhile_cons_of_neg (by simp [hc])
  rw [trim, hstart, trimEnd_eq_rdropWhile]
  rcases List.prefix_cons_iff.mp (List.rdropWhile_prefix isBlank (c :: text)) with
    hnil | ⟨tail, htail, -⟩
  · have hblank := List.rdropWhile_eq_nil_iff.mp hnil c List.mem_cons_self
    simp [hc] at hblank
  · exact ⟨tail, htail⟩

/-- A text with no white space at its ends is trimmed. -/
theorem trim_eq_self {text : List Char} (hhead : ∀ c ∈ text.head?, isBlank c = false)
    (hlast : ∀ c ∈ text.getLast?, isBlank c = false) : trim text = text := by
  have hstart : trimStart text = text := by
    cases text with
    | nil => rfl
    | cons c rest => exact List.dropWhile_cons_of_neg (by simp [hhead c rfl])
  rw [trim, hstart, trimEnd_eq_rdropWhile, List.rdropWhile_eq_self_iff]
  intro hne
  simp [hlast _ (List.getLast?_eq_some_getLast hne)]

/-- A trimmed text has no end to be trimmed. -/
theorem trimEnd_trim (text : List Char) : trimEnd (trim text) = trim text :=
  List.rdropWhile_idempotent isBlank (trimStart text)

end CodeQuality.Text
