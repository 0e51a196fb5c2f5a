import CodeQuality.Proofs.Text.Lines
import CodeQuality.Proofs.Text.Offset
import CodeQuality.Scan.Lines
import Mathlib.Order.Monotone.Basic
import Mathlib.Order.Nat

/-!
# Line numbers

Bisection finds the place where the beginnings at or before an offset end. That place is one more
than the number of line feeds before the offset.

Counting lines by their feeds and cutting a text into lines are two ways to number them. They differ
behind a final line feed, where a line begins but no line is cut off. No byte stands there, so the
line of every byte is one of those that the text is cut into.
-/

namespace CodeQuality

open Text

namespace Scan

/-- Every line feed begins a line behind it. -/
@[simp] theorem length_lineStartsFrom (base : Nat) (bytes : List UInt8) :
    (lineStartsFrom base bytes).length = bytes.count (byte '\n') := by
  induction bytes generalizing base with
  | nil => rfl
  | cons b rest ih =>
    by_cases hb : b = byte '\n' <;> simp [lineStartsFrom, hb, ih]

/-- The beginnings at or before an offset are as many as the line feeds before it, counted from
where the table begins. -/
theorem lineStartsFrom_getElem_le_iff (bytes : List UInt8) (base offset i : Nat)
    (hi : i < (lineStartsFrom base bytes).length) :
    (lineStartsFrom base bytes)[i] ≤ offset ↔
      i < (bytes.take (offset - base)).count (byte '\n') := by
  induction bytes generalizing base i with
  | nil => simp [lineStartsFrom] at hi
  | cons b rest ih =>
    have htake : (b :: rest).take (offset - base) =
        if base < offset then b :: rest.take (offset - (base + 1)) else [] := by
      split
      · rw [show offset - base = offset - (base + 1) + 1 by omega, List.take_succ_cons]
      · rw [show offset - base = 0 by omega, List.take_zero]
    rw [htake]
    by_cases hb : b = byte '\n'
    · simp only [lineStartsFrom, hb, if_true] at hi ⊢
      cases i with
      | zero => split <;> simp <;> omega
      | succ i =>
        rw [List.getElem_cons_succ, ih (base + 1) i (by simpa using hi)]
        split
        · simp
        · simp [show offset - (base + 1) = 0 by omega]
    · simp only [lineStartsFrom, hb, if_false] at hi ⊢
      rw [ih (base + 1) i hi]
      split
      · simp [hb]
      · simp [show offset - (base + 1) = 0 by omega]

namespace LineIndex

/-- Bisection finds the threshold of the beginnings at or before the offset. -/
theorem bisect_eq_of_threshold (starts : Array Nat) (offset low high threshold : Nat)
    (hlow : low ≤ threshold) (hhigh : threshold ≤ high) (hsize : high ≤ starts.size)
    (h : ∀ i < starts.size, starts.getD i 0 ≤ offset ↔ i < threshold) :
    bisect starts offset low high = threshold := by
  fun_induction bisect starts offset low high with
  | case1 low high hlt middle hle ih =>
    have hmiddle := (h middle (by omega)).mp hle
    exact ih (by omega) hhigh hsize
  | case2 low high hlt middle hgt ih =>
    have hmiddle := mt (h middle (by omega)).mpr hgt
    exact ih hlow (by omega) (by omega)
  | case3 low high hge => omega

/-- The line of an offset is one more than the number of line feeds before it. -/
theorem lineOf_ofBytes (bytes : List UInt8) (offset : Nat) :
    (ofBytes bytes).lineOf offset = (bytes.take offset).count (byte '\n') + 1 := by
  have hcount : (bytes.take offset).count (byte '\n') ≤ bytes.count (byte '\n') :=
    (List.take_sublist offset bytes).count_le _
  refine bisect_eq_of_threshold _ offset _ _ _ (by omega) ?_ (Nat.le_refl _) ?_
  · simpa [ofBytes] using hcount
  · intro i hi
    cases i with
    | zero => simp [ofBytes]
    | succ i =>
      have hi' : i < bytes.count (byte '\n') := by simpa [ofBytes] using hi
      have hle := lineStartsFrom_getElem_le_iff bytes 0 offset i (by simpa using hi')
      simpa [ofBytes, Array.getD, hi'] using hle

/-- Later offsets stand on the same line or on later ones. -/
theorem monotone_lineOf (bytes : List UInt8) : Monotone (ofBytes bytes).lineOf := by
  intro first second hle
  rw [lineOf_ofBytes, lineOf_ofBytes]
  exact Nat.add_le_add_right ((List.take_sublist_take_left hle).count_le _) 1

/-- Before a byte stand no more line feeds than before the last character of the text. -/
theorem count_take_encode_le (before : List Char) (last : Char) {offset : Nat}
    (h : offset < byteLength (before ++ [last])) :
    ((encode (before ++ [last])).take offset).count (byte '\n') ≤ before.count '\n' := by
  by_cases hlast : last = '\n'
  · -- The last character is one byte, so the offset is not behind it.
    have hoffset : offset ≤ (encode before).length := by
      rw [hlast, byteLength_append] at h
      rw [length_encode]
      exact Nat.le_of_lt_succ h
    rw [encode_append, List.take_append_of_le_length hoffset, ← count_encode (by decide)]
    exact (List.take_sublist offset _).count_le _
  · calc
      ((encode (before ++ [last])).take offset).count (byte '\n')
        ≤ (encode (before ++ [last])).count (byte '\n') := (List.take_sublist offset _).count_le _
      _ = (before ++ [last]).count '\n' := count_encode (by decide) _
      _ = before.count '\n' := by simp [hlast]

/-- Every byte stands on one of the lines of the text. -/
theorem lineOf_le_length_lines {text : List Char} {offset : Nat} (h : offset < byteLength text) :
    (ofBytes (encode text)).lineOf offset ≤ (lines text).length := by
  rcases List.eq_nil_or_concat' text with rfl | ⟨before, last, rfl⟩
  · exact absurd h (Nat.not_lt_zero offset)
  · rw [lineOf_ofBytes]
    exact Nat.lt_of_le_of_lt (count_take_encode_le before last h)
      (count_lt_length_linesAfter [] before last [])

/-- The line of an offset is one more than the number of line feeds before it, at the end of the
text and behind it too. So a later offset never stands on an earlier line, and every byte stands on
one of the lines of the text. -/
theorem lineOf_counts_lineFeeds (text : List Char) :
    let index := ofBytes (encode text)
    (∀ offset, index.lineOf offset = 1 + ((encode text).take offset).count (byte '\n')) ∧
    Monotone index.lineOf ∧
    ∀ offset < byteLength text,
      1 ≤ index.lineOf offset ∧ index.lineOf offset ≤ (lines text).length := by
  intro index
  have hcount (offset : Nat) :
      index.lineOf offset = 1 + ((encode text).take offset).count (byte '\n') := by
    rw [lineOf_ofBytes, Nat.add_comm]
  refine ⟨hcount, monotone_lineOf (encode text), fun offset h => ⟨?_, lineOf_le_length_lines h⟩⟩
  rw [hcount]
  exact Nat.le_add_right 1 _

/-- Four line feeds after a character of two bytes. An offset in the character, one on the last line
feed, and one behind the text on a line that is not cut off. -/
theorem lineOf_counts_lineFeeds_final :
    let text := "é\nbc\n\nd\n".toList
    let index := ofBytes (encode text)
    index.lineOf 1 = 1 ∧ index.lineOf 3 = 2 ∧ index.lineOf 100 = 5 ∧ 8 < byteLength text ∧
      1 ≤ index.lineOf 8 ∧ index.lineOf 8 ≤ (lines text).length ∧ (lines text).length = 4 := by
  intro text index
  obtain ⟨hcount, -, hlines⟩ := lineOf_counts_lineFeeds text
  have hinside : 8 < byteLength text := by decide
  refine ⟨?_, ?_, ?_, hinside, (hlines 8 hinside).1, (hlines 8 hinside).2, by decide⟩
  · exact (hcount 1).trans (by decide)
  · exact (hcount 3).trans (by decide)
  · exact (hcount 100).trans (by decide)

end LineIndex

end Scan

end CodeQuality
