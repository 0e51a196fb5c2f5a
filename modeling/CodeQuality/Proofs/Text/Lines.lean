import CodeQuality.Text.Basic
import Mathlib.Data.List.Basic

/-!
# The lines of a text

Lines hold no line feed, and behind a line feed the lines begin anew. So a text that is cut behind
a line feed has the lines of its first piece and then those of its second one. There is a line for
each line feed and one for what stands behind the last of them, so every character stands on one of
the lines.
-/

namespace CodeQuality.Text

/-- Behind a line feed the lines begin anew. -/
theorem linesAfter_append_feed (current head tail : List Char) :
    linesAfter current (head ++ '\n' :: tail) =
      linesAfter current (head ++ ['\n']) ++ lines tail := by
  induction head generalizing current with
  | nil => simp [linesAfter, lines]
  | cons c rest ih =>
    by_cases hc : c = '\n'
    · simp [linesAfter, hc, ih]
    · simp [linesAfter, hc, ih]

/-- The lines of two pieces follow each other when the first piece is empty or ends with a line
feed. -/
theorem lines_append {head : List Char} (h : head = [] ∨ head.getLast? = some '\n')
    (tail : List Char) : lines (head ++ tail) = lines head ++ lines tail := by
  rcases h with rfl | hfeed
  · rfl
  · obtain ⟨before, rfl⟩ := List.getLast?_eq_some_iff.mp hfeed
    rw [List.append_assoc, List.singleton_append]
    exact linesAfter_append_feed [] before tail

/-- A line without its carriage return holds no other characters than the line. -/
theorem dropReturn_subset (line : List Char) : dropReturn line ⊆ line := by
  fun_cases dropReturn line with
  | case1 rest => exact List.subset_cons_self _ _
  | case2 => exact List.Subset.refl _

/-- No line holds a line feed when the part that has been read holds none. -/
theorem not_mem_of_mem_linesAfter {current text line : List Char} (hcurrent : '\n' ∉ current)
    (h : line ∈ linesAfter current text) : '\n' ∉ line := by
  fun_induction linesAfter current text with
  | case1 => simp at h
  | case2 current hne =>
    obtain rfl : line = current.reverse := by simpa using h
    simpa using hcurrent
  | case3 current rest ih =>
    rcases List.mem_cons.mp h with rfl | hrest
    · exact fun hfeed => hcurrent (dropReturn_subset current (List.mem_reverse.mp hfeed))
    · exact ih List.not_mem_nil hrest
  | case4 current c rest hc ih =>
    exact ih (by simpa [hcurrent] using Ne.symm hc) h

/-- No line holds a line feed. -/
theorem not_mem_of_mem_lines {text line : List Char} (h : line ∈ lines text) : '\n' ∉ line :=
  not_mem_of_mem_linesAfter List.not_mem_nil h

/-- A line that has been begun is among the lines. -/
theorem linesAfter_cons_ne_nil (c : Char) (current text : List Char) :
    linesAfter (c :: current) text ≠ [] := by
  induction text generalizing c current with
  | nil => simp [linesAfter]
  | cons d rest ih =>
    by_cases hd : d = '\n'
    · simp [linesAfter, hd]
    · simpa [linesAfter, hd] using ih d (c :: current)

/-- The lines before a character and its own line are among the lines. -/
theorem count_lt_length_linesAfter (current head : List Char) (c : Char) (tail : List Char) :
    head.count '\n' < (linesAfter current (head ++ c :: tail)).length := by
  induction head generalizing current with
  | nil =>
    by_cases hc : c = '\n'
    · simp [linesAfter, hc]
    · simpa [linesAfter, hc, List.length_pos_iff] using linesAfter_cons_ne_nil c current tail
  | cons d rest ih =>
    by_cases hd : d = '\n'
    · simpa [linesAfter, hd] using ih []
    · simpa [linesAfter, hd] using ih (d :: current)

end CodeQuality.Text
