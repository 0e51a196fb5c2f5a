import CodeQuality.Duplication.Block
import CodeQuality.Metric.Assessment
import CodeQuality.Proofs.LineCount
import CodeQuality.Proofs.Text.Blank

/-!
# Line endings

A line ends with a line feed, with a carriage return and a line feed, or with the text. The counts
of lines read trimmed lines only, and the ending of a line is white space, so they do not depend on
it. Repeated blocks are compared as they stand. They are the same with either ending of lines as
long as the text has no carriage returns of its own.
-/

namespace CodeQuality

namespace Text

/-- The text with a carriage return put before every line feed. -/
def withReturns (text : List Char) : List Char :=
  text.flatMap fun c => if c = '\n' then ['\r', '\n'] else [c]

theorem withReturns_feed (rest : List Char) :
    withReturns ('\n' :: rest) = '\r' :: '\n' :: withReturns rest := rfl

theorem withReturns_cons {c : Char} (h : c ≠ '\n') (rest : List Char) :
    withReturns (c :: rest) = c :: withReturns rest := by
  simp [withReturns, h]

/-! ## Lines -/

/-- A carriage return at the end of a line is trimmed in any case. -/
theorem trim_dropReturn (current : List Char) :
    trim (dropReturn current).reverse = trim current.reverse := by
  fun_cases dropReturn current with
  | case1 rest =>
    have hblank : ∀ c ∈ ['\r'], isBlank c = true := List.forall_mem_singleton.mpr (by decide)
    rw [List.reverse_cons]
    exact (trim_append_right hblank rest.reverse).symm
  | case2 => rfl

/-- A line that ends with a carriage return and a line feed is read without both. -/
theorem linesAfter_return_feed (current rest : List Char) :
    linesAfter current ('\r' :: '\n' :: rest) = current.reverse :: linesAfter [] rest := by
  simp [linesAfter, dropReturn]

/-- The trimmed lines are the same with carriage returns before the line feeds. -/
theorem map_trim_linesAfter_withReturns (current text : List Char) :
    (linesAfter current (withReturns text)).map trim = (linesAfter current text).map trim := by
  induction text generalizing current with
  | nil => rfl
  | cons c rest ih =>
    by_cases hc : c = '\n'
    · rw [hc, withReturns_feed, linesAfter_return_feed, linesAfter, if_pos rfl, List.map_cons,
        List.map_cons, ih, trim_dropReturn]
    · rw [withReturns_cons hc, linesAfter, if_neg hc, linesAfter, if_neg hc, ih]

/-- The lines are the same with carriage returns before the line feeds of a text that has none. -/
theorem linesAfter_withReturns {current text : List Char} (hcurrent : '\r' ∉ current)
    (h : '\r' ∉ text) : linesAfter current (withReturns text) = linesAfter current text := by
  induction text generalizing current with
  | nil => rfl
  | cons c rest ih =>
    have hrest : '\r' ∉ rest := fun hmem => h (List.mem_cons_of_mem c hmem)
    by_cases hc : c = '\n'
    · have hdrop : dropReturn current = current := by
        fun_cases dropReturn current with
        | case1 more => simp at hcurrent
        | case2 => rfl
      rw [hc, withReturns_feed, linesAfter_return_feed, linesAfter, if_pos rfl, hdrop,
        ih List.not_mem_nil hrest]
    · have hnext : '\r' ∉ c :: current := by
        intro hmem
        rcases List.mem_cons.mp hmem with rfl | hold
        · exact h List.mem_cons_self
        · exact hcurrent hold
      rw [withReturns_cons hc, linesAfter, if_neg hc, linesAfter, if_neg hc, ih hnext hrest]

/-- A line feed at the end of a text whose last line has none ends that line. -/
theorem map_trim_linesAfter_append_feed {current text : List Char}
    (h : current ≠ [] ∨ text ≠ []) (hlast : text.getLast? ≠ some '\n') :
    (linesAfter current (text ++ ['\n'])).map trim = (linesAfter current text).map trim := by
  induction text generalizing current with
  | nil =>
    have hcurrent : current ≠ [] := h.resolve_right fun hne => hne rfl
    simp [linesAfter, hcurrent, trim_dropReturn]
  | cons c rest ih =>
    by_cases hc : c = '\n'
    · -- The last line begins behind this feed, so it is not empty.
      subst hc
      have hrest : rest ≠ [] := by
        rintro rfl
        exact hlast rfl
      have hlast' : rest.getLast? ≠ some '\n' := by
        rwa [List.getLast?_cons_of_ne_nil hrest] at hlast
      rw [List.cons_append, linesAfter, if_pos rfl, linesAfter, if_pos rfl, List.map_cons,
        List.map_cons, ih (.inr hrest) hlast']
    · have hlast' : rest.getLast? ≠ some '\n' := by
        cases rest with
        | nil => simp
        | cons d more => rwa [List.getLast?_cons_cons] at hlast
      rw [List.cons_append, linesAfter, if_neg hc, linesAfter, if_neg hc,
        ih (.inl (List.cons_ne_nil c current)) hlast']

end Text

open Text

/-! ## Counts -/

/-- The kinds of lines are read off the trimmed lines. -/
theorem lineKinds_congr (style : CommentStyle) (inBlock : Bool) {a b : List (List Char)}
    (h : a.map trim = b.map trim) : lineKinds style inBlock a = lineKinds style inBlock b := by
  induction a generalizing b inBlock with
  | nil => rw [List.map_eq_nil_iff.mp h.symm]
  | cons line rest ih =>
    obtain ⟨other, more, rfl, htrim, hrest⟩ := List.map_eq_cons_iff.mp h.symm
    simp only [lineKinds, htrim, ih _ hrest.symm]

/-- Texts with the same trimmed lines have the same counts. -/
theorem counts_congr {a b : List Char} (style : CommentStyle)
    (h : (lines a).map trim = (lines b).map trim) :
    LineCount.ofText a style = LineCount.ofText b style ∧
      logicalLines a style = logicalLines b style := by
  constructor
  · rw [LineCount.ofText_eq_ofKinds, LineCount.ofText_eq_ofKinds, lineKinds_congr style false h]
  · rw [logicalLines, logicalLines, h]

/-- **Line endings do not count.** The counts of lines are the same with a carriage return before
every line feed, and with a line feed behind a last line that has none. Without carriage returns of
its own a text has the same repeated blocks with either ending. -/
theorem counts_of_line_endings :
    (∀ (text : List Char) (style : CommentStyle),
      LineCount.ofText (withReturns text) style = LineCount.ofText text style ∧
        logicalLines (withReturns text) style = logicalLines text style) ∧
    (∀ (text : List Char) (style : CommentStyle), text ≠ [] → text.getLast? ≠ some '\n' →
      LineCount.ofText (text ++ ['\n']) style = LineCount.ofText text style ∧
        logicalLines (text ++ ['\n']) style = logicalLines text style) ∧
    ∀ text : List Char, '\r' ∉ text → ∀ least most : Nat,
      duplicateBlocks (withReturns text) least most = duplicateBlocks text least most := by
  refine ⟨fun text style => ?_, fun text style hne hlast => ?_, fun text hreturn least most => ?_⟩
  · exact counts_congr style (map_trim_linesAfter_withReturns [] text)
  · exact counts_congr style (map_trim_linesAfter_append_feed (.inr hne) hlast)
  · have hlines : lines (withReturns text) = lines text :=
      linesAfter_withReturns List.not_mem_nil hreturn
    rw [duplicateBlocks, duplicateBlocks, hlines]

/-- The last line of the first text ends with a carriage return alone, behind mixed endings. The
second text has a repeated line and gains three carriage returns. -/
theorem counts_of_line_endings_mixed :
    (LineCount.ofText ['a', '\r', '\n', '\n', '#', '\r', '\n'] .hash = ⟨3, 1, 1, 1⟩ ∧
      LineCount.ofText ['a', '\r', '\n', '\n', '#', '\r', '\n'] .hash =
        LineCount.ofText ['a', '\r', '\n', '\n', '#', '\r'] .hash) ∧
    withReturns ['a', '\n', 'a', '\n', 'b', '\n'] =
      ['a', '\r', '\n', 'a', '\r', '\n', 'b', '\r', '\n'] ∧
    duplicateBlocks (withReturns ['a', '\n', 'a', '\n', 'b', '\n']) 1 2 =
      duplicateBlocks ['a', '\n', 'a', '\n', 'b', '\n'] 1 2 :=
  ⟨⟨by decide, (counts_of_line_endings.2.1 ['a', '\r', '\n', '\n', '#', '\r'] .hash
      (List.cons_ne_nil _ _) (by decide)).1⟩,
    by decide, counts_of_line_endings.2.2 _ (by simp) 1 2⟩

end CodeQuality
