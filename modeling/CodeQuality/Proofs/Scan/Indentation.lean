import CodeQuality.Proofs.Text.Offset
import CodeQuality.Scan.Lines
import Mathlib.Data.List.TakeWhile

/-!
# Where a block by indentation ends

A block ends behind the last line that it takes in, right before the line feed of that line or at
the end of the text. The end moves along when text is put before the block.
-/

namespace CodeQuality.Scan

open Text

/-- A text is what stands before its first line feed and the rest. -/
theorem lineHead_append_lineTail (text : List Char) : lineHead text ++ lineTail text = text :=
  List.takeWhile_append_dropWhile

/-- The rest of a text from a line feed on begins with the line feed. -/
theorem head?_lineTail {text : List Char} {c : Char} (h : c ∈ (lineTail text).head?) :
    c = '\n' := by
  have hfirst := List.head?_dropWhile_not (· != '\n') text
  rw [Option.mem_def] at h
  rw [lineTail] at h
  rw [h] at hfirst
  simpa using hfirst

/-- What stands before the first line feed holds none. -/
theorem not_mem_lineHead (text : List Char) : '\n' ∉ lineHead text := by
  intro hmem
  simpa using List.mem_takeWhile_imp hmem

/-- A stretch and the rest of its line end with no line feed, unless the rest is empty and the
stretch does. -/
theorem getLast?_append_lineHead_ne {read tail : List Char}
    (h : lineHead tail = [] → read.getLast? ≠ some '\n') :
    (read ++ lineHead tail).getLast? ≠ some '\n' := by
  rw [List.getLast?_append]
  cases hlast : (lineHead tail).getLast? with
  | none => simpa using h (List.getLast?_eq_none_iff.mp hlast)
  | some c =>
    intro hc
    obtain rfl : c = '\n' := by simpa using hc
    exact not_mem_lineHead tail (List.mem_of_getLast? hlast)

/-- A line that is not idle has a character. -/
theorem ne_nil_of_not_isIdleLine {line : List Char} (h : ¬ isIdleLine line = true) : line ≠ [] := by
  rintro rfl
  exact h (by decide)

/-- From the text at `pos`, a stretch reaches up to `stop` and ends there with a character other
than a line feed. -/
def Reaches (pos : Nat) (text : List Char) (stop : Nat) : Prop :=
  ∃ read rest, text = read ++ rest ∧ (∃ c ∈ read.getLast?, c ≠ '\n') ∧
    stop = pos + byteLength read

/-- A line with a character reaches up to its end. -/
theorem reaches_line (pos : Nat) {text : List Char} (h : lineHead text ≠ []) :
    Reaches pos ('\n' :: text) (pos + 1 + byteLength (lineHead text)) := by
  refine ⟨'\n' :: lineHead text, lineTail text, ?_, ?_, ?_⟩
  · rw [List.cons_append, lineHead_append_lineTail]
  · refine ⟨(lineHead text).getLast h, ?_, ?_⟩
    · simp [List.getLast?_cons, List.getLast?_eq_some_getLast h]
    · intro hlast
      exact not_mem_lineHead text (hlast ▸ List.getLast_mem h)
  · rw [byteLength_cons, utf8Size_lineFeed]
    omega

/-- What is reached from the end of a line is reached from before the line. -/
theorem Reaches.before_line {pos stop : Nat} {text : List Char}
    (h : Reaches (pos + 1 + byteLength (lineHead text)) (lineTail text) stop) :
    Reaches pos ('\n' :: text) stop := by
  obtain ⟨read, rest, hread, ⟨c, hc, hne⟩, rfl⟩ := h
  refine ⟨'\n' :: lineHead text ++ read, rest, ?_, ⟨c, ?_, hne⟩, ?_⟩
  · rw [List.append_assoc, ← hread, List.cons_append, lineHead_append_lineTail]
  · rw [Option.mem_def] at hc ⊢
    rw [List.getLast?_append, hc, Option.some_or]
  · rw [byteLength_append, byteLength_cons, utf8Size_lineFeed]
    omega

/-- A block keeps its end or takes in more lines, the last of which ends it. -/
theorem blockEndFrom_eq_or_reaches (base blockEnd pos : Nat) (text : List Char)
    (hfeed : ∀ c ∈ text.head?, c = '\n') :
    blockEndFrom base blockEnd pos text = blockEnd ∨
      Reaches pos text (blockEndFrom base blockEnd pos text) := by
  fun_induction blockEndFrom base blockEnd pos text with
  | case1 => exact Or.inl rfl
  | case2 blockEnd pos c rest line lineEnd hidle ih =>
    obtain rfl : c = '\n' := hfeed c (by simp)
    exact (ih fun c hc => head?_lineTail hc).imp_right Reaches.before_line
  | case3 => exact Or.inl rfl
  | case4 blockEnd pos c rest line lineEnd hidle hindent ih =>
    obtain rfl : c = '\n' := hfeed c (by simp)
    rcases ih fun c hc => head?_lineTail hc with hkeep | hreach
    · rw [hkeep]
      exact Or.inr (reaches_line pos (ne_nil_of_not_isIdleLine hidle))
    · exact Or.inr hreach.before_line

/-- A block is read from the end of its header's last line on. -/
theorem indentedBodyEnd_cut (head tail : List Char) (start : Nat) :
    let stop := byteLength head + byteLength (lineHead tail)
    indentedBodyEnd (head ++ tail) start (byteLength head) =
      blockEndFrom (indentWidth (dropBytes start (head ++ tail))) stop stop (lineTail tail) := by
  have hcut : min (byteLength head) (byteLength (head ++ tail)) = byteLength head := by
    rw [byteLength_append]
    omega
  simp only [indentedBodyEnd, hcut, dropBytes_append]

/-- A block ends behind the rest of its header's last line or behind a later line. -/
theorem exists_append_of_indentedBodyEnd (head tail : List Char) (start : Nat) :
    ∃ more rest, tail = more ++ rest ∧ more.getLast? ≠ some '\n' ∧ lineHead tail <+: more ∧
      indentedBodyEnd (head ++ tail) start (byteLength head) = byteLength (head ++ more) := by
  rw [indentedBodyEnd_cut]
  generalize indentWidth (dropBytes start (head ++ tail)) = base
  have hlines := lineHead_append_lineTail tail
  rcases blockEndFrom_eq_or_reaches base (byteLength head + byteLength (lineHead tail))
    (byteLength head + byteLength (lineHead tail)) (lineTail tail)
    (fun c hc => head?_lineTail hc) with hkeep | ⟨read, rest, hread, ⟨c, hc, hne⟩, hend⟩
  · refine ⟨lineHead tail, lineTail tail, hlines.symm, ?_, List.prefix_refl _, ?_⟩
    · exact fun hlast => not_mem_lineHead tail (List.mem_of_getLast? hlast)
    · rw [hkeep, byteLength_append]
  · refine ⟨lineHead tail ++ read, rest, ?_, ?_, List.prefix_append _ _, ?_⟩
    · rw [List.append_assoc, ← hread, hlines]
    · rw [List.getLast?_append, Option.mem_def.mp hc, Option.some_or]
      simpa using hne
    · rw [hend, byteLength_append, byteLength_append, Nat.add_assoc]

/-- Moving a text moves the end of a block in it. -/
theorem blockEndFrom_add (more base blockEnd pos : Nat) (text : List Char) :
    blockEndFrom base (blockEnd + more) (pos + more) text =
      blockEndFrom base blockEnd pos text + more := by
  fun_induction blockEndFrom base blockEnd pos text with
  | case1 => simp [blockEndFrom]
  | case2 blockEnd pos c rest line lineEnd hidle ih =>
    have hend : pos + more + 1 + byteLength (lineHead rest) = lineEnd + more := by
      simp only [lineEnd, line]
      omega
    rw [blockEndFrom, hend, if_pos hidle, ih]
  | case3 blockEnd pos c rest line hidle hindent =>
    rw [blockEndFrom, if_neg hidle, if_pos hindent]
  | case4 blockEnd pos c rest line lineEnd hidle hindent ih =>
    have hend : pos + more + 1 + byteLength (lineHead rest) = lineEnd + more := by
      simp only [lineEnd, line]
      omega
    rw [blockEndFrom, hend, if_neg hidle, if_neg hindent, ih]

/-- Text put before a block moves its end. -/
theorem indentedBodyEnd_append (head tail : List Char) (start headerEnd : Nat) :
    indentedBodyEnd (head ++ tail) (start + byteLength head) (headerEnd + byteLength head) =
      indentedBodyEnd tail start headerEnd + byteLength head := by
  have hcut : min (headerEnd + byteLength head) (byteLength (head ++ tail)) =
      min headerEnd (byteLength tail) + byteLength head := by
    rw [byteLength_append]
    omega
  simp only [indentedBodyEnd, hcut, dropBytes_append_add]
  rw [Nat.add_right_comm, blockEndFrom_add]

end CodeQuality.Scan
