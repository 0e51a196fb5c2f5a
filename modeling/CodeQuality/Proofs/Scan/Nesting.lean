import CodeQuality.Proofs.Scan.Cut
import CodeQuality.Proofs.Text.Blank

/-!
# Blocks by indentation nest

The end of every block is found by a reading of its own, which knows of no other block. Two readings
are compared here. The reading of the earlier block either ends before the header of the later one,
or it passes that header, which is then indented deeper. From there on both readings see the same
lines, and the one with the deeper base is the first to stop.
-/

namespace CodeQuality

namespace Text

/-- Of two cuts of a text, the later one cuts the second piece of the earlier one. -/
theorem exists_append_of_byteLength_le {a b c d : List Char} (h : a ++ b = c ++ d)
    (hle : byteLength a ≤ byteLength c) : ∃ between, c = a ++ between ∧ b = between ++ d := by
  rcases List.append_eq_append_iff.mp h with ⟨between, hc, hb⟩ | ⟨between, ha, hd⟩
  · exact ⟨between, hc, hb⟩
  · obtain rfl : between = [] := by
      apply eq_nil_of_byteLength_eq_zero
      rw [ha, byteLength_append] at hle
      omega
    exact ⟨[], by simpa using ha.symm, by simpa using hd.symm⟩

end Text

namespace Scan

open Text

/-! ## Lines -/

/-- A stretch without line feeds belongs to the line that goes on behind it. -/
theorem lineHead_append {read : List Char} (h : '\n' ∉ read) (rest : List Char) :
    lineHead (read ++ rest) = read ++ lineHead rest := by
  refine List.takeWhile_append_of_pos fun c hc => ?_
  simpa using ne_of_mem_of_not_mem hc h

/-- Behind a stretch without line feeds the next line feed is the next one of the rest. -/
theorem lineTail_append {read : List Char} (h : '\n' ∉ read) (rest : List Char) :
    lineTail (read ++ rest) = lineTail rest := by
  refine List.dropWhile_append_of_pos fun c hc => ?_
  simpa using ne_of_mem_of_not_mem hc h

/-- The rest of a text from a line feed on is empty or begins with the line feed. -/
theorem lineTail_eq_nil_or_cons (text : List Char) :
    lineTail text = [] ∨ ∃ rest, lineTail text = '\n' :: rest := by
  cases htail : lineTail text with
  | nil => exact Or.inl rfl
  | cons c rest =>
    have hc : c ∈ (lineTail text).head? := by simp [htail]
    exact Or.inr ⟨rest, by rw [head?_lineTail hc]⟩

/-- No character stands before the line feed that the rest of a text begins with. -/
theorem lineHead_lineTail (text : List Char) : lineHead (lineTail text) = [] := by
  rcases lineTail_eq_nil_or_cons text with htail | ⟨rest, htail⟩ <;> rw [htail] <;> rfl

/-- The rest of a text from a line feed on is its own rest. -/
theorem lineTail_lineTail (text : List Char) : lineTail (lineTail text) = lineTail text :=
  List.dropWhile_idempotent _ _

/-- A text with nothing left behind its first line is that line. -/
theorem lineHead_eq_self {text : List Char} (h : lineTail text = []) : lineHead text = text := by
  simpa [h] using lineHead_append_lineTail text

/-- Text put behind a line feed leaves the first line as it is. -/
theorem line_append_of_lineTail {head more : List Char} (h : lineTail head = '\n' :: more)
    (tail : List Char) :
    lineHead (head ++ tail) = lineHead head ∧ lineTail (head ++ tail) = '\n' :: (more ++ tail) := by
  have hnone := not_mem_lineHead head
  have htext : head ++ tail = lineHead head ++ '\n' :: (more ++ tail) := by
    rw [← List.cons_append, ← h, ← List.append_assoc, lineHead_append_lineTail]
  rw [htext, lineHead_append hnone, lineTail_append hnone]
  exact ⟨List.append_nil _, rfl⟩

/-- What stands before a line feed decides what its first line is, and behind that line the text
goes on up to the line feed. -/
theorem line_append_feed (before rest : List Char) :
    lineHead (before ++ '\n' :: rest) = lineHead before ∧
      lineTail (before ++ '\n' :: rest) = lineTail before ++ '\n' :: rest := by
  rcases lineTail_eq_nil_or_cons before with htail | ⟨more, htail⟩
  · have hline := lineHead_eq_self htail
    have hnone : '\n' ∉ before := hline ▸ not_mem_lineHead before
    rw [lineHead_append hnone, lineTail_append hnone, hline, htail]
    exact ⟨List.append_nil _, rfl⟩
  · rw [htail]
    exact line_append_of_lineTail htail ('\n' :: rest)

/-- A line that is not idle is not blank. -/
theorem trim_ne_nil {line : List Char} (h : isIdleLine line = false) : trim line ≠ [] := by
  intro hblank
  simp [isIdleLine, hblank] at h

/-- A line that is not blank has a character other than white space. -/
theorem exists_not_isBlank {line : List Char} (h : trim line ≠ []) :
    ∃ c ∈ line, ¬ isBlank c = true := by
  by_contra hall
  have hblank : ∀ c ∈ line, isBlank c = true := by simpa using hall
  have hstart : trimStart line = [] := List.dropWhile_eq_nil_iff.mpr hblank
  exact h (by rw [trim, hstart]; rfl)

/-- The indentation of a line that is not blank ends in the line. -/
theorem indentWidth_append {line : List Char} (h : trim line ≠ []) (rest : List Char) :
    indentWidth (line ++ rest) = indentWidth line := by
  obtain ⟨c, hc, hblank⟩ := exists_not_isBlank h
  have hshort : (line.takeWhile isBlank).length ≠ line.length := by
    intro hlength
    have hwhole := (List.takeWhile_prefix isBlank (l := line)).eq_of_length hlength
    exact hblank (List.takeWhile_eq_self_iff.mp hwhole c hc)
  rw [indentWidth, indentWidth, List.takeWhile_append, if_neg hshort]

/-- The indentation of a text whose first line is not blank is the one of that line. -/
theorem indentWidth_lineHead {text : List Char} (h : trim (lineHead text) ≠ []) :
    indentWidth text = indentWidth (lineHead text) := by
  conv_lhs => rw [← lineHead_append_lineTail text]
  exact indentWidth_append h _

/-! ## Two readings -/

/-- A reading never takes back what belongs to the block. -/
theorem le_blockEndFrom (base : Nat) {blockEnd pos : Nat} (h : blockEnd ≤ pos) (text : List Char) :
    blockEnd ≤ blockEndFrom base blockEnd pos text := by
  fun_induction blockEndFrom base blockEnd pos text with
  | case1 => exact Nat.le_refl _
  | case2 blockEnd pos c rest line lineEnd hidle ih => exact ih (by omega)
  | case3 => exact Nat.le_refl _
  | case4 blockEnd pos c rest line lineEnd hidle hindent ih =>
    have hline := ih (Nat.le_refl lineEnd)
    omega

/-- Of two readings of the same lines, the one with the deeper base ends first. -/
theorem blockEndFrom_le_of_base_le {outer inner : Nat} (hbase : outer ≤ inner)
    (outerEnd innerEnd pos : Nat) (text : List Char) (hends : innerEnd ≤ outerEnd)
    (hpos : outerEnd ≤ pos) :
    blockEndFrom inner innerEnd pos text ≤ blockEndFrom outer outerEnd pos text := by
  fun_induction blockEndFrom inner innerEnd pos text generalizing outerEnd with
  | case1 => simpa [blockEndFrom] using hends
  | case2 innerEnd pos c rest line lineEnd hidle ih =>
    rw [blockEndFrom, if_pos hidle]
    exact ih outerEnd hends (by omega)
  | case3 innerEnd pos c rest line hidle hindent =>
    exact hends.trans (le_blockEndFrom outer hpos _)
  | case4 innerEnd pos c rest line lineEnd hidle hindent ih =>
    have hdeep : ¬ indentWidth line ≤ outer := by omega
    rw [blockEndFrom, if_neg hidle, if_neg hdeep]
    exact ih lineEnd (Nat.le_refl _) (Nat.le_refl _)

/-- A line and the line feed before it add their bytes to what stands behind them. -/
theorem add_byteLength_lineTail (pos : Nat) (text : List Char) :
    pos + 1 + byteLength (lineHead text) + byteLength (lineTail text) =
      pos + byteLength ('\n' :: text) := by
  have hlines : byteLength (lineHead text) + byteLength (lineTail text) = byteLength text := by
    rw [← byteLength_append, lineHead_append_lineTail]
  rw [byteLength_cons, utf8Size_lineFeed]
  omega

/-- A reading ends before a line that is not idle, or it takes the line in and goes on behind it.
The line is then indented deeper than the base. -/
theorem blockEndFrom_append_feed (base blockEnd pos : Nat) (before : List Char)
    {behind : List Char} (h : blockEnd ≤ pos) (hfeed : ∀ c ∈ before.head?, c = '\n')
    (hidle : isIdleLine (lineHead behind) = false) :
    let stop := pos + byteLength before + 1 + byteLength (lineHead behind)
    blockEndFrom base blockEnd pos (before ++ '\n' :: behind) ≤ pos + byteLength before ∨
      base < indentWidth (lineHead behind) ∧
        blockEndFrom base blockEnd pos (before ++ '\n' :: behind) =
          blockEndFrom base stop stop (lineTail behind) := by
  -- The lines of `before` are read one by one, so the induction is the reading of `before` alone.
  fun_induction blockEndFrom base blockEnd pos before with
  | case1 blockEnd pos =>
    rw [List.nil_append, blockEndFrom, if_neg (by simp [hidle])]
    split
    · exact Or.inl (by simpa using h)
    · exact Or.inr ⟨by omega, by simp⟩
  | case2 blockEnd pos c rest line lineEnd hline ih =>
    obtain rfl : c = '\n' := hfeed c (by simp)
    obtain ⟨hhead, htail⟩ := line_append_feed rest behind
    rw [List.cons_append, blockEndFrom, hhead, htail, if_pos hline, ← add_byteLength_lineTail]
    exact ih (by omega) fun c hc => head?_lineTail hc
  | case3 blockEnd pos c rest line hline hindent =>
    obtain ⟨hhead, -⟩ := line_append_feed rest behind
    rw [List.cons_append, blockEndFrom, hhead, if_neg hline, if_pos hindent]
    exact Or.inl (by omega)
  | case4 blockEnd pos c rest line lineEnd hline hindent ih =>
    obtain rfl : c = '\n' := hfeed c (by simp)
    obtain ⟨hhead, htail⟩ := line_append_feed rest behind
    rw [List.cons_append, blockEndFrom, hhead, htail, if_neg hline, if_neg hindent,
      ← add_byteLength_lineTail]
    exact ih (Nat.le_refl lineEnd) fun c hc => head?_lineTail hc

/-! ## Headers -/

/-- A line of the text begins at `start`: nothing or a line feed stands before it, and it reaches
up to the next line feed. -/
def IsLineAt (text : List Char) (start : Nat) (line : List Char) : Prop :=
  ∃ head tail, text = head ++ tail ∧ start = byteLength head ∧
    (head = [] ∨ head.getLast? = some '\n') ∧ line = lineHead tail

/-- A header of one line begins at `start`. The line is neither blank nor a comment, and the offset
`headerEnd` falls between two characters of it or at one of its ends. -/
structure IsHeader (text : List Char) (start headerEnd : Nat) (line : List Char) : Prop where
  line_at : IsLineAt text start line
  not_idle : isIdleLine line = false
  boundary : isBoundary text headerEnd = true
  start_le : start ≤ headerEnd
  le_stop : headerEnd ≤ start + byteLength line

/-- A stretch without line feeds at the beginning of a line that is not idle ends in a header. -/
theorem isHeader_append {head header rest : List Char}
    (hstart : head = [] ∨ head.getLast? = some '\n') (hheader : '\n' ∉ header)
    (hidle : isIdleLine (lineHead (header ++ rest)) = false) :
    IsHeader (head ++ (header ++ rest)) (byteLength head) (byteLength (head ++ header))
      (lineHead (header ++ rest)) where
  line_at := ⟨head, header ++ rest, rfl, rfl, hstart, rfl⟩
  not_idle := hidle
  boundary := by
    rw [← List.append_assoc]
    exact isBoundary_append (head ++ header) rest
  start_le := by simp
  le_stop := by simp [lineHead_append hheader]

/-- The block of a header of one line is read from the end of the line on. -/
theorem IsHeader.indentedBodyEnd_eq {head tail : List Char} {headerEnd : Nat}
    (h : IsHeader (head ++ tail) (byteLength head) headerEnd (lineHead tail)) :
    let stop := byteLength (head ++ lineHead tail)
    indentedBodyEnd (head ++ tail) (byteLength head) headerEnd =
      blockEndFrom (indentWidth (lineHead tail)) stop stop (lineTail tail) := by
  obtain ⟨front, behind, hcut, rfl⟩ := exists_append_of_isBoundary h.boundary
  obtain ⟨read, rfl, htail⟩ := exists_append_of_byteLength_le hcut h.start_le
  -- The offset lies on the line, so the line is cut into what stands before and behind it.
  have hread : ∃ rest, lineHead tail = read ++ rest ∧ behind = rest ++ lineTail tail := by
    refine exists_append_of_byteLength_le ?_ ?_
    · rw [← htail, lineHead_append_lineTail]
    · have hle := h.le_stop
      rw [byteLength_append] at hle
      omega
  obtain ⟨rest, hline, rfl⟩ := hread
  have hrest : '\n' ∉ rest := fun hmem => not_mem_lineHead tail (by simp [hline, hmem])
  have hindent := indentWidth_lineHead (trim_ne_nil h.not_idle)
  have hend := indentedBodyEnd_cut (head ++ read) (rest ++ lineTail tail) (byteLength head)
  rw [← hcut] at hend
  simp only [hend, dropBytes_append, hindent, lineHead_append hrest, lineHead_lineTail,
    List.append_nil, lineTail_append hrest, lineTail_lineTail, ← byteLength_append,
    List.append_assoc, ← hline]

/-- Of two headers in a text, the line of the later one stands behind a line feed behind the line of
the earlier one. -/
theorem exists_between_lines {text : List Char} {a b : Nat} {first second : List Char}
    (ha : IsLineAt text a first) (hb : IsLineAt text b second) (hlt : a < b) :
    ∃ head between tail, text = head ++ (between ++ '\n' :: tail) ∧ a = byteLength head ∧
      first = lineHead between ∧ b = byteLength (head ++ between) + 1 ∧ second = lineHead tail := by
  obtain ⟨head, rest, rfl, rfl, -, rfl⟩ := ha
  obtain ⟨front, tail, hcut, rfl, hfront, rfl⟩ := hb
  obtain ⟨more, rfl, rfl⟩ := exists_append_of_byteLength_le hcut (by omega)
  have hmore : more ≠ [] := by
    rintro rfl
    simp at hlt
  have hlast : more.getLast? = some '\n' := by
    rcases hfront with hnil | hlast
    · exact absurd (List.append_eq_nil_iff.mp hnil).2 hmore
    · rwa [List.getLast?_append_of_ne_nil _ hmore] at hlast
  obtain ⟨between, rfl⟩ := List.getLast?_eq_some_iff.mp hlast
  refine ⟨head, between, tail, by simp, rfl, ?_, ?_, rfl⟩
  · rw [List.append_assoc, List.singleton_append, (line_append_feed between tail).1]
  · simp [Nat.add_assoc]

/-- The block of the earlier of two headers ends before the line of the later one, or the block of
the later one ends in it. -/
theorem IsHeader.disjoint_or_nested {text : List Char} {a b headerA headerB : Nat}
    {first second : List Char} (ha : IsHeader text a headerA first)
    (hb : IsHeader text b headerB second) (hlt : a < b) :
    indentedBodyEnd text a headerA ≤ b ∨
      indentedBodyEnd text b headerB ≤ indentedBodyEnd text a headerA := by
  obtain ⟨head, between, tail, rfl, rfl, rfl, rfl, rfl⟩ :=
    exists_between_lines ha.line_at hb.line_at hlt
  obtain ⟨hhead, htail⟩ := line_append_feed between tail
  have hstart : byteLength (head ++ between) + 1 = byteLength (head ++ (between ++ ['\n'])) := by
    simp [Nat.add_assoc]
  have htext : head ++ (between ++ '\n' :: tail) = head ++ (between ++ ['\n']) ++ tail := by simp
  have hlines : byteLength (head ++ lineHead between) + byteLength (lineTail between) =
      byteLength (head ++ between) := by
    rw [← byteLength_append, List.append_assoc, lineHead_append_lineTail]
  rw [← hhead] at ha
  rw [hstart, htext] at hb
  have hA := ha.indentedBodyEnd_eq
  have hB := hb.indentedBodyEnd_eq
  rw [← htext, ← hstart, byteLength_append, ← hstart] at hB
  simp only [hhead, htail] at hA
  rcases blockEndFrom_append_feed (indentWidth (lineHead between)) _ _ (lineTail between)
      (Nat.le_refl (byteLength (head ++ lineHead between))) (fun c hc => head?_lineTail hc)
      hb.not_idle with hbefore | ⟨hdeep, hpassed⟩
  · left
    rw [hA]
    omega
  · right
    rw [hA, hB, hpassed, hlines]
    exact blockEndFrom_le_of_base_le hdeep.le _ _ _ _ (Nat.le_refl _) (Nat.le_refl _)

end Scan

end CodeQuality
