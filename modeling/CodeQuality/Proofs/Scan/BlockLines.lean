import CodeQuality.Proofs.Scan.Nesting

/-!
# Blocks by their lines

The end of a block is found by going from line feed to line feed with two offsets: the end of the
line that was read last, and the end of the last line that belongs to the block. Here the end is
described by the lines of the text instead. Behind the header, the first line that is neither blank
nor a comment and not indented deeper stops the block. The last line before it that is neither blank
nor a comment ends the block, and without such a line the header does.

A line does one of three things to either description: it is passed over, it stops the block, or it
becomes its last line. So the two are compared line by line.
-/

namespace CodeQuality.Scan

open Text

/-! ## Lines in their places -/

/-- A line without its line feed, and the offset at which it begins. -/
structure Line where
  start : Nat
  chars : List Char

/-- The offset of the line feed behind the line, or the end of the text. -/
def Line.stop (line : Line) : Nat :=
  line.start + byteLength line.chars

/-- The offset falls on the line or at one of its ends. -/
def Line.Holds (line : Line) (offset : Nat) : Prop :=
  line.start ≤ offset ∧ offset ≤ line.stop

/-- Lines in a row from an offset on, with a line feed between any two. -/
def placeFrom : Nat → List (List Char) → List Line
  | _, [] => []
  | offset, chars :: rest => ⟨offset, chars⟩ :: placeFrom (offset + byteLength chars + 1) rest

/-- The lines of a text, which is cut at every line feed. -/
def placedLines (text : List Char) : List Line :=
  placeFrom 0 (text.splitOn '\n')

/-- The lines behind the one that ends at `pos`, where the text goes on with a line feed. -/
def linesBehind (pos : Nat) : List Char → List Line
  | [] => []
  | _ :: rest => placeFrom (pos + 1) (rest.splitOn '\n')

/-- The first line of a text reaches up to the first line feed, and the others follow it. -/
theorem placeFrom_splitOn (offset : Nat) (text : List Char) :
    placeFrom offset (text.splitOn '\n') =
      ⟨offset, lineHead text⟩ :: linesBehind (offset + byteLength (lineHead text))
        (lineTail text) := by
  have hnone : ∀ c ∈ lineHead text, (c == '\n') = false := by
    intro c hc
    simpa using ne_of_mem_of_not_mem hc (not_mem_lineHead text)
  rcases lineTail_eq_nil_or_cons text with htail | ⟨rest, htail⟩
  · have hpieces : text.splitOn '\n' = [lineHead text] := by
      conv_lhs => rw [← lineHead_eq_self htail]
      exact List.splitOnP_eq_singleton hnone
    rw [hpieces, htail]
    rfl
  · have hpieces : text.splitOn '\n' = lineHead text :: rest.splitOn '\n' := by
      conv_lhs => rw [← lineHead_append_lineTail text, htail]
      exact List.splitOnP_append_cons_of_forall_mem hnone '\n' rfl rest
    rw [hpieces, htail]
    rfl

/-- The lines behind a line feed are the line that begins there and those behind it. -/
theorem linesBehind_cons (pos : Nat) (c : Char) (rest : List Char) :
    linesBehind pos (c :: rest) =
      ⟨pos + 1, lineHead rest⟩ :: linesBehind (pos + 1 + byteLength (lineHead rest))
        (lineTail rest) :=
  placeFrom_splitOn (pos + 1) rest

/-- An offset at which a text is cut falls on one of its lines. That line reaches up to the next
line feed, and the others behind it follow there. -/
theorem exists_line_of_cut (offset : Nat) (head tail : List Char) :
    ∃ before header,
      placeFrom offset ((head ++ tail).splitOn '\n') =
        before ++ header :: linesBehind header.stop (lineTail tail) ∧
      header.start ≤ offset + byteLength head ∧
      header.stop = offset + byteLength head + byteLength (lineHead tail) := by
  -- The induction goes over the lines of the first piece.
  induction hlength : head.length using Nat.strong_induction_on generalizing offset head with
  | h length ih =>
    rcases lineTail_eq_nil_or_cons head with htail | ⟨more, htail⟩
    · have hnone : '\n' ∉ head := lineHead_eq_self htail ▸ not_mem_lineHead head
      refine ⟨[], ⟨offset, head ++ lineHead tail⟩, ?_, Nat.le_add_right _ _, ?_⟩
      · rw [placeFrom_splitOn, lineHead_append hnone, lineTail_append hnone]
        rfl
      · simp [Line.stop, Nat.add_assoc]
    · have hhead : head = lineHead head ++ '\n' :: more := by
        rw [← htail, lineHead_append_lineTail]
      obtain ⟨hfirst, hrest⟩ := line_append_of_lineTail htail tail
      have hshort : more.length < length := by
        have := congrArg List.length hhead
        simp only [List.length_append, List.length_cons] at this
        omega
      have hbytes : byteLength head = byteLength (lineHead head) + 1 + byteLength more := by
        conv_lhs => rw [hhead]
        rw [byteLength_append_feed]
      obtain ⟨before, header, hlines, hstart, hstop⟩ :=
        ih more.length hshort (offset + byteLength (lineHead head) + 1) more rfl
      refine ⟨⟨offset, lineHead head⟩ :: before, header, ?_, by omega, by omega⟩
      rw [placeFrom_splitOn, hfirst, hrest, linesBehind, hlines, List.cons_append]

/-- No line begins before the first one. -/
theorem le_start_of_mem_placeFrom {offset : Nat} {pieces : List (List Char)} {line : Line}
    (h : line ∈ placeFrom offset pieces) : offset ≤ line.start := by
  induction pieces generalizing offset with
  | nil => simp [placeFrom] at h
  | cons chars rest ih =>
    rcases List.mem_cons.mp h with rfl | hrest
    · exact Nat.le_refl _
    · have hle := ih hrest
      omega

/-- Every line ends before the later ones begin. -/
theorem pairwise_placeFrom (offset : Nat) (pieces : List (List Char)) :
    (placeFrom offset pieces).Pairwise fun a b => a.stop < b.start := by
  induction pieces generalizing offset with
  | nil => exact List.Pairwise.nil
  | cons chars rest ih =>
    apply List.Pairwise.cons _ (ih _)
    intro line hline
    exact le_start_of_mem_placeFrom hline

/-- An offset falls on one line only. -/
theorem eq_of_holds {before before' behind behind' : List Line} {header header' : Line}
    {offset : Nat} (hlines : before ++ header :: behind = before' ++ header' :: behind')
    (hpairwise : (before ++ header :: behind).Pairwise fun a b => a.stop < b.start)
    (hheader : header.Holds offset) (hheader' : header'.Holds offset) :
    header = header' ∧ behind = behind' := by
  rw [List.pairwise_append, List.pairwise_cons] at hpairwise
  obtain ⟨-, ⟨hbehind, -⟩, hbefore⟩ := hpairwise
  have hnotBefore : header' ∉ before := by
    intro hmem
    have hlt := hbefore header' hmem header List.mem_cons_self
    exact absurd (hheader.1.trans hheader'.2) (Nat.not_le_of_lt hlt)
  have hnotBehind : header' ∉ behind := by
    intro hmem
    have hlt := hbehind header' hmem
    exact absurd (hheader'.1.trans hheader.2) (Nat.not_le_of_lt hlt)
  exact ((List.append_cons_inj_of_notMem hnotBefore hnotBehind).mp hlines).2

/-! ## The end of a block by its lines -/

/-- The line is neither blank nor a comment. -/
def Line.isCode (line : Line) : Bool :=
  !(trim line.chars).isEmpty && (trim line.chars).head? != some '#'

/-- The line stops a block whose header has the indentation `base`. -/
def Line.stops (base : Nat) (line : Line) : Bool :=
  line.isCode && indentWidth line.chars ≤ base

/-- The last line of a block whose header ends with the line `header`. The lines `behind` it belong
to the block up to the first one that stops it, and the last of them that is neither blank nor a
comment is the last line. -/
def lastLine (base : Nat) (header : Line) (behind : List Line) : Line :=
  let body := behind.take (behind.findIdx (Line.stops base))
  (body.filter Line.isCode).getLast?.getD header

/-- The offset is the end of the block whose header has the indentation `base` and holds the offset
`headerEnd` on its last line. -/
def IsBlockEnd (text : List Char) (base headerEnd stop : Nat) : Prop :=
  ∃ before header behind, placedLines text = before ++ header :: behind ∧
    header.Holds headerEnd ∧ stop = (lastLine base header behind).stop

/-- A block has one end. -/
theorem IsBlockEnd.unique {text : List Char} {base headerEnd stop stop' : Nat}
    (h : IsBlockEnd text base headerEnd stop) (h' : IsBlockEnd text base headerEnd stop') :
    stop = stop' := by
  obtain ⟨before, header, behind, hlines, hheader, rfl⟩ := h
  obtain ⟨before', header', behind', hlines', hheader', rfl⟩ := h'
  have hpairwise := pairwise_placeFrom 0 (text.splitOn '\n')
  rw [← placedLines, hlines] at hpairwise
  obtain ⟨rfl, rfl⟩ := eq_of_holds (hlines.symm.trans hlines') hpairwise hheader hheader'
  rfl

/-- A line is passed over when it is blank or a comment. -/
theorem Line.isCode_eq (line : Line) : line.isCode = !isIdleLine line.chars := by
  rw [isCode, isIdleLine]
  cases trim line.chars with
  | nil => rfl
  | cons c rest => simp [bne]

theorem lastLine_nil (base : Nat) (header : Line) : lastLine base header [] = header := rfl

/-- A blank line or a comment neither stops a block nor becomes its last line. -/
theorem lastLine_cons_idle (base : Nat) (header : Line) {line : Line} (behind : List Line)
    (hidle : isIdleLine line.chars = true) :
    lastLine base header (line :: behind) = lastLine base header behind := by
  have hcode : line.isCode = false := by simp [Line.isCode_eq, hidle]
  have hstops : line.stops base = false := by simp [Line.stops, hcode]
  simp [lastLine, List.findIdx_cons, hstops, hcode]

/-- A line that is not indented deeper stops a block. -/
theorem lastLine_cons_stops (base : Nat) (header : Line) {line : Line} (behind : List Line)
    (hidle : ¬ isIdleLine line.chars = true) (hindent : indentWidth line.chars ≤ base) :
    lastLine base header (line :: behind) = header := by
  have hstops : line.stops base = true := by simp [Line.stops, Line.isCode_eq, hidle, hindent]
  simp [lastLine, List.findIdx_cons, hstops]

/-- A line that is indented deeper becomes the last line of a block. -/
theorem lastLine_cons_deeper (base : Nat) (header : Line) {line : Line} (behind : List Line)
    (hidle : ¬ isIdleLine line.chars = true) (hindent : ¬ indentWidth line.chars ≤ base) :
    lastLine base header (line :: behind) = lastLine base line behind := by
  have hcode : line.isCode = true := by simp [Line.isCode_eq, hidle]
  have hstops : line.stops base = false := by simp [Line.stops, hindent]
  simp [lastLine, List.findIdx_cons, hstops, hcode, List.getLast?_cons]

/-- The text behind a line is read as its lines. -/
theorem blockEndFrom_eq_lastLine (base pos : Nat) (header : Line) (text : List Char) :
    blockEndFrom base header.stop pos text =
      (lastLine base header (linesBehind pos text)).stop := by
  generalize hend : header.stop = blockEnd
  fun_induction blockEndFrom base blockEnd pos text generalizing header with
  | case1 blockEnd pos => rw [linesBehind, lastLine_nil, hend]
  | case2 blockEnd pos c rest line lineEnd hidle ih =>
    rw [linesBehind_cons, lastLine_cons_idle _ _ _ hidle]
    exact ih header hend
  | case3 blockEnd pos c rest line hidle hindent =>
    rw [linesBehind_cons, lastLine_cons_stops _ _ _ hidle hindent, hend]
  | case4 blockEnd pos c rest line lineEnd hidle hindent ih =>
    rw [linesBehind_cons, lastLine_cons_deeper _ _ _ hidle hindent]
    exact ih ⟨pos + 1, lineHead rest⟩ rfl

/-- The search for the end of a block finds the one that its lines give. -/
theorem isBlockEnd_indentedBodyEnd {text : List Char} (start : Nat) {headerEnd : Nat}
    (hboundary : isBoundary text headerEnd = true) :
    IsBlockEnd text (indentWidth (dropBytes start text)) headerEnd
      (indentedBodyEnd text start headerEnd) := by
  obtain ⟨head, tail, rfl, rfl⟩ := exists_append_of_isBoundary hboundary
  obtain ⟨before, header, hlines, hstart, hstop⟩ := exists_line_of_cut 0 head tail
  rw [Nat.zero_add] at hstart hstop
  refine ⟨before, header, _, hlines, ⟨hstart, by omega⟩, ?_⟩
  rw [indentedBodyEnd_cut, ← hstop, blockEndFrom_eq_lastLine]

/-- The line at the beginning of a block gives the indentation of its header when the line is not
blank. -/
theorem indentWidth_of_isLineAt {text line : List Char} {start : Nat}
    (h : IsLineAt text start line) (hblank : trim line ≠ []) :
    indentWidth (dropBytes start text) = indentWidth line := by
  obtain ⟨head, tail, rfl, rfl, -, rfl⟩ := h
  rw [dropBytes_append]
  exact indentWidth_lineHead hblank

/-- A block that begins with a line that is not blank, and whose header reaches up to any place of
the text, ends where its lines say. The reading at offsets that looks for the end comes to an end,
and it is the same one. -/
theorem indentedBodyEnd_by_lines {text line : List Char} {start headerEnd : Nat}
    (hline : IsLineAt text start line) (hblank : trim line ≠ [])
    (hboundary : isBoundary text headerEnd = true) :
    let base := indentWidth line
    let headerStop := lineEnd text headerEnd
    (∀ stop, IsBlockEnd text base headerEnd stop ↔ stop = indentedBodyEnd text start headerEnd) ∧
    ∀ stop, ReadsBlock text base headerStop headerStop stop ↔
      stop = indentedBodyEnd text start headerEnd := by
  intro base headerStop
  have hbase := indentWidth_of_isLineAt hline hblank
  have hreads := (blockEnds_indentedBodyEnd start hboundary).reads
  rw [hbase] at hreads
  have hblock := isBlockEnd_indentedBodyEnd start hboundary
  rw [hbase] at hblock
  constructor
  · intro stop
    exact ⟨fun h => h.unique hblock, fun h => h ▸ hblock⟩
  · intro stop
    exact ⟨fun h => h.unique hreads, fun h => h ▸ hreads⟩

/-- A header of two lines that begins inside of a text. A blank line and a comment without
indentation stand in the block, a blank line and a comment behind it do not belong to it, and its
last line ends with a carriage return. -/
theorem indentedBodyEnd_by_lines_header :
    let text := "x\n  def f(\n  a):\n\n# c\n    y\r\n\n  # d\n  z\n".toList
    let line := "  def f(".toList
    IsLineAt text 2 line ∧ trim line ≠ [] ∧ isBoundary text 13 = true ∧
      indentedBodyEnd text 2 13 = 28 ∧ IsBlockEnd text 2 13 28 ∧ ReadsBlock text 2 16 16 28 := by
  intro text line
  have hline : IsLineAt text 2 line :=
    ⟨text.take 2, text.drop 2, by simp, by decide, Or.inr (by decide), by decide⟩
  have hblank : trim line ≠ [] := by decide
  have hboundary : isBoundary text 13 = true := by decide
  have hend : indentedBodyEnd text 2 13 = 28 := by decide +kernel
  obtain ⟨hblock, hreads⟩ := indentedBodyEnd_by_lines hline hblank hboundary
  exact ⟨hline, hblank, hboundary, hend, (hblock 28).mpr hend.symm, (hreads 28).mpr hend.symm⟩

end CodeQuality.Scan
