import CodeQuality.Pattern.Basic
import CodeQuality.Proofs.Scan.Bracket
import CodeQuality.Proofs.Scan.Indentation
import CodeQuality.Proofs.Scan.Run

/-!
# Where scans let a text be cut

Scans answer with byte offsets, and a text may be cut at boundaries only. The bracket searches end
at ASCII marks, which have a boundary on both sides even when the search itself began within a
character. The reading of a block by indentation goes from line to line, and lines begin and end
at boundaries.
-/

namespace CodeQuality

namespace Text

/-- Where a text falls into two pieces there is a boundary. -/
theorem isBoundary_append (head tail : List Char) :
    isBoundary (head ++ tail) (byteLength head) = true := by
  induction head with
  | nil => cases tail <;> rfl
  | cons c rest ih =>
    obtain ⟨n, hn⟩ := Nat.exists_eq_add_one.mpr c.utf8Size_pos
    rw [byteLength_cons, hn, Nat.add_right_comm, List.cons_append, isBoundary, hn]
    simp [Nat.add_right_comm, ih]

/-- The text between the two offsets can be cut out. -/
structure Sliceable (text : List Char) (start stop : Nat) : Prop where
  start_le : start ≤ stop
  stop_le : stop ≤ byteLength text
  start_boundary : isBoundary text start = true
  stop_boundary : isBoundary text stop = true

/-- Each piece of a text can be cut out. -/
theorem sliceable_append (head body tail : List Char) :
    Sliceable (head ++ (body ++ tail)) (byteLength head) (byteLength (head ++ body)) where
  start_le := by simp
  stop_le := by simp
  start_boundary := isBoundary_append head (body ++ tail)
  stop_boundary := by
    rw [← List.append_assoc]
    exact isBoundary_append (head ++ body) tail

/-- The rest of a text behind a piece can be cut out. -/
theorem sliceable_behind (head tail : List Char) :
    Sliceable (head ++ tail) (byteLength head) (byteLength (head ++ tail)) := by
  simpa using sliceable_append head tail []

end Text

namespace Scan

open Text

/-! ## Brackets -/

/-- The ASCII mark stands in the text at `stop`, at or behind `start`. -/
structure MarkAt (text : List Char) (start : Nat) (mark : Char) (stop : Nat) : Prop where
  start_le : start ≤ stop
  stop_lt : stop < byteLength text
  byte_eq : (encode text)[stop]? = some (byte mark)
  ascii : (byte mark).toNat < 128
  /-- The mark can be cut out. -/
  sliceable : Sliceable text stop (stop + 1)

/-- A search that can only end at an ASCII mark ends at one, wherever it begins. -/
theorem markAt_of_search {σ : Type} {step : σ → UInt8 → Step σ} {mark : Char}
    (hascii : mark.toNat < 128) (hstep : ∀ state b, step state b = .found → b = byte mark)
    {text : List Char} {start stop : Nat} {style : CommentStyle} {state : σ}
    (h : search step (encode text) start style state = some stop) :
    MarkAt text start mark stop := by
  obtain ⟨pre, b, post, last, hpre, rfl, -, hfound⟩ := searchFrom_eq_some style step h
  obtain rfl := hstep last b hfound
  have hbyte : (byte mark).toNat < 128 := by
    rw [byte, toNat_toUInt8_of_ascii hascii]
    exact hascii
  have hstart : start ≤ (encode text).length := by
    by_contra hlt
    rw [List.drop_of_length_le (by omega)] at hpre
    simp at hpre
  have hcode : encode text = (encode text).take start ++ pre ++ byte mark :: post := by
    rw [List.append_assoc, ← hpre, List.take_append_drop]
  obtain ⟨head, c, tail, rfl, hhead, -, hc, hmark⟩ := exists_append_of_encode_eq hbyte hcode
  obtain rfl : mark = c := eq_of_toUInt8_eq hascii hc hmark
  have hlength : byteLength head = start + pre.length := by
    rw [← length_encode, hhead, List.length_append, List.length_take, Nat.min_eq_left hstart]
  have hsize : mark.utf8Size = 1 := by
    rw [← String.length_utf8EncodeChar, utf8EncodeChar_of_ascii hascii, List.length_singleton]
  rw [← hlength]
  exact {
    start_le := by omega
    stop_lt := by
      rw [byteLength_append, byteLength_cons, hsize]
      omega
    byte_eq := by
      rw [encode_append, ← length_encode, List.getElem?_append_right (Nat.le_refl _),
        encode_cons, utf8EncodeChar_of_ascii hascii]
      simp [byte]
    ascii := hbyte
    sliceable := by
      have hpiece := sliceable_append head [mark] tail
      rwa [byteLength_append, byteLength_cons, byteLength_nil, hsize] at hpiece }

/-- In a body at least one brace is open, so that closing one takes away a brace that is there. -/
theorem bodyStep_onward_ne {state next : BodyState} {b : UInt8} (h : state ≠ .inside 0)
    (hstep : bodyStep state b = .onward next) : next ≠ .inside 0 := by
  cases state with
  | outside parens =>
    simp only [bodyStep] at hstep
    split_ifs at hstep <;> cases hstep <;> simp
  | inside depth =>
    have hdepth : depth ≠ 0 := fun hzero => h (hzero ▸ rfl)
    simp only [bodyStep] at hstep
    split_ifs at hstep <;> cases hstep <;> simp [*]

/-! ## Blocks by indentation -/

/-- The offset at which the line of an offset ends. -/
def lineEnd (text : List Char) (offset : Nat) : Nat :=
  offset + byteLength (lineHead (dropBytes offset text))

/-- The line of a boundary ends behind what stands before the next line feed. -/
theorem lineEnd_append (head tail : List Char) :
    lineEnd (head ++ tail) (byteLength head) = byteLength (head ++ lineHead tail) := by
  rw [lineEnd, dropBytes_append, byteLength_append]

/-- The line behind the line feed at `pos` can be cut out. -/
structure LineBehind (text : List Char) (pos : Nat) (line : Span) : Prop where
  pos_lt : pos < byteLength text
  start_eq : line.start = pos + 1
  stop_eq : line.stop = lineEnd text line.start
  sliceable : Sliceable text line.start line.stop

/-- The reading of a block from the line feed at `pos` on up to its end, when the block ends at
`blockEnd` so far. Every line that is looked at can be cut out. -/
inductive ReadsBlock (text : List Char) (base : Nat) : Nat → Nat → Nat → Prop
  | ended {blockEnd pos} (hend : byteLength text ≤ pos) : ReadsBlock text base blockEnd pos blockEnd
  | idle {blockEnd pos line stop} (hline : LineBehind text pos line)
      (hidle : isIdleLine (slice text line.start line.stop) = true)
      (rest : ReadsBlock text base blockEnd line.stop stop) : ReadsBlock text base blockEnd pos stop
  | outer {blockEnd pos line} (hline : LineBehind text pos line)
      (hidle : ¬ isIdleLine (slice text line.start line.stop) = true)
      (hindent : indentWidth (slice text line.start line.stop) ≤ base) :
      ReadsBlock text base blockEnd pos blockEnd
  | inner {blockEnd pos line stop} (hline : LineBehind text pos line)
      (hidle : ¬ isIdleLine (slice text line.start line.stop) = true)
      (hindent : ¬ indentWidth (slice text line.start line.stop) ≤ base)
      (rest : ReadsBlock text base line.stop line.stop stop) :
      ReadsBlock text base blockEnd pos stop

/-- A line feed and the line behind it add their bytes. -/
theorem byteLength_append_feed (head line : List Char) :
    byteLength (head ++ '\n' :: line) = byteLength head + 1 + byteLength line := by
  rw [byteLength_append, byteLength_cons, utf8Size_lineFeed, Nat.add_assoc]

/-- Behind a line feed stands a line, which is what stands before the next line feed. -/
theorem lineBehind_feed (head rest : List Char) :
    ∃ line, LineBehind (head ++ '\n' :: rest) (byteLength head) line ∧
      line.stop = byteLength head + 1 + byteLength (lineHead rest) ∧
      slice (head ++ '\n' :: rest) line.start line.stop = lineHead rest := by
  have hstart : byteLength (head ++ ['\n']) = byteLength head + 1 := byteLength_append_feed head []
  have hend : byteLength (head ++ ['\n'] ++ lineHead rest) =
      byteLength head + 1 + byteLength (lineHead rest) := by
    rw [byteLength_append, hstart]
  have hlines := lineHead_append_lineTail rest
  refine ⟨⟨byteLength (head ++ ['\n']), byteLength (head ++ ['\n'] ++ lineHead rest)⟩,
    ⟨?_, hstart, ?_, ?_⟩, hend, ?_⟩
  · rw [byteLength_append_feed]
    omega
  · rw [List.append_cons head '\n' rest, lineEnd_append]
  · have hcut := sliceable_append (head ++ ['\n']) (lineHead rest) (lineTail rest)
    rwa [hlines, ← List.append_cons] at hcut
  · have hslice := slice_append (head ++ ['\n']) (lineHead rest) (lineTail rest)
    rwa [List.append_assoc _ (lineHead rest), hlines, ← List.append_cons] at hslice

/-- The reading of a block goes from line to line up to its end. -/
theorem readsBlock_blockEndFrom (base blockEnd : Nat) (head tail : List Char)
    (hfeed : ∀ c ∈ tail.head?, c = '\n') :
    ReadsBlock (head ++ tail) base blockEnd (byteLength head)
      (blockEndFrom base blockEnd (byteLength head) tail) := by
  have hnext (head rest : List Char) :
      head ++ '\n' :: lineHead rest ++ lineTail rest = head ++ '\n' :: rest := by
    rw [List.append_assoc, List.cons_append, lineHead_append_lineTail]
  generalize hpos : byteLength head = pos
  fun_induction blockEndFrom base blockEnd pos tail generalizing head with
  | case1 blockEnd pos => exact .ended (by simp [hpos])
  | case2 blockEnd pos c rest content stop hidle ih =>
    obtain rfl : c = '\n' := hfeed c (by simp)
    subst hpos
    obtain ⟨line, hline, hstop, hslice⟩ := lineBehind_feed head rest
    have hrest := ih (head ++ '\n' :: lineHead rest) (fun c hc => head?_lineTail hc)
      (byteLength_append_feed head _)
    rw [hnext] at hrest
    exact .idle hline (hslice ▸ hidle) (hstop ▸ hrest)
  | case3 blockEnd pos c rest content hidle hindent =>
    obtain rfl : c = '\n' := hfeed c (by simp)
    subst hpos
    obtain ⟨line, hline, hstop, hslice⟩ := lineBehind_feed head rest
    exact .outer hline (hslice ▸ hidle) (hslice ▸ hindent)
  | case4 blockEnd pos c rest content stop hidle hindent ih =>
    obtain rfl : c = '\n' := hfeed c (by simp)
    subst hpos
    obtain ⟨line, hline, hstop, hslice⟩ := lineBehind_feed head rest
    have hrest := ih (head ++ '\n' :: lineHead rest) (fun c hc => head?_lineTail hc)
      (byteLength_append_feed head _)
    rw [hnext] at hrest
    exact .inner hline (hslice ▸ hidle) (hslice ▸ hindent) (hstop ▸ hrest)

/-- One line stands behind a line feed. -/
theorem LineBehind.unique {text : List Char} {pos : Nat} {line line' : Span}
    (h : LineBehind text pos line) (h' : LineBehind text pos line') : line = line' := by
  have hstart : line.start = line'.start := h.start_eq.trans h'.start_eq.symm
  have hstop : line.stop = line'.stop := by rw [h.stop_eq, h'.stop_eq, hstart]
  exact congrArg₂ Span.mk hstart hstop

/-- The reading of a block has one end. -/
theorem ReadsBlock.unique {text : List Char} {base blockEnd pos stop stop' : Nat}
    (h : ReadsBlock text base blockEnd pos stop) (h' : ReadsBlock text base blockEnd pos stop') :
    stop = stop' := by
  induction h with
  | ended hend =>
    cases h' with
    | ended => rfl
    | idle hline' | outer hline' | inner hline' => exact absurd hline'.pos_lt (by omega)
  | idle hline hidle _ ih =>
    cases h' with
    | ended hend' => exact absurd hline.pos_lt (by omega)
    | idle hline' _ rest' =>
      obtain rfl := hline.unique hline'
      exact ih rest'
    | outer hline' hidle' | inner hline' hidle' =>
      obtain rfl := hline.unique hline'
      exact absurd hidle hidle'
  | outer hline hidle hindent =>
    cases h' with
    | ended | outer => rfl
    | idle hline' hidle' =>
      obtain rfl := hline.unique hline'
      exact absurd hidle' hidle
    | inner hline' _ hindent' =>
      obtain rfl := hline.unique hline'
      exact absurd hindent hindent'
  | inner hline hidle hindent _ ih =>
    cases h' with
    | ended hend' => exact absurd hline.pos_lt (by omega)
    | idle hline' hidle' =>
      obtain rfl := hline.unique hline'
      exact absurd hidle' hidle
    | outer hline' _ hindent' =>
      obtain rfl := hline.unique hline'
      exact absurd hindent' hindent
    | inner hline' _ _ rest' =>
      obtain rfl := hline.unique hline'
      exact ih rest'

/-- What the search for the end of a block by indentation does between its header and its
answer. -/
structure BlockEnds (text : List Char) (start headerEnd stop : Nat) : Prop where
  headerEnd_le : headerEnd ≤ stop
  stop_le : stop ≤ byteLength text
  boundary : isBoundary text stop = true
  /-- The rest of the header's last line can be cut out, and the block is read from its end on. -/
  header : Sliceable text headerEnd (lineEnd text headerEnd)
  reads : ReadsBlock text (indentWidth (dropBytes start text)) (lineEnd text headerEnd)
    (lineEnd text headerEnd) stop

/-- A block by indentation ends at a boundary behind its header. -/
theorem blockEnds_indentedBodyEnd {text : List Char} (start : Nat) {headerEnd : Nat}
    (hboundary : isBoundary text headerEnd = true) :
    BlockEnds text start headerEnd (indentedBodyEnd text start headerEnd) := by
  obtain ⟨head, tail, rfl, rfl⟩ := exists_append_of_isBoundary hboundary
  obtain ⟨more, rest, hmore, -, -, hend⟩ := exists_append_of_indentedBodyEnd head tail start
  have hlines := lineHead_append_lineTail tail
  exact {
    headerEnd_le := by simp [hend]
    stop_le := by simp [hend, congrArg byteLength hmore]
    boundary := by
      rw [hend, hmore, ← List.append_assoc]
      exact isBoundary_append (head ++ more) rest
    header := by
      rw [lineEnd_append]
      have hpiece := sliceable_append head (lineHead tail) (lineTail tail)
      rwa [hlines] at hpiece
    reads := by
      have hreads := readsBlock_blockEndFrom (indentWidth (dropBytes start (head ++ tail)))
        (byteLength (head ++ lineHead tail)) (head ++ lineHead tail) (lineTail tail)
        (fun c hc => head?_lineTail hc)
      rw [List.append_assoc, hlines] at hreads
      simp only [indentedBodyEnd_cut, lineEnd_append, ← byteLength_append]
      exact hreads }

end Scan

end CodeQuality
