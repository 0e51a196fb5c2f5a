import CodeQuality.Metric.Assessment
import CodeQuality.Proofs.LineCount

/-!
# Logical lines and lines of code

The length of a function looks at each line of its body alone, while the counts of a text remember
whether a block comment is open. So the two differ exactly by the lines within block comments that
do not begin with a mark themselves. Those are lines of a function's length and comments of the
count.
-/

namespace CodeQuality

open Text

/-- The line is not blank and begins with neither mark of a comment between slashes. -/
def isUnmarked (line : List Char) : Bool :=
  !(trim line).isEmpty && !CommentStyle.slashes.marks (trim line)

/-- The number of unmarked lines with a block comment open before them, given whether one is open
before the first line. -/
def hiddenLines (style : CommentStyle) (inBlock : Bool) (lines : List (List Char)) : Nat :=
  (List.range lines.length).countP fun i =>
    openAfter style inBlock (lines.take i) && lines[i]?.any isUnmarked

/-- The first line is hidden by the block that is open before it, the others by what it leaves. -/
theorem hiddenLines_cons (style : CommentStyle) (inBlock : Bool) (line : List Char)
    (rest : List (List Char)) :
    hiddenLines style inBlock (line :: rest) =
      (if inBlock && isUnmarked line then 1 else 0) +
        hiddenLines style (classifyLine style inBlock (trim line)).2 rest := by
  have hlater : ((fun i => openAfter style inBlock ((line :: rest).take i) &&
      (line :: rest)[i]?.any isUnmarked) ∘ Nat.succ) = fun i =>
        openAfter style (classifyLine style inBlock (trim line)).2 (rest.take i) &&
          rest[i]?.any isUnmarked := by
    funext i
    simp [openAfter]
  rw [hiddenLines, List.length_cons, List.range_succ_eq_map, List.countP_cons, List.countP_map,
    hlater, Nat.add_comm, hiddenLines]
  rfl

/-- With slashes a line is a comment by its mark or by the block it lies in. -/
theorem classifyLine_slashes_marks (inBlock : Bool) {text : List Char} (h : text ≠ []) :
    (classifyLine .slashes inBlock text).1 =
      if CommentStyle.slashes.marks text || inBlock then .comment else .code := by
  rw [classifyLine_slashes_fst inBlock h]
  refine if_congr ?_ rfl rfl
  simp [CommentStyle.marks, or_assoc]

/-- With hash signs a line is a comment by its mark. -/
theorem classifyLine_hash_marks (inBlock : Bool) {text : List Char} (h : text ≠ []) :
    (classifyLine .hash inBlock text).1 =
      if CommentStyle.hash.marks text then .comment else .code := by
  rw [classifyLine_hash_fst inBlock h]
  refine if_congr ?_ rfl rfl
  simp [CommentStyle.marks]

section Steps

variable {style : CommentStyle} {inBlock : Bool} (hhash : style = .hash → inBlock = false)
include hhash

/-- A logical line is a line of code or hidden in a block comment, and not both. -/
theorem logical_step (line : List Char) :
    (if !(trim line).isEmpty && !style.marks (trim line) then 1 else 0) =
      (if (classifyLine style inBlock (trim line)).1 == .code then 1 else 0) +
        (if inBlock && isUnmarked line then 1 else 0) := by
  rw [isUnmarked]
  generalize trim line = text
  by_cases hempty : text = []
  · simp [classifyLine, hempty]
  · cases style with
    | hash =>
      rw [classifyLine_hash_marks inBlock hempty, hhash rfl]
      cases CommentStyle.hash.marks text <;> simp [hempty]
    | slashes =>
      rw [classifyLine_slashes_marks inBlock hempty]
      cases CommentStyle.slashes.marks text <;> cases inBlock <;> simp [hempty]

/-- A hidden line is a comment. -/
theorem hidden_step (line : List Char) :
    (if inBlock && isUnmarked line then 1 else 0) ≤
      (if (classifyLine style inBlock (trim line)).1 == .comment then 1 else 0) := by
  rw [isUnmarked]
  generalize trim line = text
  by_cases hempty : text = []
  · simp [hempty]
  · cases style with
    | hash => simp [hhash rfl]
    | slashes =>
      rw [classifyLine_slashes_marks inBlock hempty]
      cases CommentStyle.slashes.marks text <;> cases inBlock <;> simp [hempty]

/-- No block is open behind a line with hash signs either. -/
theorem classifyLine_snd_of_hash (line : List Char) :
    style = .hash → (classifyLine style inBlock (trim line)).2 = false := by
  rintro rfl
  rw [classifyLine_hash_snd, hhash rfl]

/-- The logical lines are the lines of code and the hidden ones. -/
theorem countP_logical (lines : List (List Char)) :
    ((lines.map trim).countP fun line => !line.isEmpty && !style.marks line) =
      (lineKinds style inBlock lines).count .code + hiddenLines style inBlock lines := by
  induction lines generalizing inBlock with
  | nil => rfl
  | cons line rest ih =>
    have hstep := logical_step hhash line
    have hrest := ih (classifyLine_snd_of_hash hhash line)
    rw [hiddenLines_cons, lineKinds, List.count_cons, List.map_cons, List.countP_cons]
    omega

/-- There are no more hidden lines than comments. -/
theorem hiddenLines_le (lines : List (List Char)) :
    hiddenLines style inBlock lines ≤ (lineKinds style inBlock lines).count .comment := by
  induction lines generalizing inBlock with
  | nil => exact Nat.le_refl 0
  | cons line rest ih =>
    have hstep := hidden_step hhash line
    have hrest := ih (classifyLine_snd_of_hash hhash line)
    rw [hiddenLines_cons, lineKinds, List.count_cons]
    omega

end Steps

/-- No line is hidden where no block is open. -/
theorem hiddenLines_eq_zero {style : CommentStyle} {inBlock : Bool} {lines : List (List Char)}
    (h : ∀ i, openAfter style inBlock (lines.take i) = false) :
    hiddenLines style inBlock lines = 0 := by
  simp [hiddenLines, h]

/-- Every block comment closes on the line that it opens on. -/
def BlocksCloseAtOnce (lines : List (List Char)) : Prop :=
  ∀ i, ¬ InBlock lines i → ∀ line ∈ lines[i]?, ¬ OpensBlock line

/-- Where every block closes on its line, no line lies in a block. -/
theorem BlocksCloseAtOnce.not_inBlock {lines : List (List Char)} (h : BlocksCloseAtOnce lines)
    (i : Nat) : ¬ InBlock lines i := by
  rw [InBlock]
  rintro ⟨opener, -, ⟨line, hline, hopens⟩, hout, -⟩
  exact h opener hout line hline hopens

/-- The logical lines of a body are its lines of code and the unmarked lines that the count sees in
an open block comment, of which there are none with hash signs. So they are no fewer than the lines
of code and no more than those with the comments, and just the lines of code where every block
comment closes on the line that it opens on. -/
theorem logicalLines_eq_code_add_hidden (body : List Char) (style : CommentStyle) :
    let count := LineCount.ofText body style
    let hidden := hiddenLines style false (lines body)
    logicalLines body style = count.code + hidden ∧
      (style = .hash → hidden = 0) ∧
      (style = .slashes → hidden = (List.range (lines body).length).countP fun i =>
        decide (InBlock (lines body) i) && (lines body)[i]?.any isUnmarked) ∧
      count.code ≤ logicalLines body style ∧
      logicalLines body style ≤ count.code + count.comment ∧
      (BlocksCloseAtOnce (lines body) → count.code = logicalLines body style) := by
  intro count hidden
  have hcount : count = LineCount.ofKinds (lineKinds style false (lines body)) :=
    LineCount.ofText_eq_ofKinds body style
  have hlogical : logicalLines body style = count.code + hidden := by
    rw [logicalLines, ← List.countP_eq_length_filter, hcount]
    exact countP_logical (fun _ => rfl) (lines body)
  have hcomment : hidden ≤ count.comment := by
    rw [hcount]
    exact hiddenLines_le (fun _ => rfl) (lines body)
  have hhash : style = .hash → hidden = 0 := by
    rintro rfl
    exact hiddenLines_eq_zero fun i => openAfter_hash false _
  refine ⟨hlogical, hhash, ?_, by omega, by omega, fun hclose => ?_⟩
  · rintro rfl
    exact List.countP_congr fun i _ => by simp [openAfter_take_iff]
  · have hnone : hidden = 0 := by
      cases style with
      | hash => exact hhash rfl
      | slashes =>
        refine hiddenLines_eq_zero fun i => ?_
        simpa using (openAfter_take_iff (lines body) i).mp.mt (hclose.not_inBlock i)
    omega

/-- A body whose only block comment closes on its line, though a line of code holds the opening
mark, and one with two hidden lines in a block comment. -/
theorem logicalLines_eq_code_add_hidden_blocks :
    let closed := "/* a */\n// b\nx /*\ny\n".toList
    let opened := "/*\nx\n// y\n*/\nz\n".toList
    BlocksCloseAtOnce (lines closed) ∧
      (LineCount.ofText closed .slashes).code = logicalLines closed .slashes ∧
      logicalLines closed .slashes = 2 ∧
      logicalLines opened .slashes =
        (LineCount.ofText opened .slashes).code + hiddenLines .slashes false (lines opened) ∧
      logicalLines opened .slashes = 3 ∧ hiddenLines .slashes false (lines opened) = 2 := by
  intro closed opened
  have hline : ∀ line ∈ lines closed, (classifyLine .slashes false (trim line)).2 = false := by
    decide
  have hclose : BlocksCloseAtOnce (lines closed) := by
    intro i _ line hmem hopens
    have hbit := (classifyLine_slashes_snd false line).mpr (Or.inr ⟨rfl, hopens⟩)
    rw [hline line (List.mem_of_getElem? hmem)] at hbit
    exact absurd hbit (by decide)
  obtain ⟨-, -, -, -, -, hequal⟩ := logicalLines_eq_code_add_hidden closed .slashes
  obtain ⟨hsum, -⟩ := logicalLines_eq_code_add_hidden opened .slashes
  exact ⟨hclose, hequal hclose, by decide, hsum, by decide, by decide⟩

end CodeQuality
