import CodeQuality.LineCount
import CodeQuality.Proofs.Text.Lines
import CodeQuality.Proofs.Text.Search

/-!
# Lines and block comments

Lines are classified one by one with a single bit of memory. Here their kinds are described by the
block comments of the text instead. A block opens at a line outside of every block that begins
with the opening mark and does not hold the closing mark behind it, and it reaches through the
first later line that holds the closing mark. The bit is set before a line exactly when the line
lies in a block, so the two descriptions agree on every line.

The same bit is all that one piece of a text leaves to the next, which makes counts additive where
no block is open.
-/

namespace CodeQuality

open Text

/-! ## Blocks -/

/-- The line begins with the opening mark, and no closing mark stands behind it. -/
def OpensBlock (line : List Char) : Prop :=
  ∃ rest, trim line = ['/', '*'] ++ rest ∧ ¬ ['*', '/'] <:+: rest

/-- The line holds the closing mark. -/
def ClosesBlock (line : List Char) : Prop :=
  ['*', '/'] <:+: trim line

/-- The line at an index lies in a block behind the line that opens it: that line lies in no block
itself, and no line between the two closes the block. -/
def InBlock (lines : List (List Char)) (i : Nat) : Prop :=
  ∃ opener, ∃ _ : opener < i, (∃ line ∈ lines[opener]?, OpensBlock line) ∧
    ¬ InBlock lines opener ∧ ∀ k, opener < k → k < i → ∀ line ∈ lines[k]?, ¬ ClosesBlock line
termination_by i

/-- The line at an index is a comment if it is not blank: it begins with a mark of the style or
lies in a block. -/
def IsCommented (style : CommentStyle) (lines : List (List Char)) (i : Nat) (line : List Char) :
    Prop :=
  match style with
  | .slashes => ['/', '/'] <+: trim line ∨ ['/', '*'] <+: trim line ∨ InBlock lines i
  | .hash => ['#'] <+: trim line

/-- The kind is the one that the block comments of the text give to the line at an index. -/
structure IsKindAt (style : CommentStyle) (lines : List (List Char)) (i : Nat) (line : List Char)
    (kind : LineKind) : Prop where
  blank : kind = .blank ↔ trim line = []
  comment : kind = .comment ↔ trim line ≠ [] ∧ IsCommented style lines i line
  code : kind = .code ↔ trim line ≠ [] ∧ ¬ IsCommented style lines i line

/-- A line lies in a block when the line before it does and does not close it, or opens one. -/
theorem inBlock_succ (lines : List (List Char)) (i : Nat) :
    InBlock lines (i + 1) ↔
      (InBlock lines i ∧ ∀ line ∈ lines[i]?, ¬ ClosesBlock line) ∨
        (¬ InBlock lines i ∧ ∃ line ∈ lines[i]?, OpensBlock line) := by
  constructor
  · intro h
    rw [InBlock] at h
    obtain ⟨opener, hlt, hopens, hout, hbetween⟩ := h
    rcases Nat.lt_succ_iff_lt_or_eq.mp hlt with hbefore | rfl
    · left
      refine ⟨?_, hbetween i hbefore (Nat.lt_succ_self i)⟩
      rw [InBlock]
      exact ⟨opener, hbefore, hopens, hout, fun k hk hki => hbetween k hk (by omega)⟩
    · exact Or.inr ⟨hout, hopens⟩
  · rintro (⟨hin, hopen⟩ | ⟨hout, hopens⟩)
    · rw [InBlock] at hin ⊢
      obtain ⟨opener, hlt, hopens, hout, hbetween⟩ := hin
      refine ⟨opener, by omega, hopens, hout, fun k hk hki => ?_⟩
      rcases Nat.lt_succ_iff_lt_or_eq.mp hki with hbefore | rfl
      · exact hbetween k hk hbefore
      · exact hopen
    · rw [InBlock]
      exact ⟨i, Nat.lt_succ_self i, hopens, hout, fun k hk hki => by omega⟩

/-- The first line lies in no block. -/
theorem not_inBlock_zero (lines : List (List Char)) : ¬ InBlock lines 0 := by
  rw [InBlock]
  rintro ⟨opener, hlt, -⟩
  exact absurd hlt (Nat.not_lt_zero opener)

/-! ## The bit between two lines -/

/-- A block comment is open behind the lines, given whether one is open before them. -/
def openAfter (style : CommentStyle) (inBlock : Bool) (lines : List (List Char)) : Bool :=
  lines.foldl (fun inBlock line => (classifyLine style inBlock (trim line)).2) inBlock

/-- The bit is set behind a line in a block that does not close it, and behind a line outside of
blocks that opens one. -/
theorem classifyLine_slashes_snd (inBlock : Bool) (line : List Char) :
    (classifyLine .slashes inBlock (trim line)).2 = true ↔
      (inBlock = true ∧ ¬ ClosesBlock line) ∨ (inBlock = false ∧ OpensBlock line) := by
  rw [ClosesBlock, OpensBlock]
  generalize trim line = text
  by_cases hempty : text = []
  · simp [classifyLine, hempty]
  · rw [classifyLine, if_neg (by simpa using hempty)]
    cases inBlock with
    | true => simp [← holds_iff_isInfix]
    | false =>
      cases hmark : dropPrefix? ['/', '*'] text with
      | none =>
        have hnone : ¬ ∃ rest, text = ['/', '*'] ++ rest ∧ ¬ ['*', '/'] <:+: rest := by
          rintro ⟨rest, hrest, -⟩
          exact dropPrefix?_eq_none_iff.mp hmark ⟨rest, hrest.symm⟩
        simpa using hnone
      | some rest =>
        rw [dropPrefix?_eq_some_iff.mp hmark]
        simp [← holds_iff_isInfix]

/-- With hash signs a line leaves the bit as it is. -/
theorem classifyLine_hash_snd (inBlock : Bool) (text : List Char) :
    (classifyLine .hash inBlock text).2 = inBlock := by
  rw [classifyLine]
  split <;> rfl

/-- With hash signs no line changes the bit. -/
theorem openAfter_hash (inBlock : Bool) (lines : List (List Char)) :
    openAfter .hash inBlock lines = inBlock := by
  induction lines generalizing inBlock with
  | nil => rfl
  | cons line rest ih =>
    rw [openAfter, List.foldl_cons, classifyLine_hash_snd]
    exact ih inBlock

/-- Behind one more line the bit is the one that this line leaves. -/
theorem openAfter_take_succ (style : CommentStyle) (inBlock : Bool) {lines : List (List Char)}
    {i : Nat} {line : List Char} (h : lines[i]? = some line) :
    openAfter style inBlock (lines.take (i + 1)) =
      (classifyLine style (openAfter style inBlock (lines.take i)) (trim line)).2 := by
  simp [openAfter, List.take_add_one, h]

/-- The bit before a line is set exactly when the line lies in a block. -/
theorem openAfter_take_iff (lines : List (List Char)) (i : Nat) :
    openAfter .slashes false (lines.take i) = true ↔ InBlock lines i := by
  induction i with
  | zero => simp [openAfter, not_inBlock_zero]
  | succ i ih =>
    rw [inBlock_succ]
    cases hline : lines[i]? with
    | none =>
      have hlength : lines.length ≤ i := List.getElem?_eq_none_iff.mp hline
      rw [List.take_of_length_le hlength] at ih
      rw [List.take_of_length_le (by omega), ih]
      simp
    | some line =>
      rw [openAfter_take_succ _ _ hline, classifyLine_slashes_snd, ← Bool.not_eq_true, ih]
      simp

instance (lines : List (List Char)) (i : Nat) : Decidable (InBlock lines i) :=
  decidable_of_iff _ (openAfter_take_iff lines i)

/-! ## Kinds -/

/-- There is a kind for each line. -/
@[simp] theorem length_lineKinds (style : CommentStyle) (inBlock : Bool)
    (lines : List (List Char)) : (lineKinds style inBlock lines).length = lines.length := by
  induction lines generalizing inBlock with
  | nil => rfl
  | cons line rest ih => simp [lineKinds, ih]

/-- With hash signs a line is a comment by its first character. -/
theorem classifyLine_hash_fst (inBlock : Bool) {text : List Char} (h : text ≠ []) :
    (classifyLine .hash inBlock text).1 = if ['#'] <+: text then .comment else .code := by
  rw [classifyLine, if_neg (by simpa using h)]
  simp only [List.isPrefixOf_iff_prefix]

/-- With slashes a line is a comment by its first two characters or by the bit before it. -/
theorem classifyLine_slashes_fst (inBlock : Bool) {text : List Char} (h : text ≠ []) :
    (classifyLine .slashes inBlock text).1 =
      if ['/', '/'] <+: text ∨ ['/', '*'] <+: text ∨ inBlock = true then .comment else .code := by
  rw [classifyLine, if_neg (by simpa using h)]
  cases inBlock with
  | true => simp
  | false =>
    cases hmark : dropPrefix? ['/', '*'] text with
    | none =>
      have hopen := dropPrefix?_eq_none_iff.mp hmark
      simp [List.isPrefixOf_iff_prefix, hopen]
    | some rest =>
      have hopen : ['/', '*'] <+: text := ⟨rest, (dropPrefix?_eq_some_iff.mp hmark).symm⟩
      simp [hopen]

/-- With the right bit before it a line is given its kind. -/
theorem isKindAt_classifyLine {style : CommentStyle} {lines : List (List Char)} {i : Nat}
    {inBlock : Bool} (line : List Char)
    (hbit : style = .slashes → (inBlock = true ↔ InBlock lines i)) :
    IsKindAt style lines i line (classifyLine style inBlock (trim line)).1 := by
  classical
  by_cases hempty : trim line = []
  · constructor <;> simp [classifyLine, hempty]
  · have hkind : (classifyLine style inBlock (trim line)).1 =
        if IsCommented style lines i line then .comment else .code := by
      cases style with
      | hash =>
        rw [classifyLine_hash_fst inBlock hempty]
        exact if_congr Iff.rfl rfl rfl
      | slashes =>
        rw [classifyLine_slashes_fst inBlock hempty]
        exact if_congr (or_congr_right (or_congr_right (hbit rfl))) rfl rfl
    by_cases hcomment : IsCommented style lines i line
    · constructor <;> simp [hkind, hempty, hcomment]
    · constructor <;> simp [hkind, hempty, hcomment]

/-- The kinds of two pieces follow each other, with the bit that the first piece leaves. -/
theorem lineKinds_append (style : CommentStyle) (inBlock : Bool) (head tail : List (List Char)) :
    lineKinds style inBlock (head ++ tail) =
      lineKinds style inBlock head ++ lineKinds style (openAfter style inBlock head) tail := by
  induction head generalizing inBlock with
  | nil => rfl
  | cons line rest ih => simp only [List.cons_append, lineKinds, ih, openAfter, List.foldl_cons]

/-- A line is classified with the bit that the lines before it leave. -/
theorem getElem?_lineKinds (style : CommentStyle) (inBlock : Bool) {lines : List (List Char)}
    {i : Nat} {line : List Char} (h : lines[i]? = some line) :
    (lineKinds style inBlock lines)[i]? =
      some (classifyLine style (openAfter style inBlock (lines.take i)) (trim line)).1 := by
  induction lines generalizing inBlock i with
  | nil => simp at h
  | cons first rest ih =>
    cases i with
    | zero =>
      obtain rfl : first = line := by simpa using h
      rfl
    | succ i => exact ih _ (by simpa using h)

/-! ## Counts -/

namespace LineCount

/-- The numbers of lines in two pieces, taken together. -/
def sum (a b : LineCount) : LineCount where
  total := a.total + b.total
  code := a.code + b.code
  comment := a.comment + b.comment
  blank := a.blank + b.blank

/-- The counts of a list of kinds. -/
def ofKinds (kinds : List LineKind) : LineCount where
  total := kinds.length
  code := kinds.count .code
  comment := kinds.count .comment
  blank := kinds.count .blank

/-- Every line adds one to the total and to the count of its kind. -/
theorem foldl_add (count : LineCount) (kinds : List LineKind) :
    kinds.foldl add count = sum count (ofKinds kinds) := by
  induction kinds generalizing count with
  | nil => rfl
  | cons kind rest ih =>
    rw [List.foldl_cons, ih]
    cases kind <;> simp [add, sum, ofKinds] <;> omega

/-- The counts of a text are those of its kinds of lines. -/
theorem ofText_eq_ofKinds (text : List Char) (style : CommentStyle) :
    ofText text style = ofKinds (lineKinds style false (lines text)) := by
  rw [ofText, foldl_add]
  simp [sum]

/-- The total is the number of lines. -/
theorem total_ofText (text : List Char) (style : CommentStyle) :
    (ofText text style).total = (lines text).length := by
  simp [ofText_eq_ofKinds, ofKinds]

/-- Every line is of one kind. -/
theorem parts_ofKinds (kinds : List LineKind) :
    (ofKinds kinds).code + (ofKinds kinds).comment + (ofKinds kinds).blank =
      (ofKinds kinds).total := by
  induction kinds with
  | nil => rfl
  | cons kind rest ih =>
    simp only [ofKinds] at ih
    cases kind <;> simp [ofKinds] <;> omega

theorem parts_ofText (text : List Char) (style : CommentStyle) :
    (ofText text style).code + (ofText text style).comment + (ofText text style).blank =
      (ofText text style).total := by
  rw [ofText_eq_ofKinds, parts_ofKinds]

/-- Every character stands on a line that is counted. -/
theorem count_lt_total_ofText (style : CommentStyle) (head : List Char) (c : Char)
    (tail : List Char) : head.count '\n' < (ofText (head ++ c :: tail) style).total := by
  rw [total_ofText]
  exact count_lt_length_linesAfter [] head c tail

/-- The counts of two lists of kinds add up. -/
theorem ofKinds_append (a b : List LineKind) : ofKinds (a ++ b) = sum (ofKinds a) (ofKinds b) := by
  simp [ofKinds, sum]

/-- The lines of a text are classified by its block comments and counted by their kinds, every line
is of one kind, and the counts of two pieces add up where the cut is behind a line feed and no
block is open. -/
theorem ofText_classifies (style : CommentStyle) :
    (∀ text : List Char,
      ofText text style = ofKinds (lineKinds style false (lines text)) ∧
      (∀ i line, (lines text)[i]? = some line →
        ∃ kind, (lineKinds style false (lines text))[i]? = some kind ∧
          IsKindAt style (lines text) i line kind) ∧
      (ofText text style).total =
        (ofText text style).code + (ofText text style).comment + (ofText text style).blank ∧
      (ofText text style).total = (lines text).length) ∧
    ∀ head tail : List Char, (head = [] ∨ head.getLast? = some '\n') →
      (style = .slashes → ¬ InBlock (lines head) (lines head).length) →
      ofText (head ++ tail) style = sum (ofText head style) (ofText tail style) := by
  constructor
  · intro text
    refine ⟨ofText_eq_ofKinds text style, ?_, (parts_ofText text style).symm,
      total_ofText text style⟩
    intro i line hline
    refine ⟨_, getElem?_lineKinds style false hline, isKindAt_classifyLine line ?_⟩
    rintro rfl
    exact openAfter_take_iff (lines text) i
  · intro head tail hcut hclosed
    have hbit : openAfter style false (lines head) = false := by
      cases style with
      | hash => exact openAfter_hash false (lines head)
      | slashes =>
        have hopen := (openAfter_take_iff (lines head) (lines head).length).mp.mt (hclosed rfl)
        simpa using hopen
    simp only [ofText_eq_ofKinds, lines_append hcut, lineKinds_append, hbit, ofKinds_append]

/-- A line that opens a block and would close another, a blank line and a line with a closing mark
before an opening one in it, and a second piece that begins outside of every block. -/
theorem ofText_classifies_pieces :
    let head := "/*/\n\n*/ /*\n".toList
    let tail := "x(); /*\n// y\n".toList
    InBlock (lines head) 2 ∧ (lineKinds .slashes false (lines head))[2]? = some .comment ∧
      ofText (head ++ tail) .slashes = sum (ofText head .slashes) (ofText tail .slashes) ∧
      ofText (head ++ tail) .slashes = ⟨5, 1, 3, 1⟩ := by
  intro head tail
  have hlast : (lines head)[2]? = some "*/ /*".toList := by decide
  have hin : InBlock (lines head) 2 := by decide
  obtain ⟨kind, hkind, hrule⟩ := ((ofText_classifies .slashes).1 head).2.1 2 _ hlast
  have hcomment : kind = .comment := hrule.comment.mpr ⟨by decide, Or.inr (Or.inr hin)⟩
  refine ⟨hin, hcomment ▸ hkind, ?_, by decide⟩
  exact (ofText_classifies .slashes).2 head tail (by decide) fun _ => by decide

end LineCount

end CodeQuality
