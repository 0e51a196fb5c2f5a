import CodeQuality.Proofs.Text.Offset
import CodeQuality.Signature.Parameter
import Mathlib.Data.List.Basic

/-!
# The depth of brackets

A comma separates the parts of a list when it stands outside of brackets, which a running count
over all that stands before it tells. The count is defined here by itself, and the pieces of a text
are shown to be cut by it.

A text is closed when none of its commas stands outside of brackets and it leaves no bracket open.
Closed texts with commas between them are the pieces of the list that they make.
-/

namespace CodeQuality.Signature

open Text

/-- A running count of brackets. -/
structure BracketCount where
  /-- The character that was read last. -/
  before : Option Char := none
  depth : Nat := 0

namespace BracketCount

/-- The count behind one more character. The depth does not go below zero, and the angle bracket
that ends an arrow leaves it as it is. -/
def next (count : BracketCount) (c : Char) : BracketCount where
  before := some c
  depth :=
    if c ∈ ['(', '[', '{', '<'] then count.depth + 1
    else if c = '>' ∧ (count.before = some '=' ∨ count.before = some '-') then count.depth
    else if c ∈ [')', ']', '}', '>'] then count.depth - 1
    else count.depth

/-- The count behind a text. -/
def read (count : BracketCount) (text : List Char) : BracketCount :=
  text.foldl next count

/-- No comma of the text stands outside of brackets. -/
def Passes (count : BracketCount) (text : List Char) : Prop :=
  ∀ i, text[i]? = some ',' → (count.read (text.take i)).depth ≠ 0

/-- No arrow reaches from what the count has read into the text. -/
def Joins (count : BracketCount) (text : List Char) : Prop :=
  text.head? = some '>' → count.before ≠ some '=' ∧ count.before ≠ some '-'

/-- The pieces of a text behind the count, character by character. The piece being read is kept
backwards. -/
def pieces (count : BracketCount) (piece : List Char) : List Char → List (List Char)
  | [] => [piece.reverse]
  | c :: rest =>
    if c = ',' ∧ count.depth = 0 then piece.reverse :: (count.next c).pieces [] rest
    else (count.next c).pieces (c :: piece) rest

end BracketCount

/-- The depth of brackets behind a text. -/
def bracketDepth (text : List Char) : Nat :=
  (BracketCount.read {} text).depth

/-- At the index stands a comma outside of brackets. -/
def IsSeparator (text : List Char) (i : Nat) : Prop :=
  text[i]? = some ',' ∧ bracketDepth (text.take i) = 0

instance (text : List Char) (i : Nat) : Decidable (IsSeparator text i) :=
  inferInstanceAs (Decidable (_ ∧ _))

/-- The text has no comma outside of brackets, and it leaves no bracket open. -/
structure IsClosed (text : List Char) : Prop where
  unsplit : ∀ i < text.length, ¬ IsSeparator text i
  settled : bracketDepth text = 0

instance (text : List Char) : Decidable (IsClosed text) :=
  decidable_of_iff ((∀ i < text.length, ¬ IsSeparator text i) ∧ bracketDepth text = 0)
    ⟨fun h => ⟨h.1, h.2⟩, fun h => ⟨h.unsplit, h.settled⟩⟩

/-! ## Reading -/

namespace BracketCount

@[simp] theorem read_cons (count : BracketCount) (c : Char) (rest : List Char) :
    count.read (c :: rest) = (count.next c).read rest := rfl

@[simp] theorem read_append (count : BracketCount) (head tail : List Char) :
    count.read (head ++ tail) = (count.read head).read tail :=
  List.foldl_append

@[simp] theorem passes_nil (count : BracketCount) : count.Passes [] := by
  simp [Passes]

/-- A text passes when its first character does and the rest passes behind it. -/
theorem passes_cons {count : BracketCount} {c : Char} {rest : List Char} :
    count.Passes (c :: rest) ↔ ¬ (c = ',' ∧ count.depth = 0) ∧ (count.next c).Passes rest := by
  constructor
  · intro h
    refine ⟨?_, fun i hi => h (i + 1) hi⟩
    rintro ⟨rfl, hdepth⟩
    exact h 0 rfl hdepth
  · rintro ⟨hfirst, hrest⟩ i hi
    cases i with
    | zero => exact fun hdepth => hfirst ⟨by simpa using hi, hdepth⟩
    | succ i => exact hrest i hi

/-- Two texts pass in a row when the second passes behind the first. -/
theorem passes_append {count : BracketCount} {head tail : List Char} :
    count.Passes (head ++ tail) ↔ count.Passes head ∧ (count.read head).Passes tail := by
  induction head generalizing count with
  | nil => simp [read]
  | cons c rest ih => rw [List.cons_append, passes_cons, passes_cons, ih, read_cons, and_assoc]

/-- A text that does not pass has a first comma outside of brackets. -/
theorem passes_or_exists_comma (count : BracketCount) (text : List Char) :
    count.Passes text ∨
      ∃ head tail, text = head ++ ',' :: tail ∧ count.Passes head ∧
        (count.read head).depth = 0 := by
  induction text generalizing count with
  | nil => exact .inl count.passes_nil
  | cons c rest ih =>
    by_cases hc : c = ',' ∧ count.depth = 0
    · exact .inr ⟨[], rest, by simp [hc.1], count.passes_nil, hc.2⟩
    · rcases ih (count.next c) with hpasses | ⟨head, tail, rfl, hhead, hdepth⟩
      · exact .inl (passes_cons.mpr ⟨hc, hpasses⟩)
      · exact .inr ⟨c :: head, tail, rfl, passes_cons.mpr ⟨hc, hhead⟩, hdepth⟩

/-- A text without brackets and commas passes and leaves the depth as it is. -/
theorem passes_of_plain (count : BracketCount) {text : List Char}
    (h : ∀ c ∈ text, c ∉ ['(', '[', '{', '<', ')', ']', '}', '>', ',']) :
    count.Passes text ∧ (count.read text).depth = count.depth := by
  induction text generalizing count with
  | nil => exact ⟨count.passes_nil, rfl⟩
  | cons c rest ih =>
    obtain ⟨hpasses, hdepth⟩ := ih (count.next c) fun d hd => h d (List.mem_cons_of_mem _ hd)
    have hc := h c List.mem_cons_self
    simp only [List.mem_cons, List.not_mem_nil, or_false, not_or] at hc
    have hnext : (count.next c).depth = count.depth := by
      simp [next, hc]
    rw [passes_cons, read_cons, hdepth, hnext]
    exact ⟨⟨fun hcomma => hc.2.2.2.2.2.2.2.2 hcomma.1, hpasses⟩, rfl⟩

/-- Of the character before, only the beginning of an arrow matters. -/
theorem next_of_joins {count : BracketCount} {c : Char} {rest : List Char}
    (h : count.Joins (c :: rest)) : count.next c = next { depth := count.depth } c := by
  by_cases hc : c = '>'
  · have hbefore := h (by simp [hc])
    simp [next, hbefore]
  · simp [next, hc]

/-- Outside of brackets, a text is read as if nothing stood before it. -/
theorem read_of_joins {count : BracketCount} (hdepth : count.depth = 0) {text : List Char}
    (h : count.Joins text) :
    (count.Passes text ↔ Passes {} text) ∧ (count.read text).depth = bracketDepth text := by
  cases text with
  | nil => exact ⟨by simp, hdepth⟩
  | cons c rest =>
    have hnext := next_of_joins h
    rw [hdepth] at hnext
    rw [passes_cons, passes_cons, read_cons, hnext, hdepth]
    exact ⟨Iff.rfl, rfl⟩

end BracketCount

/-! ## Closed texts -/

/-- A text passes when no comma in it is a separator. -/
theorem passes_iff {text : List Char} :
    BracketCount.Passes {} text ↔ ∀ i < text.length, ¬ IsSeparator text i := by
  constructor
  · intro h i _ hseparator
    exact h i hseparator.1 hseparator.2
  · intro h i hi hzero
    obtain ⟨hlength, -⟩ := List.getElem?_eq_some_iff.mp hi
    exact h i hlength ⟨hi, hzero⟩

/-- A closed text passes and settles when it is read from the beginning. -/
theorem isClosed_iff {text : List Char} :
    IsClosed text ↔ BracketCount.Passes {} text ∧ bracketDepth text = 0 := by
  rw [passes_iff]
  exact ⟨fun h => ⟨h.unsplit, h.settled⟩, fun h => ⟨h.1, h.2⟩⟩

/-- A text without brackets and commas is closed. -/
theorem isClosed_of_plain {text : List Char}
    (h : ∀ c ∈ text, c ∉ ['(', '[', '{', '<', ')', ']', '}', '>', ',']) : IsClosed text :=
  isClosed_iff.mpr (BracketCount.passes_of_plain {} h)

/-- A closed text is closed outside of brackets in the middle of another text. -/
theorem BracketCount.passes_of_isClosed {count : BracketCount} (hdepth : count.depth = 0)
    {text : List Char} (hjoins : count.Joins text) (h : IsClosed text) :
    count.Passes text ∧ (count.read text).depth = 0 := by
  obtain ⟨hpasses, hread⟩ := read_of_joins hdepth hjoins
  rw [isClosed_iff] at h
  exact ⟨hpasses.mpr h.1, hread.trans h.2⟩

/-- Behind a closed text, a text is read as it is by itself, unless an arrow reaches into it. -/
theorem IsClosed.read_append {head tail : List Char} (h : IsClosed head)
    (hjoins : (BracketCount.read {} head).Joins tail) :
    (BracketCount.Passes {} (head ++ tail) ↔ BracketCount.Passes {} tail) ∧
      bracketDepth (head ++ tail) = bracketDepth tail := by
  obtain ⟨hpasses, hdepth⟩ := isClosed_iff.mp h
  obtain ⟨htail, hread⟩ := BracketCount.read_of_joins hdepth hjoins
  rw [BracketCount.passes_append, htail, bracketDepth, BracketCount.read_append, hread]
  exact ⟨and_iff_right hpasses, rfl⟩

/-- Closed texts in a row are closed, unless an arrow reaches from one into the other. -/
theorem IsClosed.append {head tail : List Char} (hhead : IsClosed head) (htail : IsClosed tail)
    (hjoins : (BracketCount.read {} head).Joins tail) : IsClosed (head ++ tail) := by
  obtain ⟨hpasses, hdepth⟩ := hhead.read_append hjoins
  rwa [isClosed_iff, hpasses, hdepth, ← isClosed_iff]

/-- Closed texts with a space between them are closed. -/
theorem IsClosed.append_space {head tail : List Char} (hhead : IsClosed head)
    (htail : IsClosed tail) : IsClosed (head ++ ' ' :: tail) := by
  have hspace : IsClosed (head ++ [' ']) :=
    hhead.append (isClosed_of_plain (by simp)) (by simp [BracketCount.Joins])
  rw [List.append_cons]
  exact hspace.append htail (by simp [BracketCount.Joins, BracketCount.next, BracketCount.read])

/-! ## Pieces -/

namespace BracketCount

/-- The program counts brackets as said here. -/
theorem depthAfter_eq (count : BracketCount) (c : Char) :
    depthAfter (count.before.getD '\x00') count.depth c = (count.next c).depth := by
  have harrow (sign : Char) (hsign : sign ≠ '\x00') :
      count.before.getD '\x00' = sign ↔ count.before = some sign := by
    cases count.before with
    | none => simp [hsign.symm]
    | some b => simp
  simp only [depthAfter, isOpening, isClosing, next, Bool.or_eq_true, Bool.and_eq_true, beq_iff_eq,
    harrow '=' (by decide), harrow '-' (by decide), List.mem_cons, List.not_mem_nil, or_false,
    or_assoc]

@[simp] theorem pieces_nil (count : BracketCount) (piece : List Char) :
    count.pieces piece [] = [piece.reverse] := rfl

/-- A comma outside of brackets ends a piece. -/
theorem pieces_comma {count : BracketCount} (hdepth : count.depth = 0) (piece rest : List Char) :
    count.pieces piece (',' :: rest) = piece.reverse :: (count.next ',').pieces [] rest := by
  rw [pieces, if_pos ⟨rfl, hdepth⟩]

/-- Every other character is put to the piece. -/
theorem pieces_cons {count : BracketCount} {c : Char} (h : ¬ (c = ',' ∧ count.depth = 0))
    (piece rest : List Char) :
    count.pieces piece (c :: rest) = (count.next c).pieces (c :: piece) rest := by
  rw [pieces, if_neg h]

/-- The slices that the program cuts are the pieces. The slice being read stands between the head
of the text and its rest. -/
theorem piecesFrom_eq_pieces (count : BracketCount) (head piece rest : List Char) :
    piecesFrom (head ++ piece.reverse ++ rest) (count.before.getD '\x00') count.depth
        (byteLength head) (byteLength (head ++ piece.reverse)) rest = count.pieces piece rest := by
  induction rest generalizing count head piece with
  | nil => rw [List.append_nil, piecesFrom, dropBytes_append, pieces_nil]
  | cons c rest ih =>
    by_cases h : c = ',' ∧ count.depth = 0
    · obtain ⟨rfl, hdepth⟩ := h
      have hbehind : byteLength (head ++ piece.reverse) + 1 =
          byteLength (head ++ piece.reverse ++ [',']) := by
        rw [byteLength_append _ [',']]
        rfl
      have hnext : (count.next ',').depth = count.depth := by simp [next]
      have hrest := ih (count.next ',') (head ++ piece.reverse ++ [',']) []
      rw [List.reverse_nil, List.append_nil, List.append_assoc _ [','], hnext] at hrest
      rw [piecesFrom, if_pos (by simp [hdepth]), slice_append, pieces_comma hdepth, hbehind]
      exact congrArg _ hrest
    · have hbehind : byteLength (head ++ piece.reverse) + c.utf8Size =
          byteLength (head ++ (c :: piece).reverse) := by
        simp [Nat.add_assoc]
      have htext : head ++ piece.reverse ++ c :: rest = head ++ (c :: piece).reverse ++ rest := by
        simp
      rw [piecesFrom, if_neg (by simpa using h), depthAfter_eq, pieces_cons h, hbehind, htext]
      exact ih (count.next c) head (c :: piece)

/-- A text that passes is put to the piece as a whole. -/
theorem pieces_append {count : BracketCount} {text : List Char} (h : count.Passes text)
    (piece rest : List Char) :
    count.pieces piece (text ++ rest) = (count.read text).pieces (text.reverse ++ piece) rest := by
  induction text generalizing count piece with
  | nil => rfl
  | cons c text ih =>
    obtain ⟨hfirst, htext⟩ := passes_cons.mp h
    rw [List.cons_append, pieces_cons hfirst, ih htext, read_cons, List.reverse_cons,
      List.append_assoc, List.singleton_append]

/-- Outside of brackets, a text has the pieces that it has by itself. -/
theorem pieces_of_joins {count : BracketCount} (hdepth : count.depth = 0) {text : List Char}
    (h : count.Joins text) (piece : List Char) :
    count.pieces piece text = pieces {} piece text := by
  cases text with
  | nil => rfl
  | cons c rest =>
    have hnext := next_of_joins h
    rw [hdepth] at hnext
    by_cases hc : c = ','
    · obtain rfl := hc
      rw [pieces_comma hdepth, pieces_comma rfl, hnext]
    · rw [pieces_cons (fun hcomma => hc hcomma.1), pieces_cons (fun hcomma => hc hcomma.1), hnext]

/-- A closed text before a comma is a piece, and the other pieces are those of what stands behind
the comma. -/
theorem pieces_append_comma {text : List Char} (h : IsClosed text) (rest : List Char) :
    pieces {} [] (text ++ ',' :: rest) = text :: pieces {} [] rest := by
  obtain ⟨hpasses, hsettled⟩ := isClosed_iff.mp h
  have hbehind : ((read {} text).next ',').depth = 0 := by
    simpa [next, bracketDepth] using hsettled
  rw [pieces_append hpasses, pieces_comma hsettled, pieces_of_joins hbehind (by simp [Joins, next])]
  simp

/-- The pieces of closed texts with commas between them are the texts, each behind the first one
with the space behind the comma. -/
theorem pieces_intercalate {count : BracketCount} (hdepth : count.depth = 0)
    (piece part : List Char) {parts : List (List Char)} (hjoins : count.Joins part)
    (hclosed : ∀ text ∈ part :: parts, IsClosed text) :
    count.pieces piece ([',', ' '].intercalate (part :: parts)) =
      (piece.reverse ++ part) :: parts.map (' ' :: ·) := by
  induction parts generalizing count piece part with
  | nil =>
    obtain ⟨hpasses, -⟩ := passes_of_isClosed hdepth hjoins (hclosed part (by simp))
    have hpieces := pieces_append hpasses piece []
    simpa using hpieces
  | cons second parts ih =>
    obtain ⟨hpasses, hsettled⟩ := passes_of_isClosed hdepth hjoins (hclosed part (by simp))
    have hspace : ((count.read part).next ',' |>.next ' ').depth = 0 := by simp [next, hsettled]
    rw [List.intercalate_cons_cons, List.append_assoc, pieces_append hpasses, List.cons_append,
      pieces_comma hsettled, List.singleton_append, pieces_cons (by simp),
      ih hspace [' '] second (fun _ => by simp [next]) fun text htext =>
        hclosed text (List.mem_cons_of_mem _ htext)]
    simp

end BracketCount

/-- The parts of a list are its pieces, trimmed, without the empty ones. -/
theorem splitTopLevel_eq_pieces (text : List Char) :
    splitTopLevel text =
      ((BracketCount.pieces {} [] text).map trim).filter fun part => !part.isEmpty := by
  rw [splitTopLevel, ← BracketCount.piecesFrom_eq_pieces {} [] []]
  rfl

end CodeQuality.Signature
