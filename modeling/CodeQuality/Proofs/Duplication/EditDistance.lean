import CodeQuality.Duplication.Similarity
import Mathlib.Order.Bounds.Basic
import Mathlib.Order.MinMax

/-!
# Edit distance

The distance between two texts is said here without a table: it is the least number of single
edits, each an insertion, a deletion or a substitution of one character anywhere in the text, that
turn one text into the other. The recursion over first characters is shown to reach this least
number first. The table is then filled by the same recursion over last characters, and edits can
be read from the end of a text as well as from its beginning. Only two rows of the table are kept:
what an older row has left in a cell is overwritten before the cell is read.
-/

namespace CodeQuality

/-- One insertion, deletion or substitution of a single character. -/
inductive Edit : List Char → List Char → Prop where
  | insert (before behind : List Char) (c : Char) : Edit (before ++ behind) (before ++ c :: behind)
  | delete (before behind : List Char) (c : Char) : Edit (before ++ c :: behind) (before ++ behind)
  | substitute (before behind : List Char) (c d : Char) :
    Edit (before ++ c :: behind) (before ++ d :: behind)

/-- So many edits, one after the other, turn a text into another. -/
inductive Edits : Nat → List Char → List Char → Prop where
  | none (a : List Char) : Edits 0 a a
  | more {n : Nat} {a b c : List Char} : Edit a b → Edits n b c → Edits (n + 1) a c

/-- The distance by recursion over the first characters, which are paired, or one of them is
deleted or inserted. -/
def recursiveDistance : List Char → List Char → Nat
  | [], b => b.length
  | a, [] => a.length
  | x :: a, y :: b =>
    min (recursiveDistance a b + if x = y then 0 else 1)
      (min (recursiveDistance a (y :: b) + 1) (recursiveDistance (x :: a) b + 1))
termination_by a b => a.length + b.length

namespace Edit

/-- An edit stays one behind another character. -/
theorem cons {a b : List Char} (h : Edit a b) (x : Char) : Edit (x :: a) (x :: b) := by
  cases h with
  | insert before behind c => exact insert (x :: before) behind c
  | delete before behind c => exact delete (x :: before) behind c
  | substitute before behind c d => exact substitute (x :: before) behind c d

/-- An edit stays one when texts are read from their ends. -/
theorem reverse {a b : List Char} (h : Edit a b) : Edit a.reverse b.reverse := by
  cases h with
  | insert before behind c => simpa using insert behind.reverse before.reverse c
  | delete before behind c => simpa using delete behind.reverse before.reverse c
  | substitute before behind c d => simpa using substitute behind.reverse before.reverse c d

/-- An edit changes the length by one at most. -/
theorem length_le {a b : List Char} (h : Edit a b) :
    a.length ≤ b.length + 1 ∧ b.length ≤ a.length + 1 := by
  cases h <;> simp <;> omega

end Edit

namespace Edits

/-- Edits stay edits behind another character. -/
theorem cons {n : Nat} {a b : List Char} (h : Edits n a b) (x : Char) :
    Edits n (x :: a) (x :: b) := by
  induction h with
  | none a => exact none (x :: a)
  | more hedit _ ih => exact more (hedit.cons x) ih

/-- Edits stay edits when texts are read from their ends. -/
theorem reverse {n : Nat} {a b : List Char} (h : Edits n a b) :
    Edits n a.reverse b.reverse := by
  induction h with
  | none a => exact none a.reverse
  | more hedit _ ih => exact more hedit.reverse ih

/-- Edits change the length by their number at most. -/
theorem length_le {n : Nat} {a b : List Char} (h : Edits n a b) :
    a.length ≤ b.length + n ∧ b.length ≤ a.length + n := by
  induction h with
  | none a => simp
  | more hedit _ ih =>
    have hlength := hedit.length_le
    omega

/-- Every character of a text is inserted. -/
theorem insertAll (b : List Char) : Edits b.length [] b := by
  induction b with
  | nil => exact none []
  | cons y b ih => exact more (Edit.insert [] [] y) (ih.cons y)

/-- Every character of a text is deleted. -/
theorem deleteAll (a : List Char) : Edits a.length a [] := by
  induction a with
  | nil => exact none []
  | cons x a ih => exact more (Edit.delete [] a x) ih

end Edits

section Recursion

/-- The distance from the empty text inserts every character. -/
@[simp] theorem recursiveDistance_nil_left (b : List Char) :
    recursiveDistance [] b = b.length := by
  rw [recursiveDistance]

/-- The distance to the empty text deletes every character. -/
@[simp] theorem recursiveDistance_nil_right (a : List Char) :
    recursiveDistance a [] = a.length := by
  cases a with
  | nil => rw [recursiveDistance]
  | cons x a => rw [recursiveDistance]; simp

/-- The distance is the least by what becomes of the first characters. -/
theorem recursiveDistance_cons_cons (x y : Char) (a b : List Char) :
    recursiveDistance (x :: a) (y :: b) =
      min (recursiveDistance a b + if x = y then 0 else 1)
        (min (recursiveDistance a (y :: b) + 1) (recursiveDistance (x :: a) b + 1)) := by
  rw [recursiveDistance]

/-- A text has no distance from itself. -/
theorem recursiveDistance_self (a : List Char) : recursiveDistance a a = 0 := by
  induction a with
  | nil => simp
  | cons x a ih => simp [recursiveDistance_cons_cons, ih]

/-- The distance is reached by edits. -/
theorem edits_recursiveDistance (a b : List Char) : Edits (recursiveDistance a b) a b := by
  fun_induction recursiveDistance a b with
  | case1 b => exact Edits.insertAll b
  | case2 a _ => exact Edits.deleteAll a
  | case3 x a y b hpaired hdeleted hinserted =>
    have hpair : Edits (recursiveDistance a b + if x = y then 0 else 1) (x :: a) (y :: b) := by
      split
      · rename_i hsame
        exact hsame ▸ hpaired.cons x
      · exact Edits.more (Edit.substitute [] a x y) (hpaired.cons y)
    have hdelete : Edits (recursiveDistance a (y :: b) + 1) (x :: a) (y :: b) :=
      Edits.more (Edit.delete [] a x) hdeleted
    have hinsert : Edits (recursiveDistance (x :: a) b + 1) (x :: a) (y :: b) :=
      Edits.more (Edit.insert [] (x :: a) y) (hinserted.cons y)
    rcases min_choice (recursiveDistance a b + if x = y then 0 else 1)
      (min (recursiveDistance a (y :: b) + 1) (recursiveDistance (x :: a) b + 1)) with h | h
    · rwa [h]
    · rw [h]
      rcases min_choice (recursiveDistance a (y :: b) + 1) (recursiveDistance (x :: a) b + 1)
        with h | h <;> rwa [h]

/-- A character in front adds one to the distance at most. -/
theorem recursiveDistance_cons_left_le (x : Char) (a b : List Char) :
    recursiveDistance (x :: a) b ≤ recursiveDistance a b + 1 := by
  cases b with
  | nil => simp
  | cons y b =>
    rw [recursiveDistance_cons_cons]
    omega

/-- A character in front takes one from the distance at most. -/
theorem recursiveDistance_le_cons_left (x : Char) (a b : List Char) :
    recursiveDistance a b ≤ recursiveDistance (x :: a) b + 1 := by
  induction b with
  | nil => simp; omega
  | cons y b ih =>
    have hinsert : recursiveDistance a (y :: b) ≤ recursiveDistance a b + 1 := by
      cases a with
      | nil => simp
      | cons z a => rw [recursiveDistance_cons_cons]; omega
    rw [recursiveDistance_cons_cons]
    omega

/-- Another first character changes the distance by one at most. -/
theorem recursiveDistance_substitute_le (x y : Char) (a b : List Char) :
    recursiveDistance (x :: a) b ≤ recursiveDistance (y :: a) b + 1 := by
  induction b with
  | nil => simp
  | cons z b ih =>
    rw [recursiveDistance_cons_cons, recursiveDistance_cons_cons]
    split <;> split <;> omega

/-- Texts that are close in their distances to all others stay so behind another character. -/
theorem recursiveDistance_cons_le {a b : List Char}
    (h : ∀ c, recursiveDistance a c ≤ recursiveDistance b c + 1) (x : Char) (c : List Char) :
    recursiveDistance (x :: a) c ≤ recursiveDistance (x :: b) c + 1 := by
  induction c with
  | nil => simpa using h []
  | cons z c ih =>
    have hpaired := h c
    have hdeleted := h (z :: c)
    rw [recursiveDistance_cons_cons, recursiveDistance_cons_cons]
    omega

/-- One edit changes the distance to any text by one at most. -/
theorem recursiveDistance_le_of_edit {a b : List Char} (h : Edit a b) (c : List Char) :
    recursiveDistance a c ≤ recursiveDistance b c + 1 := by
  cases h with
  | insert before behind x =>
    induction before generalizing c with
    | nil => exact recursiveDistance_le_cons_left x behind c
    | cons y before ih => exact recursiveDistance_cons_le ih y c
  | delete before behind x =>
    induction before generalizing c with
    | nil => exact recursiveDistance_cons_left_le x behind c
    | cons y before ih => exact recursiveDistance_cons_le ih y c
  | substitute before behind x z =>
    induction before generalizing c with
    | nil => exact recursiveDistance_substitute_le x z behind c
    | cons y before ih => exact recursiveDistance_cons_le ih y c

/-- No edits reach a text in fewer steps than its distance. -/
theorem recursiveDistance_le_of_edits {n : Nat} {a b : List Char} (h : Edits n a b) :
    recursiveDistance a b ≤ n := by
  induction h with
  | none a => exact (recursiveDistance_self a).le
  | more hedit _ ih => exact (recursiveDistance_le_of_edit hedit _).trans (Nat.succ_le_succ ih)

/-- The recursion finds the least number of edits. -/
theorem isLeast_recursiveDistance (a b : List Char) :
    IsLeast {n | Edits n a b} (recursiveDistance a b) :=
  ⟨edits_recursiveDistance a b, fun _ h => recursiveDistance_le_of_edits h⟩

/-- The distance is the same when both texts are read from their ends. -/
theorem recursiveDistance_reverse (a b : List Char) :
    recursiveDistance a.reverse b.reverse = recursiveDistance a b := by
  apply le_antisymm
  · exact recursiveDistance_le_of_edits (edits_recursiveDistance a b).reverse
  · have h := (edits_recursiveDistance a.reverse b.reverse).reverse
    rw [List.reverse_reverse, List.reverse_reverse] at h
    exact recursiveDistance_le_of_edits h

end Recursion

section Table

namespace DistanceRows

/-- The first cells of a row hold the distances from a text to the beginnings of `b`, all read from
their ends. The cells behind them may hold anything. -/
structure Holds (row : Array Nat) (a b : List Char) (count : Nat) : Prop where
  size_eq : row.size = b.length + 1
  cell_eq : ∀ k < count, row.getD k 0 = recursiveDistance a (b.take k).reverse

/-- The row that was filled last is the row of a text, and the other one is as wide. -/
structure IsFilled (rows : DistanceRows) (a b : List Char) : Prop where
  previous : Holds rows.previous a b (b.length + 1)
  current : rows.current.size = b.length + 1

/-- Writing the next cell overwrites what was left there and keeps the cells before it. -/
theorem Holds.set {row : Array Nat} {a b : List Char} {count value : Nat}
    (h : Holds row a b count) (hcount : count < b.length + 1)
    (hvalue : value = recursiveDistance a (b.take count).reverse) :
    Holds (row.setIfInBounds count value) a b (count + 1) where
  size_eq := by rw [Array.size_setIfInBounds, h.size_eq]
  cell_eq k hk := by
    have hsize : count < row.size := by rw [h.size_eq]; exact hcount
    rw [Array.getD_eq_getD_getElem?, Array.getElem?_setIfInBounds]
    by_cases hlast : count = k
    · subst hlast
      rw [if_pos rfl, if_pos hsize, Option.getD_some, hvalue]
    · rw [if_neg hlast, ← Array.getD_eq_getD_getElem?]
      exact h.cell_eq k (by omega)

/-- The row of the empty text counts up. -/
theorem isFilled_start (b : List Char) : (start b.length).IsFilled [] b where
  previous :=
    { size_eq := by simp [start]
      cell_eq := by
        intro k hk
        have hrange : (List.range (b.length + 1)).toArray.getD k 0 = k := by
          simp [Array.getD_eq_getD_getElem?, hk]
        rw [start, hrange, recursiveDistance_nil_left, List.length_reverse, List.length_take]
        omega }
  current := by simp [start]

/-- A cell is filled by the recursion from the row above and the cell before it. -/
theorem fillCell_holds {rows : DistanceRows} {x c : Char} {a head rest : List Char}
    (hprevious : Holds rows.previous a (head ++ c :: rest) ((head ++ c :: rest).length + 1))
    (hcurrent : Holds rows.current (x :: a) (head ++ c :: rest) (head.length + 1)) :
    Holds (rows.fillCell x (c, head.length)).current (x :: a) (head ++ c :: rest)
      (head.length + 1 + 1) := by
  have htake : (head ++ c :: rest).take head.length = head := List.take_left
  have htakeNext : ((head ++ c :: rest).take (head.length + 1)).reverse = c :: head.reverse := by
    rw [List.take_length_add_append]
    exact List.reverse_concat
  have hlength : (head ++ c :: rest).length = head.length + 1 + rest.length := by
    rw [List.length_append, List.length_cons]
    omega
  have hdiagonal := hprevious.cell_eq head.length (by omega)
  have hup := hprevious.cell_eq (head.length + 1) (by omega)
  have hleft := hcurrent.cell_eq head.length (by omega)
  rw [htake] at hdiagonal hleft
  rw [htakeNext] at hup
  apply hcurrent.set (by omega)
  rw [htakeNext, recursiveDistance_cons_cons, hdiagonal, hup, hleft, Nat.min_assoc]

/-- The cells behind the head of a text are filled one after the other. -/
theorem foldl_fillCell (x : Char) (a head rest : List Char) (rows : DistanceRows)
    (hprevious : Holds rows.previous a (head ++ rest) ((head ++ rest).length + 1))
    (hcurrent : Holds rows.current (x :: a) (head ++ rest) (head.length + 1)) :
    ((rest.zipIdx head.length).foldl (fillCell x) rows).previous = rows.previous ∧
      Holds ((rest.zipIdx head.length).foldl (fillCell x) rows).current (x :: a) (head ++ rest)
        ((head ++ rest).length + 1) := by
  induction rest generalizing head rows with
  | nil =>
    rw [List.append_nil] at hcurrent ⊢
    exact ⟨rfl, hcurrent⟩
  | cons c rest ih =>
    have hcell := fillCell_holds hprevious hcurrent
    have hlength : head.length + 1 = (head ++ [c]).length := by simp
    rw [List.zipIdx_cons, List.foldl_cons, hlength]
    rw [List.append_cons head c rest] at hprevious hcell ⊢
    rw [hlength] at hcell
    exact ih (head ++ [c]) (rows.fillCell x (c, head.length)) hprevious hcell

/-- A row is filled from the one above it, whatever the row being filled held before. -/
theorem IsFilled.fillRow {rows : DistanceRows} {a b : List Char} (h : rows.IsFilled a b)
    (x : Char) : (rows.fillRow b (x, a.length)).IsFilled (x :: a) b := by
  have hstale : Holds rows.current (x :: a) b 0 := ⟨h.current, by simp⟩
  have hbegun : Holds (rows.current.setIfInBounds 0 (a.length + 1)) (x :: a) b 1 :=
    hstale.set (Nat.succ_pos _) (by simp)
  obtain ⟨hprevious, hcurrent⟩ := foldl_fillCell x a [] b
    { rows with current := rows.current.setIfInBounds 0 (a.length + 1) } h.previous hbegun
  exact ⟨hcurrent, (congrArg Array.size hprevious).trans h.previous.size_eq⟩

/-- The rows of a text end with the row of all its characters. -/
theorem IsFilled.foldl_fillRow {rows : DistanceRows} {read b : List Char}
    (h : rows.IsFilled read b) (a : List Char) :
    ((a.zipIdx read.length).foldl (DistanceRows.fillRow b) rows).IsFilled (a.reverse ++ read)
      b := by
  induction a generalizing rows read with
  | nil => exact h
  | cons x a ih =>
    rw [List.zipIdx_cons, List.foldl_cons, List.reverse_cons, List.append_assoc]
    exact ih (h.fillRow x)

end DistanceRows

/-- The table computes what the recursion says. -/
theorem editDistance_eq_recursiveDistance (a b : List Char) :
    editDistance a b = recursiveDistance a b := by
  have hfilled := (DistanceRows.isFilled_start b).foldl_fillRow a
  have hlast := hfilled.previous.cell_eq b.length (Nat.lt_succ_self _)
  rw [List.append_nil, List.take_length, recursiveDistance_reverse] at hlast
  exact hlast

/-- The distance is between the difference of the lengths and the greater one of them. -/
theorem editDistance_bounds (a b : List Char) :
    max a.length b.length - min a.length b.length ≤ editDistance a b ∧
      editDistance a b ≤ max a.length b.length := by
  rw [editDistance_eq_recursiveDistance]
  constructor
  · have h := (edits_recursiveDistance a b).length_le
    omega
  · fun_induction recursiveDistance a b with
    | case1 b => simp
    | case2 a _ => simp
    | case3 x a y b hpaired _ _ =>
      simp only [List.length_cons]
      split <;> omega

/-- The distance is the least number of edits between two texts, and it obeys the recursion over
their first characters. -/
theorem editDistance_isLeast (a b : List Char) :
    IsLeast {n | Edits n a b} (editDistance a b) ∧ editDistance a b = recursiveDistance a b := by
  rw [editDistance_eq_recursiveDistance]
  exact ⟨isLeast_recursiveDistance a b, rfl⟩

end Table

end CodeQuality
