import CodeQuality.Proofs.Pattern.Search
import CodeQuality.Proofs.Rules.Signature

/-!
# Matches below a line feed

A line feed put before a text moves every place of the text one byte on. The beginning of the text
becomes the beginning of a line, which no pattern can tell from it, so the ends of matches move
with the places they are looked for at. A signature begins with no line feed, so the new one gives
no match of its own.
-/

namespace CodeQuality

/-- The span, in the text with a line feed put before it. -/
def Span.moveDown (span : Span) : Span :=
  ⟨span.start + 1, span.stop + 1⟩

namespace Cursor

/-- The place, in the text with a line feed put before it. -/
def moveDown (cursor : Cursor) : Cursor where
  before := some (cursor.before.getD '\n')
  rest := cursor.rest
  offset := cursor.offset + 1
  groups := cursor.groups.map fun group => (group.1, group.2.moveDown)

@[simp] theorem moveDown_rest (cursor : Cursor) : cursor.moveDown.rest = cursor.rest :=
  rfl

/-- Reading a character moves down with the place. -/
theorem moveDown_past (cursor : Cursor) (c : Char) (rest : List Char) :
    cursor.moveDown.past c rest = (cursor.past c rest).moveDown := by
  simp only [past, moveDown, Option.getD_some, Nat.add_right_comm]

/-- A place that moves down is at the beginning of a line if and only if it was before. -/
@[simp] theorem moveDown_atLineStart (cursor : Cursor) :
    cursor.moveDown.atLineStart = cursor.atLineStart := by
  cases hbefore : cursor.before <;> simp [atLineStart, moveDown, hbefore]

/-- A place that moves down is at the edge of a word if and only if it was before. -/
@[simp] theorem moveDown_atWordEdge (cursor : Cursor) :
    cursor.moveDown.atWordEdge = cursor.atWordEdge := by
  have hfeed : Text.isWord '\n' = false := by decide
  cases hbefore : cursor.before <;> simp [atWordEdge, moveDown, hbefore, hfeed]

/-- The places a run reaches move down with the place it begins at. -/
theorem reach_moveDown (accepts : Char → Bool) (text : List Char) (cursor : Cursor)
    (nearer : List Cursor) :
    reach accepts text cursor.moveDown (nearer.map moveDown) =
      (reach accepts text cursor nearer).map moveDown := by
  induction text generalizing cursor nearer with
  | nil => rfl
  | cons c rest ih =>
    rw [reach, reach]
    split
    · rw [moveDown_past, ← List.map_cons, ih]
    · rfl

/-- The place behind given characters moves down with the place before them. -/
theorem skip?_moveDown (chars : List Char) (cursor : Cursor) :
    skip? chars cursor.moveDown = (skip? chars cursor).map moveDown := by
  induction chars generalizing cursor with
  | nil => rfl
  | cons a more ih =>
    rw [skip?, skip?, moveDown_rest]
    cases cursor.rest with
    | nil => rfl
    | cons c rest =>
      by_cases hc : a = c
      · simp only [hc, if_true, moveDown_past, ih]
      · simp only [hc, if_false, Option.map_none]

/-- The span recorded for a label moves down. -/
theorem span?_moveDown (cursor : Cursor) (label : Label) :
    cursor.moveDown.span? label = (cursor.span? label).map Span.moveDown := by
  simp only [span?, moveDown, List.find?_map, Option.map_map]
  rfl

end Cursor

/-- The match, in the text with a line feed put before it. -/
def Match.moveDown (found : Match) : Match :=
  ⟨found.start + 1, found.finish.moveDown⟩

/-- The span a match records for a label moves down with the match. -/
@[simp] theorem Match.span?_moveDown (found : Match) (label : Label) :
    found.moveDown.span? label = (found.span? label).map Span.moveDown :=
  Cursor.span?_moveDown found.finish label

namespace Pattern

open Cursor (moveDown moveDown_past)

/-- Repetitions move down, if every single one does. -/
theorem repeats_moveDown {step : Cursor → List Cursor}
    (hstep : ∀ cursor, step cursor.moveDown = (step cursor).map moveDown) (limit : Nat)
    (cursor : Cursor) :
    repeats step limit cursor.moveDown = (repeats step limit cursor).map moveDown := by
  induction limit generalizing cursor with
  | zero => rfl
  | succ limit ih =>
    have hmoves : (fun next => decide (cursor.moveDown.offset < next.offset)) ∘ moveDown =
        fun next => decide (cursor.offset < next.offset) := by
      funext next
      simp [moveDown]
    rw [repeats, repeats, hstep, List.filter_map, hmoves, List.flatMap_map, List.map_append,
      List.map_flatMap]
    simp only [ih, List.map_cons, List.map_nil]

/-- The ends of matches move down with the place they begin at. -/
theorem ends_moveDown (pattern : Pattern) (cursor : Cursor) :
    pattern.ends cursor.moveDown = (pattern.ends cursor).map moveDown := by
  induction pattern generalizing cursor with
  | one accepts =>
    simp only [ends, Cursor.moveDown_rest]
    cases cursor.rest with
    | nil => rfl
    | cons c rest =>
      by_cases hc : accepts c = true
      · simp only [hc, if_true, moveDown_past, List.map_cons, List.map_nil]
      · simp only [hc, if_false, List.map_nil, Bool.false_eq_true]
  | literal chars =>
    simp only [ends, Cursor.skip?_moveDown]
    cases Cursor.skip? chars cursor <;> rfl
  | run accepts => exact Cursor.reach_moveDown accepts cursor.rest cursor []
  | fewest accepts =>
    simp only [ends, List.map_reverse]
    exact congrArg List.reverse (Cursor.reach_moveDown accepts cursor.rest cursor [])
  | seq first second ihFirst ihSecond =>
    simp only [ends, ihFirst, List.flatMap_map, List.map_flatMap, ihSecond]
  | alt first second ihFirst ihSecond => simp only [ends, ihFirst, ihSecond, List.map_append]
  | opt body ih => simp only [ends, ih, List.map_append, List.map_cons, List.map_nil]
  | many body ih => exact repeats_moveDown ih cursor.rest.length cursor
  | group label body ih =>
    simp only [ends, ih, List.map_map]
    rfl
  | lineStart => cases hplace : cursor.atLineStart <;> simp [ends, hplace]
  | lineEnd =>
    have hend : cursor.moveDown.atLineEnd = cursor.atLineEnd := rfl
    cases hplace : cursor.atLineEnd <;> simp [ends, hend, hplace]
  | textEnd => cases hplace : cursor.rest <;> simp [ends, hplace]
  | wordEdge => cases hplace : cursor.atWordEdge <;> simp [ends, hplace]

/-- The first match from a place on moves down with the place. -/
theorem findFrom_moveDown (pattern : Pattern) (before : Option Char) (offset : Nat)
    (rest : List Char) :
    pattern.findFrom (some (before.getD '\n')) (offset + 1) rest =
      (pattern.findFrom before offset rest).map Match.moveDown := by
  have hends (before : Option Char) (offset : Nat) (rest : List Char) :
      pattern.ends ⟨some (before.getD '\n'), rest, offset + 1, []⟩ =
        (pattern.ends ⟨before, rest, offset, []⟩).map moveDown :=
    pattern.ends_moveDown ⟨before, rest, offset, []⟩
  induction rest generalizing before offset with
  | nil =>
    rw [findFrom, findFrom, hends, List.head?_map, Option.map_map, Option.map_map]
    rfl
  | cons c rest ih =>
    rw [findFrom, findFrom, hends, List.head?_map]
    cases (pattern.ends ⟨before, c :: rest, offset, []⟩).head? with
    | some finish => rfl
    | none =>
      rw [Option.map_none]
      simp only
      rw [Nat.add_right_comm]
      exact ih (some c) _

/-- Where the search goes on after a match moves down with the match. -/
theorem resume?_moveDown (found : Match) :
    resume? found.moveDown = (resume? found).map moveDown := by
  have hlt : found.moveDown.start < found.moveDown.stop ↔ found.start < found.stop := by
    simp [Match.moveDown, Match.stop, moveDown]
  have hrest : found.moveDown.finish.rest = found.finish.rest := rfl
  rw [resume?, resume?, hrest]
  by_cases h : found.start < found.stop
  · simp only [hlt, h, if_true, Option.map_some]
    rfl
  · simp only [hlt, h, if_false]
    cases found.finish.rest with
    | nil => rfl
    | cons c rest => exact congrArg some (moveDown_past found.finish c rest)

/-- The matches from a place on move down with the place. -/
theorem matchesFrom_moveDown (pattern : Pattern) (limit : Nat) (cursor : Cursor) :
    pattern.matchesFrom limit cursor.moveDown =
      (pattern.matchesFrom limit cursor).map Match.moveDown := by
  induction limit generalizing cursor with
  | zero => rfl
  | succ limit ih =>
    have hfind : pattern.findFrom cursor.moveDown.before cursor.moveDown.offset
        cursor.moveDown.rest =
        (pattern.findFrom cursor.before cursor.offset cursor.rest).map Match.moveDown :=
      pattern.findFrom_moveDown cursor.before cursor.offset cursor.rest
    rw [matchesFrom_succ, matchesFrom_succ, hfind]
    cases pattern.findFrom cursor.before cursor.offset cursor.rest with
    | none => rfl
    | some found =>
      simp only [Option.map_some, List.map_cons, resume?_moveDown]
      cases resume? found with
      | none => rfl
      | some next => simp only [Option.map_some, Option.elim_some, ih]

/-- No match of a signature begins at a line feed. -/
theorem ends_feed {pattern : Pattern} (hsignature : pattern.isSignature = true)
    (before : Option Char) (text : List Char) (offset : Nat) :
    pattern.ends ⟨before, '\n' :: text, offset, []⟩ = [] := by
  rw [List.eq_nil_iff_forall_not_mem]
  intro finish hfinish
  obtain ⟨read, hsteps⟩ := exists_steps_of_mem_ends pattern hfinish
  obtain ⟨c, rest, rfl, hfeed, -⟩ := hsteps.spells.exists_cons hsignature
  have hrest : '\n' :: text = c :: rest ++ finish.rest := hsteps.reads.rest_eq
  exact hfeed (List.cons.inj hrest).1.symm

/-- The matches of a signature in a text with a line feed put before it are those in the text,
moved down. -/
theorem matchesIn_feed {pattern : Pattern} (hsignature : pattern.isSignature = true)
    (text : List Char) :
    pattern.matchesIn ('\n' :: text) = (pattern.matchesIn text).map Match.moveDown := by
  have hskip : pattern.findFrom none 0 ('\n' :: text) = pattern.findFrom (some '\n') 1 text := by
    rw [findFrom, ends_feed hsignature]
    rfl
  have hbegin : pattern.matchesIn ('\n' :: text) =
      pattern.matchesFrom (text.length + 2) (Cursor.ofText text).moveDown :=
    matchesFrom_congr hskip (text.length + 2)
  rw [hbegin, matchesFrom_moveDown, matchesIn]
  exact congrArg _ (matchesFrom_limit (Cursor.behind_ofText text) (by simp [Cursor.ofText])
    (by simp [Cursor.ofText]))

end Pattern

end CodeQuality
