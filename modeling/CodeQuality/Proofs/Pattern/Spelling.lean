import CodeQuality.Pattern.Basic
import CodeQuality.Proofs.Text.Offset

/-!
# What a pattern spells

The stretches that a pattern can cover, said without cursors, offsets and preferences. Every end
of a match lies behind a stretch that the pattern spells, and every group recorded on the way
covers a part of the stretch that the group's own pattern spells.

Three measures of a pattern follow from its spelling: the least length of a stretch, the
characters that can begin one, and the characters that can end one. They are computed from the
pattern alone.
-/

namespace CodeQuality

open Text

namespace Cursor

/-- One place lies behind the other by the characters read. -/
structure Reads (cursor : Cursor) (read : List Char) (next : Cursor) : Prop where
  rest_eq : cursor.rest = read ++ next.rest
  offset_eq : next.offset = cursor.offset + byteLength read
  before_eq : next.before = read.getLast?.or cursor.before

/-- Reading nothing stays in place, whatever is recorded. -/
theorem Reads.refl (cursor : Cursor) : cursor.Reads [] cursor :=
  ⟨rfl, by simp, rfl⟩

/-- Reading on from where a reading ends reads both stretches. -/
theorem Reads.trans {a b c : Cursor} {first second : List Char} (hab : a.Reads first b)
    (hbc : b.Reads second c) : a.Reads (first ++ second) c where
  rest_eq := by rw [hab.rest_eq, hbc.rest_eq, List.append_assoc]
  offset_eq := by rw [hbc.offset_eq, hab.offset_eq, byteLength_append, Nat.add_assoc]
  before_eq := by rw [hbc.before_eq, hab.before_eq, List.getLast?_append, Option.or_assoc]

/-- The place behind a character lies behind the character. -/
theorem Reads.past {cursor : Cursor} {c : Char} {rest : List Char} (h : cursor.rest = c :: rest) :
    cursor.Reads [c] (cursor.past c rest) :=
  ⟨h, by simp [Cursor.past], rfl⟩

/-- A run leads behind accepted characters and records nothing. -/
theorem reads_of_mem_reach {accepts : Char → Bool} {rest : List Char} {cursor next : Cursor}
    {nearer : List Cursor} (hrest : cursor.rest = rest)
    (h : next ∈ reach accepts rest cursor nearer) :
    next ∈ nearer ∨ ∃ read, cursor.Reads read next ∧ (∀ c ∈ read, accepts c = true) ∧
      next.groups = cursor.groups := by
  have hstay (cursor : Cursor) : ∃ read, cursor.Reads read cursor ∧
      (∀ c ∈ read, accepts c = true) ∧ cursor.groups = cursor.groups :=
    ⟨[], Reads.refl cursor, by simp, rfl⟩
  induction rest generalizing cursor nearer with
  | nil =>
    rcases List.mem_cons.mp h with rfl | hnearer
    · exact Or.inr (hstay next)
    · exact Or.inl hnearer
  | cons c rest ih =>
    rw [reach] at h
    split at h
    · rename_i hc
      rcases ih rfl h with hmem | ⟨read, hread, haccepts, hgroups⟩
      · rcases List.mem_cons.mp hmem with rfl | hnearer
        · exact Or.inr (hstay next)
        · exact Or.inl hnearer
      · exact Or.inr ⟨c :: read, (Reads.past hrest).trans hread, by simpa [hc] using haccepts,
          hgroups⟩
    · rcases List.mem_cons.mp h with rfl | hnearer
      · exact Or.inr (hstay next)
      · exact Or.inl hnearer

/-- Skipping characters leads behind them and records nothing. -/
theorem reads_of_skip? {chars : List Char} {cursor next : Cursor}
    (h : cursor.skip? chars = some next) :
    cursor.Reads chars next ∧ next.groups = cursor.groups := by
  induction chars generalizing cursor with
  | nil =>
    obtain rfl : cursor = next := by simpa [skip?] using h
    exact ⟨Reads.refl _, rfl⟩
  | cons a more ih =>
    rw [skip?] at h
    cases hrest : cursor.rest with
    | nil => simp [hrest] at h
    | cons c rest =>
      simp only [hrest] at h
      split at h
      · rename_i hac
        subst hac
        obtain ⟨hread, hgroups⟩ := ih h
        exact ⟨(Reads.past hrest).trans hread, hgroups⟩
      · simp at h

end Cursor

namespace Pattern

/-- The pattern covers the stretch, if what stands around it fits. -/
inductive Spells : Pattern → List Char → Prop where
  | one {accepts : Char → Bool} {c : Char} (h : accepts c = true) : Spells (one accepts) [c]
  | literal (chars : List Char) : Spells (literal chars) chars
  | run {accepts : Char → Bool} {read : List Char} (h : ∀ c ∈ read, accepts c = true) :
      Spells (run accepts) read
  | fewest {accepts : Char → Bool} {read : List Char} (h : ∀ c ∈ read, accepts c = true) :
      Spells (fewest accepts) read
  | seq {first second : Pattern} {a b : List Char} (ha : Spells first a) (hb : Spells second b) :
      Spells (seq first second) (a ++ b)
  | altFirst {first second : Pattern} {a : List Char} (h : Spells first a) :
      Spells (alt first second) a
  | altSecond {first second : Pattern} {a : List Char} (h : Spells second a) :
      Spells (alt first second) a
  | optSome {body : Pattern} {a : List Char} (h : Spells body a) : Spells (opt body) a
  | optNone (body : Pattern) : Spells (opt body) []
  | manyNil (body : Pattern) : Spells (many body) []
  | manyCons {body : Pattern} {a b : List Char} (ha : Spells body a) (hb : Spells (many body) b) :
      Spells (many body) (a ++ b)
  | group {label : Label} {body : Pattern} {a : List Char} (h : Spells body a) :
      Spells (group label body) a
  | lineStart : Spells lineStart []
  | lineEnd : Spells lineEnd []
  | textEnd : Spells textEnd []
  | wordEdge : Spells wordEdge []

/-- The named parts of a pattern. -/
def groups : Pattern → List (Label × Pattern)
  | seq first second => groups first ++ groups second
  | alt first second => groups first ++ groups second
  | opt body => groups body
  | many body => groups body
  | group label body => (label, body) :: groups body
  | _ => []

/-- A span recorded while the stretch behind `offset` was read covers a part of the stretch that a
named part of the pattern spells. -/
def Records (pattern : Pattern) (offset : Nat) (read : List Char) (group : Label × Span) : Prop :=
  ∃ body ahead part behind, (group.1, body) ∈ pattern.groups ∧ body.Spells part ∧
    read = ahead ++ part ++ behind ∧ group.2.start = offset + byteLength ahead ∧
    group.2.stop = offset + byteLength (ahead ++ part)

/-- What leads from a cursor to the end of a match. -/
structure Steps (pattern : Pattern) (cursor : Cursor) (read : List Char) (next : Cursor) :
    Prop where
  reads : cursor.Reads read next
  spells : pattern.Spells read
  records : ∀ group ∈ next.groups, group ∈ cursor.groups ∨ pattern.Records cursor.offset read group

/-- What a part of a pattern records in a part of the stretch, the pattern records. -/
theorem Records.weaken {inner outer : Pattern} (hgroups : inner.groups ⊆ outer.groups)
    {offset : Nat} {read : List Char} {group : Label × Span} (ahead behind : List Char)
    (h : inner.Records (offset + byteLength ahead) read group) :
    outer.Records offset (ahead ++ read ++ behind) group := by
  obtain ⟨body, ahead', part, behind', hbody, hspells, rfl, hstart, hstop⟩ := h
  refine ⟨body, ahead ++ ahead', part, behind' ++ behind, hgroups hbody, hspells, by simp, ?_, ?_⟩
  · rw [hstart, byteLength_append, Nat.add_assoc]
  · simp only [hstop, byteLength_append, Nat.add_assoc]

/-- A pattern takes the steps of one of its parts. -/
theorem Steps.weaken {inner outer : Pattern} (hgroups : inner.groups ⊆ outer.groups)
    {a b : Cursor} {read : List Char} (h : inner.Steps a read b) (hspells : outer.Spells read) :
    outer.Steps a read b where
  reads := h.reads
  spells := hspells
  records := fun group hgroup => (h.records group hgroup).imp_right fun hrecords => by
    simpa using Records.weaken hgroups [] [] hrecords

/-- A pattern takes the steps of two of its parts one after the other. -/
theorem Steps.append {first second outer : Pattern} (hfirst : first.groups ⊆ outer.groups)
    (hsecond : second.groups ⊆ outer.groups) {a b c : Cursor} {r s : List Char}
    (hab : first.Steps a r b) (hbc : second.Steps b s c) (hspells : outer.Spells (r ++ s)) :
    outer.Steps a (r ++ s) c where
  reads := hab.reads.trans hbc.reads
  spells := hspells
  records := by
    intro group hgroup
    rcases hbc.records group hgroup with hb | hrecords
    · refine (hab.records group hb).imp_right fun hrecords => ?_
      simpa using Records.weaken hfirst [] s hrecords
    · rw [hab.reads.offset_eq] at hrecords
      exact Or.inr (by simpa using Records.weaken hsecond r [] hrecords)

/-- A step that records nothing. -/
theorem Steps.of_groups_eq {pattern : Pattern} {a b : Cursor} {read : List Char}
    (hreads : a.Reads read b) (hspells : pattern.Spells read) (hgroups : b.groups = a.groups) :
    pattern.Steps a read b :=
  ⟨hreads, hspells, fun _ hgroup => Or.inl (hgroups ▸ hgroup)⟩

/-- A pattern that asks for its surroundings only stays in place. -/
theorem exists_steps_of_mem_ite {pattern : Pattern} (hspells : pattern.Spells []) {fits : Bool}
    {cursor next : Cursor} (h : next ∈ if fits then [cursor] else []) :
    ∃ read, pattern.Steps cursor read next := by
  obtain rfl : next = cursor := by
    cases fits with
    | false => simp at h
    | true => simpa using h
  exact ⟨[], Steps.of_groups_eq (Cursor.Reads.refl next) hspells rfl⟩

/-- Repetitions take the steps of the repeated pattern one after the other. -/
theorem exists_steps_of_mem_repeats {body : Pattern}
    (hbody : ∀ cursor, ∀ next ∈ body.ends cursor, ∃ read, body.Steps cursor read next)
    {limit : Nat} {cursor next : Cursor} (h : next ∈ repeats body.ends limit cursor) :
    ∃ read, (many body).Steps cursor read next := by
  have hstay (cursor : Cursor) : (many body).Steps cursor [] cursor :=
    Steps.of_groups_eq (Cursor.Reads.refl cursor) (Spells.manyNil body) rfl
  induction limit generalizing cursor with
  | zero =>
    obtain rfl : next = cursor := by simpa [repeats] using h
    exact ⟨[], hstay next⟩
  | succ limit ih =>
    rw [repeats, List.mem_append, List.mem_flatMap] at h
    rcases h with ⟨middle, hmiddle, hnext⟩ | hlast
    · obtain ⟨r, hr⟩ := hbody cursor middle (List.mem_of_mem_filter hmiddle)
      obtain ⟨s, hs⟩ := ih hnext
      have hgroups : body.groups ⊆ (many body).groups := List.Subset.refl _
      exact ⟨r ++ s, Steps.append hgroups (List.Subset.refl _) hr hs
        (Spells.manyCons hr.spells hs.spells)⟩
    · obtain rfl : next = cursor := by simpa using hlast
      exact ⟨[], hstay next⟩

/-- Every end of a match lies behind a stretch that the pattern spells. -/
theorem exists_steps_of_mem_ends (pattern : Pattern) {cursor next : Cursor}
    (h : next ∈ pattern.ends cursor) : ∃ read, pattern.Steps cursor read next := by
  induction pattern generalizing cursor next with
  | one accepts =>
    cases hrest : cursor.rest with
    | nil => simp [ends, hrest] at h
    | cons c rest =>
      simp only [ends, hrest] at h
      split at h
      · rename_i hc
        obtain rfl : next = cursor.past c rest := by simpa using h
        exact ⟨[c], Steps.of_groups_eq (Cursor.Reads.past hrest) (Spells.one hc) rfl⟩
      · simp at h
  | literal chars =>
    obtain ⟨hreads, hgroups⟩ := Cursor.reads_of_skip? (Option.mem_toList.mp h)
    exact ⟨chars, Steps.of_groups_eq hreads (Spells.literal chars) hgroups⟩
  | run accepts =>
    rcases Cursor.reads_of_mem_reach rfl h with hnil | ⟨read, hreads, haccepts, hgroups⟩
    · simp at hnil
    · exact ⟨read, Steps.of_groups_eq hreads (Spells.run haccepts) hgroups⟩
  | fewest accepts =>
    rcases Cursor.reads_of_mem_reach rfl (List.mem_reverse.mp h) with
      hnil | ⟨read, hreads, haccepts, hgroups⟩
    · simp at hnil
    · exact ⟨read, Steps.of_groups_eq hreads (Spells.fewest haccepts) hgroups⟩
  | seq first second ihFirst ihSecond =>
    obtain ⟨middle, hmiddle, hnext⟩ := List.mem_flatMap.mp h
    obtain ⟨r, hr⟩ := ihFirst hmiddle
    obtain ⟨s, hs⟩ := ihSecond hnext
    exact ⟨r ++ s, Steps.append (List.subset_append_left _ _) (List.subset_append_right _ _) hr hs
      (Spells.seq hr.spells hs.spells)⟩
  | alt first second ihFirst ihSecond =>
    rcases List.mem_append.mp h with hfirst | hsecond
    · obtain ⟨r, hr⟩ := ihFirst hfirst
      exact ⟨r, hr.weaken (List.subset_append_left _ _) (Spells.altFirst hr.spells)⟩
    · obtain ⟨r, hr⟩ := ihSecond hsecond
      exact ⟨r, hr.weaken (List.subset_append_right _ _) (Spells.altSecond hr.spells)⟩
  | opt body ih =>
    rcases List.mem_append.mp h with hbody | hnone
    · obtain ⟨r, hr⟩ := ih hbody
      have hgroups : body.groups ⊆ (opt body).groups := List.Subset.refl _
      exact ⟨r, hr.weaken hgroups (Spells.optSome hr.spells)⟩
    · obtain rfl : next = cursor := by simpa using hnone
      exact ⟨[], Steps.of_groups_eq (Cursor.Reads.refl next) (Spells.optNone body) rfl⟩
  | many body ih => exact exists_steps_of_mem_repeats (fun _ _ hnext => ih hnext) h
  | group label body ih =>
    obtain ⟨middle, hmiddle, rfl⟩ := List.mem_map.mp h
    obtain ⟨r, hr⟩ := ih hmiddle
    refine ⟨r, ⟨hr.reads.rest_eq, hr.reads.offset_eq, hr.reads.before_eq⟩, Spells.group hr.spells,
      fun group hgroup => ?_⟩
    rcases List.mem_cons.mp hgroup with rfl | hinner
    · exact Or.inr ⟨body, [], r, [], by simp [groups], hr.spells, by simp, by simp,
        by simpa using hr.reads.offset_eq⟩
    · refine (hr.records group hinner).imp_right fun hrecords => ?_
      simpa using Records.weaken (List.subset_cons_self _ _) [] [] hrecords
  | lineStart => exact exists_steps_of_mem_ite Spells.lineStart h
  | lineEnd => exact exists_steps_of_mem_ite Spells.lineEnd h
  | textEnd => exact exists_steps_of_mem_ite Spells.textEnd h
  | wordEdge => exact exists_steps_of_mem_ite Spells.wordEdge h

/-! ## Measures -/

/-- The least number of characters of a stretch that the pattern spells. -/
def minWidth : Pattern → Nat
  | one _ => 1
  | literal chars => chars.length
  | seq first second => minWidth first + minWidth second
  | alt first second => min (minWidth first) (minWidth second)
  | group _ body => minWidth body
  | _ => 0

/-- A stretch that the pattern spells can begin with the character. -/
def mayBegin (c : Char) : Pattern → Bool
  | one accepts => accepts c
  | literal chars => chars.head? == some c
  | run accepts => accepts c
  | fewest accepts => accepts c
  | seq first second => mayBegin c first || (minWidth first == 0 && mayBegin c second)
  | alt first second => mayBegin c first || mayBegin c second
  | opt body => mayBegin c body
  | many body => mayBegin c body
  | group _ body => mayBegin c body
  | _ => false

/-- A stretch that the pattern spells can end with the character. -/
def mayEnd (c : Char) : Pattern → Bool
  | one accepts => accepts c
  | literal chars => chars.getLast? == some c
  | run accepts => accepts c
  | fewest accepts => accepts c
  | seq first second => mayEnd c second || (minWidth second == 0 && mayEnd c first)
  | alt first second => mayEnd c first || mayEnd c second
  | opt body => mayEnd c body
  | many body => mayEnd c body
  | group _ body => mayEnd c body
  | _ => false

/-- Every stretch has at least the least length. -/
theorem Spells.minWidth_le {pattern : Pattern} {read : List Char} (h : pattern.Spells read) :
    pattern.minWidth ≤ read.length := by
  induction h with
  | one | literal => exact Nat.le_refl _
  | seq _ _ iha ihb =>
    rw [minWidth, List.length_append]
    exact Nat.add_le_add iha ihb
  | altFirst _ ih => exact Nat.le_trans (Nat.min_le_left _ _) ih
  | altSecond _ ih => exact Nat.le_trans (Nat.min_le_right _ _) ih
  | group _ ih => exact ih
  | _ => exact Nat.zero_le _

/-- Every stretch begins with a character that can begin one. -/
theorem Spells.mayBegin_of_head? {pattern : Pattern} {read : List Char} (h : pattern.Spells read)
    {c : Char} (hc : read.head? = some c) : pattern.mayBegin c = true := by
  induction h with
  | one haccepts =>
    obtain rfl : _ = c := by simpa using hc
    exact haccepts
  | literal chars => simp [mayBegin, hc]
  | run haccepts | fewest haccepts => exact haccepts c (List.mem_of_head? hc)
  | @seq first second a b ha _ iha ihb =>
    rw [List.head?_append] at hc
    cases a with
    | nil =>
      have hzero : first.minWidth = 0 := Nat.le_zero.mp ha.minWidth_le
      simp [mayBegin, hzero, ihb hc]
    | cons d a => simp [mayBegin, iha hc]
  | altFirst _ ih => simp [mayBegin, ih hc]
  | altSecond _ ih => simp [mayBegin, ih hc]
  | optSome _ ih => exact ih hc
  | @manyCons body a b _ _ iha ihb =>
    rw [List.head?_append] at hc
    cases a with
    | nil => exact ihb hc
    | cons d a => exact iha hc
  | group _ ih => exact ih hc
  | _ => simp at hc

/-- Every stretch ends with a character that can end one. -/
theorem Spells.mayEnd_of_getLast? {pattern : Pattern} {read : List Char} (h : pattern.Spells read)
    {c : Char} (hc : read.getLast? = some c) : pattern.mayEnd c = true := by
  induction h with
  | one haccepts =>
    obtain rfl : _ = c := by simpa using hc
    exact haccepts
  | literal chars => simp [mayEnd, hc]
  | run haccepts | fewest haccepts => exact haccepts c (List.mem_of_getLast? hc)
  | @seq first second a b _ hb iha ihb =>
    rw [List.getLast?_append] at hc
    cases hlast : b.getLast? with
    | none =>
      obtain rfl : b = [] := List.getLast?_eq_none_iff.mp hlast
      have hzero : second.minWidth = 0 := Nat.le_zero.mp hb.minWidth_le
      simp [mayEnd, hzero, iha (by simpa using hc)]
    | some d => simp [mayEnd, ihb (by simpa [hlast] using hc)]
  | altFirst _ ih => simp [mayEnd, ih hc]
  | altSecond _ ih => simp [mayEnd, ih hc]
  | optSome _ ih => exact ih hc
  | @manyCons body a b _ _ iha ihb =>
    rw [List.getLast?_append] at hc
    cases hlast : b.getLast? with
    | none => exact iha (by simpa [hlast] using hc)
    | some d => exact ihb (by simpa [hlast] using hc)
  | group _ ih => exact ih hc
  | _ => simp at hc

end Pattern

end CodeQuality
