import CodeQuality.Proofs.Pattern.Preferred
import Mathlib.Data.List.Sort

/-!
# Matches that keep apart

The matches in a text come in order, each behind the end of the one before it. A search does not
look for matches inside of one that it has found, so it may pass over places where its pattern
matches too. It passes over none when a match cannot begin inside of another one. Then the places
where matches begin are all places where the pattern matches.
-/

namespace CodeQuality

open Text

/-- The place between `head` and `rest`, with nothing recorded. -/
def Cursor.between (head rest : List Char) : Cursor where
  before := head.getLast?
  rest := rest
  offset := byteLength head

namespace Pattern

variable {pattern : Pattern}

/-! ## The first match -/

section First

variable {head rest : List Char}

/-- A search that stands where the pattern matches has found the first match. -/
theorem findFrom_of_preferred? {finish : Cursor}
    (h : pattern.preferred? (.between head rest) = some finish) :
    pattern.findFrom head.getLast? (byteLength head) rest = some ⟨byteLength head, finish⟩ := by
  have hends : (pattern.ends ⟨head.getLast?, rest, byteLength head, []⟩).head? = some finish := h
  cases rest with
  | nil => rw [findFrom, hends, Option.map_some]
  | cons c rest => rw [findFrom, hends]

/-- A search that stands where the pattern does not match goes on by a character. -/
theorem findFrom_of_preferred?_eq_none {c : Char}
    (h : pattern.preferred? (.between head (c :: rest)) = none) :
    pattern.findFrom head.getLast? (byteLength head) (c :: rest) =
      pattern.findFrom (head ++ [c]).getLast? (byteLength (head ++ [c])) rest := by
  have hends : (pattern.ends ⟨head.getLast?, c :: rest, byteLength head, []⟩).head? = none := h
  rw [findFrom, hends, List.getLast?_concat, byteLength_append, byteLength_cons, byteLength_nil]
  rfl

/-- The first match from a place on ends where the pattern prefers to end. -/
theorem preferred?_of_findFrom {found : Match}
    (h : pattern.findFrom head.getLast? (byteLength head) rest = some found) :
    ∃ skipped more, rest = skipped ++ more ∧ found.start = byteLength (head ++ skipped) ∧
      pattern.preferred? (.between (head ++ skipped) more) = some found.finish := by
  induction rest generalizing head with
  | nil =>
    rw [findFrom, Option.map_eq_some_iff] at h
    obtain ⟨finish, hfinish, rfl⟩ := h
    have hhere : pattern.preferred? (.between head []) = some finish := hfinish
    exact ⟨[], [], rfl, by simp, by simpa using hhere⟩
  | cons c rest ih =>
    cases hhere : pattern.preferred? (.between head (c :: rest)) with
    | some finish =>
      rw [findFrom_of_preferred? hhere] at h
      obtain rfl := Option.some.inj h
      exact ⟨[], c :: rest, rfl, by simp, by simpa using hhere⟩
    | none =>
      rw [findFrom_of_preferred?_eq_none hhere] at h
      obtain ⟨skipped, more, rfl, hstart, hmore⟩ := ih h
      exact ⟨c :: skipped, more, rfl, by simpa using hstart, by simpa using hmore⟩

/-- Every match in a text ends where the pattern prefers to end. -/
theorem preferred?_of_mem_matchesIn {text : List Char} {found : Match}
    (h : found ∈ pattern.matchesIn text) :
    ∃ head rest, text = head ++ rest ∧ found.start = byteLength head ∧
      pattern.preferred? (.between head rest) = some found.finish := by
  obtain ⟨passed, rest, htext, hfound⟩ :=
    exists_findFrom_of_mem_matchesFrom (Cursor.behind_ofText text) h
  obtain ⟨skipped, more, rfl, hstart, hpreferred⟩ := preferred?_of_findFrom hfound
  refine ⟨passed ++ skipped, more, ?_, by simpa using hstart, by simpa using hpreferred⟩
  rw [List.append_assoc]
  exact htext

end First

/-- A pattern that records nothing leads from between two pieces of text to between two others. -/
theorem exists_between_of_mem_ends (hgroups : pattern.groups = []) {head rest : List Char}
    {next : Cursor} (h : next ∈ pattern.ends (.between head rest)) :
    ∃ read tail, rest = read ++ tail ∧ pattern.Spells read ∧
      next = .between (head ++ read) tail := by
  obtain ⟨read, hsteps⟩ := exists_steps_of_mem_ends pattern h
  have hnone : next.groups = [] := by
    refine List.eq_nil_iff_forall_not_mem.mpr fun group hgroup => ?_
    rcases hsteps.records group hgroup with hbefore | ⟨body, _, _, _, hbody, -⟩
    · exact absurd hbefore List.not_mem_nil
    · rw [hgroups] at hbody
      exact absurd hbody List.not_mem_nil
  refine ⟨read, next.rest, hsteps.reads.rest_eq, hsteps.spells, ?_⟩
  obtain ⟨before, tail, offset, groups⟩ := next
  obtain rfl : groups = [] := hnone
  have hoffset : offset = byteLength head + byteLength read := hsteps.reads.offset_eq
  have hbefore : before = read.getLast?.or head.getLast? := hsteps.reads.before_eq
  rw [hoffset, hbefore, Cursor.between, byteLength_append, List.getLast?_append]

/-- A match of two parts reads a stretch that the first one spells, and the second one goes on
behind it. -/
theorem exists_between_of_preferred?_seq {first second : Pattern} (hgroups : first.groups = [])
    {head rest : List Char} {final : Cursor}
    (h : (seq first second).preferred? (.between head rest) = some final) :
    ∃ read tail, rest = read ++ tail ∧ first.Spells read ∧
      second.preferred? (.between (head ++ read) tail) = some final := by
  obtain ⟨next, hnext, hsecond⟩ := exists_of_preferred?_seq h
  obtain ⟨read, tail, hrest, hspells, rfl⟩ := exists_between_of_mem_ends hgroups hnext
  exact ⟨read, tail, hrest, hspells, hsecond⟩

/-! ## The order of matches -/

/-- The search goes on at or behind the end of a match. -/
theorem stop_le_of_resume? {found : Match} {next : Cursor} (h : resume? found = some next) :
    found.stop ≤ next.offset := by
  rw [resume?] at h
  split at h
  · obtain rfl := Option.some.inj h
    exact Nat.le_refl _
  · cases hrest : found.finish.rest with
    | nil => simp [hrest] at h
    | cons c rest =>
      simp only [hrest, Option.some.injEq] at h
      subst h
      exact Nat.le_add_right _ _

/-- Each match from a place on begins at or behind the end of the one before it. -/
theorem pairwise_matchesFrom {limit : Nat} {cursor : Cursor} {head : List Char}
    (hbehind : cursor.Behind head) :
    (pattern.matchesFrom limit cursor).Pairwise fun earlier later =>
      earlier.stop ≤ later.start := by
  induction limit generalizing cursor head with
  | zero => exact .nil
  | succ limit ih =>
    rw [matchesFrom_succ, hbehind.offset_eq, hbehind.before_eq]
    split
    · exact .nil
    · rename_i first hfirst
      obtain ⟨skipped, read, tail, -, hoccurs⟩ := occurs_of_findFrom hfirst
      cases hresume : resume? first with
      | none => exact List.pairwise_singleton ..
      | some next =>
        obtain ⟨more, -, hnext, -⟩ := resume?_eq_some hoccurs hresume
        refine .cons (fun later hlater => ?_) (ih hnext)
        obtain ⟨passed, _, _, -, hlater⟩ := occurs_of_mem_matchesFrom hnext hlater
        calc first.stop ≤ next.offset := stop_le_of_resume? hresume
          _ ≤ later.start := by
            rw [hlater.start_eq, hnext.offset_eq, byteLength_append _ passed]
            exact Nat.le_add_right _ _

theorem pairwise_matchesIn (pattern : Pattern) (text : List Char) :
    (pattern.matchesIn text).Pairwise fun earlier later => earlier.stop ≤ later.start :=
  pairwise_matchesFrom (Cursor.behind_ofText text)

/-- A match of a pattern that spells no empty stretch ends behind its beginning. -/
theorem Occurs.start_lt_stop (hwidth : 0 < pattern.minWidth) {found : Match}
    {head read tail : List Char} (h : pattern.Occurs found head read tail) :
    found.start < found.stop := by
  have hread : byteLength read ≠ 0 := by
    intro hzero
    have hlength := h.spells.minWidth_le
    rw [eq_nil_of_byteLength_eq_zero hzero, List.length_nil] at hlength
    omega
  rw [h.start_eq, h.stop_eq, byteLength_append]
  omega

/-! ## All places -/

/-- A stretch that the pattern spells has a character, and behind its first one it holds no
character that can begin another stretch. -/
structure KeepsApart (pattern : Pattern) : Prop where
  width_pos : 0 < pattern.minWidth
  mayBegin_tail : ∀ read, pattern.Spells read → ∀ c ∈ read.tail, pattern.mayBegin c = false

section Places

variable (hapart : pattern.KeepsApart)
include hapart

/-- Behind the beginning of a match the pattern does not match before the end of the match. -/
theorem KeepsApart.exists_append {head read tail passed more : List Char}
    (hspells : pattern.Spells read) (hpassed : passed ≠ [])
    (hsplit : read ++ tail = passed ++ more) {finish : Cursor}
    (h : pattern.preferred? (.between head more) = some finish) :
    ∃ skipped, passed = read ++ skipped ∧ tail = skipped ++ more := by
  rcases List.append_eq_append_iff.mp hsplit with ⟨skipped, hskipped, htail⟩ | ⟨inner, hread, hmore⟩
  · exact ⟨skipped, hskipped, htail⟩
  · cases inner with
    | nil => exact ⟨[], by simpa using hread.symm, hmore.symm⟩
    | cons c inner =>
      -- The match inside begins with a character that the outer one holds behind its first.
      obtain ⟨other, _, hother, hoccurs⟩ := occurs_of_mem_ends (List.mem_of_head? h)
      have hlength := hoccurs.spells.minWidth_le
      cases other with
      | nil => exact absurd hlength (Nat.not_le.mpr hapart.width_pos)
      | cons d other =>
        obtain ⟨rfl, -⟩ : c = d ∧ inner ++ tail = other ++ _ := by
          rw [hmore] at hother
          simpa using hother
        have hbegin : pattern.mayBegin c = true := hoccurs.spells.mayBegin_of_head? rfl
        have hmem : c ∈ read.tail := by
          obtain ⟨e, passed, rfl⟩ := List.exists_cons_of_ne_nil hpassed
          simp [hread]
        rw [hapart.mayBegin_tail read hspells c hmem] at hbegin
        exact absurd hbegin (by decide)

/-- Every place where the pattern matches is the beginning of a match that is found. -/
theorem KeepsApart.mem_matchesFrom {limit : Nat} {cursor : Cursor} {head passed more : List Char}
    (hbehind : cursor.Behind head) (hrest : cursor.rest = passed ++ more)
    (hlimit : cursor.rest.length < limit) {finish : Cursor}
    (h : pattern.preferred? (.between (head ++ passed) more) = some finish) :
    ⟨byteLength (head ++ passed), finish⟩ ∈ pattern.matchesFrom limit cursor := by
  -- By induction on what is left to pass: a character where nothing matches, or a whole match.
  induction hlength : passed.length using Nat.strongRecOn
    generalizing limit cursor head passed with
  | ind length ih =>
    obtain ⟨limit, rfl⟩ : ∃ n, limit = n + 1 := ⟨limit - 1, by omega⟩
    cases passed with
    | nil =>
      rw [List.append_nil] at h ⊢
      rw [List.nil_append] at hrest
      rw [matchesFrom_succ, hbehind.before_eq, hbehind.offset_eq, hrest, findFrom_of_preferred? h]
      exact List.mem_cons_self
    | cons c passed =>
      cases hhere : pattern.preferred? (.between head (c :: passed ++ more)) with
      | none =>
        let next := cursor.beyond [c] (passed ++ more)
        have hnext : next.Behind (head ++ [c]) := hbehind.beyond [c] (passed ++ more)
        have hsame : pattern.matchesFrom (limit + 1) cursor =
            pattern.matchesFrom (limit + 1) next := by
          apply matchesFrom_congr
          rw [hbehind.before_eq, hbehind.offset_eq, hrest, hnext.before_eq, hnext.offset_eq]
          exact findFrom_of_preferred?_eq_none hhere
        have hshorter : (passed ++ more).length < limit + 1 := by
          rw [hrest] at hlimit
          simp only [List.cons_append, List.length_cons] at hlimit
          omega
        have hmem := ih passed.length (by simp [← hlength]) hnext rfl hshorter
          (by simpa using h) rfl
        rw [hsame]
        simpa using hmem
      | some first =>
        obtain ⟨read, tail, hsplit, hoccurs⟩ := occurs_of_mem_ends (List.mem_of_head? hhere)
        obtain ⟨skipped, hpassed, htail⟩ := hapart.exists_append hoccurs.spells
          (List.cons_ne_nil c passed) hsplit.symm h
        have hread : 0 < read.length :=
          Nat.lt_of_lt_of_le hapart.width_pos hoccurs.spells.minWidth_le
        have hresume : resume? ⟨byteLength head, first⟩ = some first :=
          if_pos (hoccurs.start_lt_stop hapart.width_pos)
        rw [matchesFrom_succ, hbehind.before_eq, hbehind.offset_eq, hrest,
          findFrom_of_preferred? hhere]
        simp only [hresume, Option.elim_some]
        refine List.mem_cons_of_mem _ ?_
        have hnext : first.Behind (head ++ read) := ⟨hoccurs.stop_eq, hoccurs.before_eq⟩
        have hlengths : (c :: passed).length = read.length + skipped.length := by
          rw [hpassed, List.length_append]
        have hleft : first.rest.length < limit := by
          have hall := congrArg List.length hsplit
          rw [hrest] at hlimit
          rw [hoccurs.rest_eq]
          simp only [List.length_append] at hall hlimit
          omega
        have hmem := ih skipped.length (by omega) hnext (hoccurs.rest_eq.trans htail) hleft
          (by simpa [hpassed] using h) rfl
        simpa [hpassed] using hmem

/-- The places where matches begin are all places where the pattern matches. -/
theorem KeepsApart.mem_matchesIn {head rest : List Char} {finish : Cursor}
    (h : pattern.preferred? (.between head rest) = some finish) :
    ⟨byteLength head, finish⟩ ∈ pattern.matchesIn (head ++ rest) :=
  hapart.mem_matchesFrom (Cursor.behind_ofText (head ++ rest)) rfl (Nat.lt_succ_self _) h

end Places

/-! ## Matches inside of others -/

/-- The first match covers a part of what the second one covers. -/
def Within (part whole : Match) : Prop :=
  whole.start ≤ part.start ∧ part.stop ≤ whole.stop

/-- Where every match of one pattern has a match of another one inside of it, these are so many
different matches. -/
theorem exists_sublist_within {outer inner : Pattern} {text : List Char}
    (hwidth : 0 < inner.minWidth)
    (h : ∀ whole ∈ outer.matchesIn text, ∃ part ∈ inner.matchesIn text, Within part whole) :
    ∃ parts, parts.Sublist (inner.matchesIn text) ∧
      List.Forall₂ (fun whole part => Within part whole) (outer.matchesIn text) parts := by
  let Before (earlier later : Match) : Prop := earlier.start < later.start
  have hantisymm : Std.Antisymm Before := ⟨fun _ _ hab hba => absurd hab (Nat.lt_asymm hba)⟩
  have hpos : ∀ part ∈ inner.matchesIn text, part.start < part.stop := by
    intro part hpart
    obtain ⟨_, _, _, -, hoccurs⟩ := occurs_of_mem_matchesIn hpart
    exact hoccurs.start_lt_stop hwidth
  have hnonempty : Nonempty Match := ⟨⟨0, Cursor.ofText []⟩⟩
  choose! part hmem hwithin using h
  have hsubset : (outer.matchesIn text).map part ⊆ inner.matchesIn text := by
    intro found hfound
    obtain ⟨whole, hwhole, rfl⟩ := List.mem_map.mp hfound
    exact hmem whole hwhole
  have hinner : (inner.matchesIn text).Pairwise Before :=
    (pairwise_matchesIn inner text).imp_of_mem fun hearlier _ hle =>
      Nat.lt_of_lt_of_le (hpos _ hearlier) hle
  have hparts : ((outer.matchesIn text).map part).Pairwise Before := by
    rw [List.pairwise_map]
    refine (pairwise_matchesIn outer text).imp_of_mem fun {earlier later} hearlier hlater hle => ?_
    have hlt := hpos _ (hmem earlier hearlier)
    have hend := (hwithin earlier hearlier).2
    have hbegin := (hwithin later hlater).1
    simp only [Before]
    omega
  have hnodup : ((outer.matchesIn text).map part).Nodup :=
    hparts.imp fun hlt => ne_of_apply_ne Match.start (Nat.ne_of_lt hlt)
  refine ⟨(outer.matchesIn text).map part, List.sublist_of_subperm_of_pairwise
    (List.subperm_of_subset hnodup hsubset) hparts hinner, ?_⟩
  rw [List.forall₂_map_right_iff, List.forall₂_same]
  exact hwithin

end Pattern

end CodeQuality
