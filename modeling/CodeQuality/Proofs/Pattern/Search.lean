import CodeQuality.Pattern.Search
import CodeQuality.Proofs.Pattern.Spelling

/-!
# Matches in a text

Every match in a text covers a stretch that its pattern spells, and its groups cover parts of that
stretch. The number of matches that a search may return is no limit: more than the characters left
are never found.
-/

namespace CodeQuality

open Text

/-- The place lies behind `head`. -/
structure Cursor.Behind (cursor : Cursor) (head : List Char) : Prop where
  offset_eq : cursor.offset = byteLength head
  before_eq : cursor.before = head.getLast?

/-- The beginning of a text has nothing before it. -/
theorem Cursor.behind_ofText (text : List Char) : (ofText text).Behind [] :=
  ⟨rfl, rfl⟩

namespace Pattern

/-- The match covers `read`, which stands between `head` and `tail`. -/
structure Occurs (pattern : Pattern) (found : Match) (head read tail : List Char) : Prop where
  start_eq : found.start = byteLength head
  stop_eq : found.stop = byteLength (head ++ read)
  rest_eq : found.finish.rest = tail
  before_eq : found.finish.before = (head ++ read).getLast?
  spells : pattern.Spells read
  records : ∀ group ∈ found.finish.groups, pattern.Records (byteLength head) read group
  /-- The match ends where the pattern does from behind `head` on. -/
  ends : found.finish ∈ pattern.ends ⟨head.getLast?, read ++ tail, byteLength head, []⟩

/-- An end of a match that has recorded nothing before it begins is an occurrence. -/
theorem occurs_of_mem_ends {pattern : Pattern} {head rest : List Char} {finish : Cursor}
    (h : finish ∈ pattern.ends ⟨head.getLast?, rest, byteLength head, []⟩) :
    ∃ read tail, rest = read ++ tail ∧
      pattern.Occurs ⟨byteLength head, finish⟩ head read tail := by
  obtain ⟨read, hsteps⟩ := exists_steps_of_mem_ends pattern h
  have hrest : rest = read ++ finish.rest := hsteps.reads.rest_eq
  refine ⟨read, finish.rest, hrest, rfl, ?_, rfl, ?_, hsteps.spells, ?_, hrest ▸ h⟩
  · rw [byteLength_append]
    exact hsteps.reads.offset_eq
  · rw [List.getLast?_append]
    exact hsteps.reads.before_eq
  · intro group hgroup
    exact (hsteps.records group hgroup).resolve_left (by simp)

/-- The first match from a place on is an occurrence behind it. -/
theorem occurs_of_findFrom {pattern : Pattern} {head rest : List Char} {found : Match}
    (h : pattern.findFrom head.getLast? (byteLength head) rest = some found) :
    ∃ skipped read tail, rest = skipped ++ read ++ tail ∧
      pattern.Occurs found (head ++ skipped) read tail := by
  induction rest generalizing head with
  | nil =>
    rw [findFrom, Option.map_eq_some_iff] at h
    obtain ⟨finish, hfinish, rfl⟩ := h
    obtain ⟨read, tail, hrest, hoccurs⟩ := occurs_of_mem_ends (List.mem_of_head? hfinish)
    exact ⟨[], read, tail, hrest, by simpa using hoccurs⟩
  | cons c rest ih =>
    rw [findFrom] at h
    split at h
    · rename_i finish hfinish
      obtain rfl := Option.some.inj h
      obtain ⟨read, tail, hrest, hoccurs⟩ := occurs_of_mem_ends (List.mem_of_head? hfinish)
      exact ⟨[], read, tail, hrest, by simpa using hoccurs⟩
    · have hoffset : byteLength head + c.utf8Size = byteLength (head ++ [c]) := by simp
      have hbefore : some c = (head ++ [c]).getLast? := by simp
      rw [hoffset, hbefore] at h
      obtain ⟨skipped, read, tail, rfl, hoccurs⟩ := ih h
      exact ⟨c :: skipped, read, tail, rfl, by simpa using hoccurs⟩

/-- Where the search goes on after a match, if it does. -/
def resume? (found : Match) : Option Cursor :=
  if found.start < found.stop then some found.finish
  else
    match found.finish.rest with
    | [] => none
    | c :: rest => some (found.finish.past c rest)

/-- The matches from a place on are the first one and those from where the search goes on. -/
theorem matchesFrom_succ (pattern : Pattern) (limit : Nat) (cursor : Cursor) :
    pattern.matchesFrom (limit + 1) cursor =
      match pattern.findFrom cursor.before cursor.offset cursor.rest with
      | none => []
      | some found => found :: (resume? found).elim [] (pattern.matchesFrom limit) := by
  rw [matchesFrom]
  cases pattern.findFrom cursor.before cursor.offset cursor.rest with
  | none => rfl
  | some found =>
    by_cases hlt : found.start < found.stop
    · simp [resume?, hlt]
    · cases hrest : found.finish.rest <;> simp [resume?, hlt, hrest]

/-- The matches from two places are the same if the first ones are. -/
theorem matchesFrom_congr {pattern : Pattern} {cursor other : Cursor}
    (h : pattern.findFrom cursor.before cursor.offset cursor.rest =
      pattern.findFrom other.before other.offset other.rest) (limit : Nat) :
    pattern.matchesFrom limit cursor = pattern.matchesFrom limit other := by
  cases limit with
  | zero => rfl
  | succ limit => rw [matchesFrom_succ, matchesFrom_succ, h]

/-- The search goes on behind the match and with fewer characters left. -/
theorem resume?_eq_some {pattern : Pattern} {found : Match} {head read tail : List Char}
    (hoccurs : pattern.Occurs found head read tail) {next : Cursor}
    (h : resume? found = some next) :
    ∃ more, read ++ tail = more ++ next.rest ∧ next.Behind (head ++ more) ∧ more ≠ [] := by
  rw [resume?] at h
  split at h
  · rename_i hlt
    obtain rfl := Option.some.inj h
    refine ⟨read, by rw [hoccurs.rest_eq], ⟨hoccurs.stop_eq, hoccurs.before_eq⟩, ?_⟩
    rintro rfl
    rw [hoccurs.start_eq, hoccurs.stop_eq, List.append_nil] at hlt
    exact Nat.lt_irrefl _ hlt
  · cases htail : found.finish.rest with
    | nil => simp [htail] at h
    | cons c rest =>
      simp only [htail, Option.some.injEq] at h
      subst h
      obtain rfl : tail = c :: rest := hoccurs.rest_eq.symm.trans htail
      refine ⟨read ++ [c], by simp [Cursor.past], ⟨?_, by simp [Cursor.past]⟩, by simp⟩
      have hstop : found.finish.offset = byteLength (head ++ read) := hoccurs.stop_eq
      simp only [Cursor.past, hstop, byteLength_append, byteLength_cons, byteLength_nil]
      omega

/-- Every match from a place on is the first one from some place behind it. -/
theorem exists_findFrom_of_mem_matchesFrom {pattern : Pattern} {limit : Nat} {cursor : Cursor}
    {head : List Char} (hbehind : cursor.Behind head) {found : Match}
    (h : found ∈ pattern.matchesFrom limit cursor) :
    ∃ passed rest, cursor.rest = passed ++ rest ∧
      pattern.findFrom (head ++ passed).getLast? (byteLength (head ++ passed)) rest =
        some found := by
  induction limit generalizing cursor head with
  | zero => simp [matchesFrom] at h
  | succ limit ih =>
    rw [matchesFrom_succ, hbehind.offset_eq, hbehind.before_eq] at h
    split at h
    · simp at h
    · rename_i first hfirst
      rcases List.mem_cons.mp h with rfl | hlater
      · exact ⟨[], cursor.rest, rfl, by rwa [List.append_nil]⟩
      · obtain ⟨skipped, read, tail, hrest, hoccurs⟩ := occurs_of_findFrom hfirst
        cases hresume : resume? first with
        | none => simp [hresume] at hlater
        | some next =>
          obtain ⟨more, hmore, hnext, -⟩ := resume?_eq_some hoccurs hresume
          rw [hresume] at hlater
          obtain ⟨passed, rest, hpassed, hfound⟩ := ih hnext hlater
          refine ⟨skipped ++ more ++ passed, rest, ?_, by simpa using hfound⟩
          rw [hrest, List.append_assoc, hmore, hpassed]
          simp

/-- Every match from a place on is an occurrence behind it. -/
theorem occurs_of_mem_matchesFrom {pattern : Pattern} {limit : Nat} {cursor : Cursor}
    {head : List Char} (hbehind : cursor.Behind head) {found : Match}
    (h : found ∈ pattern.matchesFrom limit cursor) :
    ∃ skipped read tail, cursor.rest = skipped ++ read ++ tail ∧
      pattern.Occurs found (head ++ skipped) read tail := by
  obtain ⟨passed, rest, hrest, hfound⟩ := exists_findFrom_of_mem_matchesFrom hbehind h
  obtain ⟨skipped, read, tail, rfl, hoccurs⟩ := occurs_of_findFrom hfound
  exact ⟨passed ++ skipped, read, tail, by simp [hrest], by simpa using hoccurs⟩

/-- Every match in a text is an occurrence in it. -/
theorem occurs_of_mem_matchesIn {pattern : Pattern} {text : List Char} {found : Match}
    (h : found ∈ pattern.matchesIn text) :
    ∃ head read tail, text = head ++ read ++ tail ∧ pattern.Occurs found head read tail := by
  simpa [Cursor.ofText] using occurs_of_mem_matchesFrom (Cursor.behind_ofText text) h

/-- A text without the character that every match of a pattern ends with holds no match. -/
theorem matchesIn_eq_nil_of_notMem {pattern : Pattern} (mark : Char) {text : List Char}
    (hend : ∀ c, pattern.mayEnd c = true → c = mark) (hwidth : 0 < pattern.minWidth)
    (hmark : mark ∉ text) : pattern.matchesIn text = [] := by
  refine List.eq_nil_iff_forall_not_mem.mpr fun found hfound => ?_
  obtain ⟨head, read, tail, rfl, hoccurs⟩ := occurs_of_mem_matchesIn hfound
  have hread : read ≠ [] := by
    rintro rfl
    exact absurd hoccurs.spells.minWidth_le (Nat.not_le.mpr hwidth)
  obtain ⟨c, hc⟩ := Option.isSome_iff_exists.mp (List.getLast?_isSome.mpr hread)
  obtain rfl := hend c (hoccurs.spells.mayEnd_of_getLast? hc)
  exact hmark (by simp [List.mem_of_getLast? hc])

/-- More matches than the characters left are never found. -/
theorem matchesFrom_limit {pattern : Pattern} {limit other : Nat} {cursor : Cursor}
    {head : List Char} (hbehind : cursor.Behind head)
    (hlimit : cursor.rest.length < limit) (hother : cursor.rest.length < other) :
    pattern.matchesFrom limit cursor = pattern.matchesFrom other cursor := by
  induction limit generalizing other cursor head with
  | zero => omega
  | succ limit ih =>
    obtain ⟨other, rfl⟩ : ∃ n, other = n + 1 := ⟨other - 1, by omega⟩
    rw [matchesFrom_succ, matchesFrom_succ, hbehind.offset_eq, hbehind.before_eq]
    split
    · rfl
    · rename_i first hfirst
      obtain ⟨skipped, read, tail, hrest, hoccurs⟩ := occurs_of_findFrom hfirst
      cases hresume : resume? first with
      | none => rfl
      | some next =>
        obtain ⟨more, hmore, hnext, hne⟩ := resume?_eq_some hoccurs hresume
        have hshorter : next.rest.length < cursor.rest.length := by
          have hlength : (read ++ tail).length = (more ++ next.rest).length := by rw [hmore]
          have hpos := List.length_pos_iff.mpr hne
          rw [hrest]
          simp only [List.length_append] at hlength ⊢
          omega
        exact congrArg (List.cons first) (ih hnext (by omega) (by omega))

end Pattern

end CodeQuality
