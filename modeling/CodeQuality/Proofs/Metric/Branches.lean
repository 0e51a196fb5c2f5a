import CodeQuality.Metric.Assessment
import CodeQuality.Proofs.Pattern.Apart
import CodeQuality.Proofs.Text.Blank
import CodeQuality.Rules.Table

/-!
# Branches counted twice

The complexity of a function counts the matches of each decision pattern on its own. Main
statement: every `else if` holds an `if` that is counted too, and different ones for different
matches, so that each adds two paths.

The two patterns end alike, and no `if` can begin inside of another one. So none is passed over
because a match before it has taken its first character.
-/

namespace CodeQuality

open Text

namespace Pattern

/-- What white space spells is a character or more, all of them blank. -/
theorem blank_of_spells_someSpace {read : List Char} (h : someSpace.Spells read) :
    read ≠ [] ∧ ∀ c ∈ read, isBlank c = true := by
  cases h with
  | seq hfirst hmore =>
    cases hfirst with
    | one hc =>
      cases hmore with
      | run hblank => exact ⟨List.cons_ne_nil _ _, List.forall_mem_cons.mpr ⟨hc, hblank⟩⟩

/-- Between white space and a character of a word is an edge of the word. -/
theorem atWordEdge_between {head blanks rest : List Char} {c : Char} (hc : isWord c = true)
    (hne : blanks ≠ []) (hblanks : ∀ d ∈ blanks, isBlank d = true) :
    (Cursor.between (head ++ blanks) (c :: rest)).atWordEdge = true := by
  have hlast : (head ++ blanks).getLast? = some (blanks.getLast hne) := by
    rw [List.getLast?_append, List.getLast?_eq_some_getLast hne]
    rfl
  have hblank := isWord_of_isBlank (hblanks _ (List.getLast_mem hne))
  simp [Cursor.atWordEdge, Cursor.between, hlast, hblank, hc]

end Pattern

namespace Rules

open Pattern

/-- An `if` and what opens its condition. -/
def ifWith (opening : Pattern) : Pattern :=
  inOrder [wordEdge, word "if", opening]

/-- An `else`, the `if` behind it and what opens its condition. -/
def elseIfWith (opening : Pattern) : Pattern :=
  inOrder [wordEdge, word "else", someSpace, word "if", opening]

/-- What opens a condition, in the languages that have a pattern of their own for `else if`. -/
def conditionOpening? : Language → Option Pattern
  | .csharp | .java | .c | .cpp | .javascript | .typescript => some (seq space (word "("))
  | .go => some someSpace
  | .python | .unsupported => none

/-- In these languages an `if` and an `else if` are the first two decision points. -/
theorem exists_complexityPatterns {language : Language} {rules : Rules}
    (hrules : of? language = some rules) {opening : Pattern}
    (hopening : conditionOpening? language = some opening) :
    ∃ others, rules.complexityPatterns = ifWith opening :: elseIfWith opening :: others := by
  cases language <;> cases hrules <;> cases hopening <;> exact ⟨_, rfl⟩

/-- What opens a condition holds no letter that begins an `if`. -/
theorem notMem_of_conditionOpening? {language : Language} {opening : Pattern}
    (h : conditionOpening? language = some opening) {read : List Char}
    (hread : opening.Spells read) : 'i' ∉ read := by
  have hletter : isBlank 'i' = false := by decide
  have hblanks {blanks : List Char} (hblanks : ∀ c ∈ blanks, isBlank c = true) :
      'i' ∉ blanks := by
    intro hmem
    rw [hblanks 'i' hmem] at hletter
    cases hletter
  have hparen (hread : (seq space (word "(")).Spells read) : 'i' ∉ read := by
    cases hread with
    | seq hspace hmark =>
      cases hspace with
      | run hspace =>
        cases hmark
        exact fun hmem => (List.mem_append.mp hmem).elim (hblanks hspace) (by decide)
  cases language <;> cases h
  case go => exact hblanks (blank_of_spells_someSpace hread).2
  all_goals exact hparen hread

section Branches

variable {opening : Pattern} (hopening : ∀ read, opening.Spells read → 'i' ∉ read)

theorem minWidth_ifWith_pos (opening : Pattern) : 0 < (ifWith opening).minWidth := by
  have hwidth : (ifWith opening).minWidth = 0 + (2 + opening.minWidth) := rfl
  omega

include hopening in
/-- No `if` begins inside of another one. -/
theorem keepsApart_ifWith : (ifWith opening).KeepsApart where
  width_pos := minWidth_ifWith_pos opening
  mayBegin_tail := by
    intro read hread c hc
    cases hread with
    | seq hedge hrest =>
      cases hedge
      cases hrest with
      | @seq _ _ _ behind hword hbehind =>
        cases hword
        have hne : c ≠ 'i' := by
          rintro rfl
          have hmem : 'i' ∈ 'f' :: behind := hc
          rcases List.mem_cons.mp hmem with hf | hmem
          · exact absurd hf (by decide)
          · exact hopening behind hbehind hmem
        simp [ifWith, inOrder, mayBegin, minWidth, Pattern.word, Ne.symm hne]

include hopening in
/-- Every match of an `else if` ends with a match of an `if`, which is found too. -/
theorem exists_if_within_elseIf {text : List Char} {whole : Match}
    (h : whole ∈ (elseIfWith opening).matchesIn text) :
    ∃ part ∈ (ifWith opening).matchesIn text, Within part whole := by
  obtain ⟨head, rest, rfl, hstart, hwhole⟩ := preferred?_of_mem_matchesIn h
  obtain ⟨_, rest, rfl, hedge, helse⟩ := exists_between_of_preferred?_seq rfl hwhole
  cases hedge
  obtain ⟨_, rest, rfl, hword, hspace⟩ := exists_between_of_preferred?_seq rfl helse
  cases hword
  obtain ⟨blanks, rest, rfl, hblanks, hif⟩ := exists_between_of_preferred?_seq rfl hspace
  obtain ⟨hne, hblanks⟩ := blank_of_spells_someSpace hblanks
  obtain ⟨_, tail, hrest, hword, -⟩ := exists_between_of_preferred?_seq rfl hif
  cases hword
  let front := head ++ [] ++ "else".toList ++ blanks
  -- The `if` stands behind white space, and so at an edge of a word, as its own pattern asks.
  have hedge : (Cursor.between front rest).atWordEdge = true := by
    rw [hrest]
    exact atWordEdge_between rfl hne hblanks
  have hpart : (ifWith opening).preferred? (.between front rest) = some whole.finish :=
    preferred?_seq (preferred?_wordEdge hedge) hif
  refine ⟨⟨byteLength front, whole.finish⟩, ?_, ?_, Nat.le_refl _⟩
  · have hmem := (keepsApart_ifWith hopening).mem_matchesIn hpart
    simpa only [front, List.append_assoc] using hmem
  · rw [hstart]
    simp only [front, List.append_assoc, byteLength_append head]
    exact Nat.le_add_right _ _

end Branches

/-- In the languages with a pattern of its own for `else if`, every match of it holds a match of
`if`, a different one each time. So there are at least as many of these, and every `else if` of a
body adds two to its complexity. -/
theorem elseIf_adds_two_paths {language : Language} {rules : Rules}
    (hrules : of? language = some rules) {opening : Pattern}
    (hopening : conditionOpening? language = some opening) (body : String) :
    let ifs := (ifWith opening).matchesIn body.toList
    let elseIfs := (elseIfWith opening).matchesIn body.toList
    (∃ others, rules.complexityPatterns = ifWith opening :: elseIfWith opening :: others) ∧
      (∃ parts, parts.Sublist ifs ∧
        List.Forall₂ (fun whole part => Within part whole) elseIfs parts) ∧
      elseIfs.length ≤ ifs.length ∧
      1 + 2 * elseIfs.length ≤ functionComplexity rules body := by
  intro ifs elseIfs
  have hnotMem : ∀ read, opening.Spells read → 'i' ∉ read :=
    fun _ => notMem_of_conditionOpening? hopening
  obtain ⟨others, hpatterns⟩ := exists_complexityPatterns hrules hopening
  obtain ⟨parts, hsublist, hwithin⟩ := exists_sublist_within (minWidth_ifWith_pos opening)
    fun whole (hwhole : whole ∈ elseIfs) => exists_if_within_elseIf hnotMem hwhole
  have hcount : elseIfs.length ≤ ifs.length :=
    calc elseIfs.length = parts.length := hwithin.length_eq
      _ ≤ ifs.length := hsublist.length_le
  refine ⟨⟨others, hpatterns⟩, ⟨parts, hsublist, hwithin⟩, hcount, ?_⟩
  have hcomplexity : functionComplexity rules body = 1 + (ifs.length + (elseIfs.length +
      sumOf (fun pattern => pattern.countIn body.toList) others)) := by
    rw [functionComplexity, hpatterns, sumOf_cons, sumOf_cons]
    rfl
  omega

/-- A chain of two `else if`, the second one over two lines and with its parenthesis close to the
word. -/
theorem elseIf_adds_two_paths_chain :
    let body := "if (a) return 1; else if (b) return 2; else\n if(c) return 3; else return 4;"
    let opening := seq space (word "(")
    of? .java = some java ∧ conditionOpening? .java = some opening ∧
      ((ifWith opening).matchesIn body.toList).length = 3 ∧
      ((elseIfWith opening).matchesIn body.toList).length = 2 ∧
      1 + 2 * ((elseIfWith opening).matchesIn body.toList).length ≤
        functionComplexity java body := by
  intro body opening
  have hrules : of? .java = some java := rfl
  have hopening : conditionOpening? .java = some opening := rfl
  exact ⟨hrules, hopening, by decide +kernel, by decide +kernel,
    (elseIf_adds_two_paths hrules hopening body).2.2.2⟩

end Rules

end CodeQuality
