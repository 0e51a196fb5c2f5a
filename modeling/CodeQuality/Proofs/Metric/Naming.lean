import CodeQuality.Metric.Assessment
import CodeQuality.Proofs.Extraction.Record
import CodeQuality.Proofs.Metric.Agreement
import CodeQuality.Proofs.Pattern.Preferred
import CodeQuality.Proofs.Text.Blank

/-!
# Naming verdicts on a name and its private twin

A file that assigns a number to a name has one variable and nothing else, so the verdict on the file
is the verdict on the name. The shape of a name is judged without its marks of privacy, but whether
it is a constant is decided with them. Main statement: an underscore in front of a name makes no
difference to the verdict exactly when the name has a lower case letter. A name in capitals is a
good constant, and with an underscore in front of it a bad variable.
-/

namespace CodeQuality

open Text Pattern

/-- One line that assigns a number to a name. -/
def assignment (name : List Char) : List Char :=
  name ++ [' ', '=', ' ', '1', '\n']

/-- Where the match of an assignment ends, with the name recorded. -/
def assignmentEnd (name : List Char) : Cursor :=
  (((Cursor.ofText (assignment name)).beyond name [' ', '=', ' ', '1', '\n']).record .name 0).beyond
    [' ', '=', ' '] ['1', '\n']

namespace Rules

/-- From its beginning, an assignment is matched up to the space behind the sign. -/
theorem preferred?_pythonVariable {c : Char} {rest : List Char} (hc : isNameStart c = true)
    (hrest : ∀ d ∈ rest, isWord d = true) :
    pythonVariable.preferred? (Cursor.ofText (assignment (c :: rest))) =
      some (assignmentEnd (c :: rest)) := by
  have hgap : isGap c = false := by
    have hnot : c ∉ [' ', '\t'] := notMem_of_kind hc (by decide)
    simpa [isGap] using hnot
  let start := Cursor.ofText (assignment (c :: rest))
  let named := (start.beyond (c :: rest) [' ', '=', ' ', '1', '\n']).record .name 0
  let spaced := named.beyond [' '] ['=', ' ', '1', '\n']
  have hindent : gap.preferred? start = some start :=
    preferred?_run (List.forall_mem_nil _) (by simpa [assignment] using hgap) rfl
  have hname : (group .name identifier).preferred? start = some named :=
    preferred?_group .name (preferred?_one_run hc hrest (by simp; decide) rfl)
  have hspace : gap.preferred? named = some spaced :=
    preferred?_run (List.forall_mem_singleton.mpr rfl) (by simp; decide) rfl
  have htype : (opt (inOrder [word ":", gap,
      group .declaredType (fewestOf (noneOf ['=', '\n']))])).preferred? spaced = some spaced :=
    preferred?_opt_of_ends_eq_nil rfl
  have hnone : gap.preferred? spaced = some spaced :=
    preferred?_run (List.forall_mem_nil _) (by simp; decide) rfl
  have hsign : (word "=").preferred? spaced = some (spaced.beyond ['='] [' ', '1', '\n']) :=
    preferred?_literal rfl
  have hvalue : (one (noneOf ['='])).preferred? (spaced.beyond ['='] [' ', '1', '\n']) =
      some (assignmentEnd (c :: rest)) :=
    preferred?_one rfl rfl
  exact preferred?_seq rfl (preferred?_seq hindent (preferred?_seq hname (preferred?_seq hspace
    (preferred?_seq htype (preferred?_seq hnone (preferred?_seq hsign hvalue))))))

/-- An assignment holds one match of a variable, and its name is recorded. -/
theorem matchesIn_pythonVariable {c : Char} {rest : List Char} (hc : isNameStart c = true)
    (hrest : ∀ d ∈ rest, isWord d = true) :
    pythonVariable.matchesIn (assignment (c :: rest)) = [⟨0, assignmentEnd (c :: rest)⟩] := by
  have hfirst := find?_of_preferred? (preferred?_pythonVariable hc hrest)
  have hbehind := (((Cursor.behind_ofText (assignment (c :: rest))).beyond (c :: rest)
    [' ', '=', ' ', '1', '\n']).record .name 0).beyond [' ', '=', ' '] ['1', '\n']
  have hothers (limit : Nat) :
      pythonVariable.matchesFrom limit (assignmentEnd (c :: rest)) = [] := by
    refine List.eq_nil_iff_forall_not_mem.mpr fun found hfound => ?_
    obtain ⟨skipped, read, tail, htext, hoccurs⟩ := occurs_of_mem_matchesFrom hbehind hfound
    have hwidth : 3 ≤ read.length := hoccurs.spells.minWidth_le
    have hlength := congrArg List.length htext
    simp only [Cursor.beyond, List.length_append, List.length_cons, List.length_nil] at hlength
    omega
  have hresume : resume? ⟨0, assignmentEnd (c :: rest)⟩ = some (assignmentEnd (c :: rest)) := by
    refine if_pos ?_
    rw [Match.stop, assignmentEnd, hbehind.offset_eq, byteLength_append]
    exact Nat.add_pos_right _ (by decide)
  rw [Pattern.find?] at hfirst
  rw [matchesIn, matchesFrom_succ]
  simp only [Cursor.ofText, hfirst, hresume, Option.elim_some, hothers]

end Rules

section Records

variable {c : Char} {rest : List Char}

/-- The match of an assignment is recorded with its name, which is a constant by its case. -/
theorem variableRecord?_assignmentEnd
    (hfree : isReserved (String.ofList (c :: rest)) = false) :
    ∃ record, (Source.ofText (assignment (c :: rest))).variableRecord? Rules.python
        ⟨0, assignmentEnd (c :: rest)⟩ = some (0, record) ∧
      record.name = String.ofList (c :: rest) ∧
      record.isConst = Source.isConstantByCase Rules.python (c :: rest) := by
  have hspan : Match.span? ⟨0, assignmentEnd (c :: rest)⟩ .name =
      some ⟨0, byteLength (c :: rest)⟩ := by
    simp [Match.span?, Cursor.span?, assignmentEnd, Cursor.beyond, Cursor.record, Cursor.ofText]
  have htext : (Source.ofText (assignment (c :: rest))).textOf ⟨0, byteLength (c :: rest)⟩ =
      c :: rest :=
    takeBytes_append (c :: rest) _
  have hother (label : Label) (hlabel : label ≠ .name) :
      Match.span? ⟨0, assignmentEnd (c :: rest)⟩ label = none := by
    simp [Match.span?, Cursor.span?, assignmentEnd, Cursor.beyond, Cursor.record, Cursor.ofText,
      hlabel.symm]
  rw [Source.variableRecord?, hspan]
  simp only [Source.capture?, htext, hother .declaredType (by decide),
    hother .constWord (by decide), hfree, Option.map_none, Option.isSome_none, Bool.false_or]
  exact ⟨_, rfl, rfl, rfl⟩

/-- Other characters than those of words and of the value do not stand in an assignment. -/
theorem notMem_assignment (hc : isNameStart c = true) (hrest : ∀ d ∈ rest, isWord d = true)
    {mark : Char} (hmark : isWord mark = false) (hvalue : mark ∉ [' ', '=', ' ', '1', '\n']) :
    mark ∉ assignment (c :: rest) := by
  have hword : isWord c = true := by
    simp only [isNameStart, Bool.or_eq_true] at hc
    rcases hc with hc | hc <;> simp [isWord, Char.isAlphanum, hc]
  intro hmem
  rcases List.mem_append.mp hmem with hname | hmem
  · rcases List.mem_cons.mp hname with rfl | hlater
    · simp [hword] at hmark
    · simp [hrest mark hlater] at hmark
  · exact hvalue hmem

/-- An assignment raises an issue when the convention does not accept its name. -/
theorem naming_assignment (hc : isNameStart c = true) (hrest : ∀ d ∈ rest, isWord d = true)
    (hfree : isReserved (String.ofList (c :: rest)) = false) (options : ExtractionOptions)
    (path : Path) {text : String} (htext : text.toList = assignment (c :: rest)) :
    (Metric.naming (extract options path text .python)).issues ≠ [] ↔
      Rules.python.naming.acceptsVariable (String.ofList (c :: rest))
        (Source.isConstantByCase Rules.python (c :: rest)) = false := by
  have hrules : Rules.of? .python = some Rules.python := rfl
  have hfunctions : (extract options path text .python).functions = [] := by
    have hsub := functions_extract_sublist hrules options path text
    rw [htext] at hsub
    have hnone : Rules.pythonFunction.matchesIn (assignment (c :: rest)) = [] :=
      matchesIn_eq_nil_of_notMem '('
        (by simp [Rules.pythonFunction, inOrder, mayEnd, word, minWidth]) (by decide)
        (notMem_assignment hc hrest (by decide) (by decide))
    exact List.sublist_nil.mp (hsub.trans (List.sublist_nil.mpr (Source.recordsOf_eq_nil hnone)))
  have hclasses : (extract options path text .python).classes = [] := by
    rw [classes_extract hrules, htext]
    have hnone : Rules.pythonClass.matchesIn (assignment (c :: rest)) = [] :=
      matchesIn_eq_nil_of_notMem ':'
        (by simp [Rules.pythonClass, inOrder, mayEnd, word, minWidth]) (by decide)
        (notMem_assignment hc hrest (by decide) (by decide))
    exact Source.recordsOf_eq_nil hnone
  obtain ⟨record, hrecord, hname, hconst⟩ := variableRecord?_assignmentEnd hfree
  have hvars : (extract options path text .python).vars = [record] := by
    rw [vars_extract hrules, htext]
    exact Source.recordsOf_eq_singleton (Rules.matchesIn_pythonVariable hc hrest) hrecord
  have hlanguage : Rules.of? (extract options path text .python).language = some Rules.python := rfl
  rw [Metric.naming, Assessment.byRules_eq hlanguage]
  simp [Metric.nameChecks, hfunctions, hclasses, hvars, hname, hconst]

end Records

namespace Casing

theorem isUpper_iff (c : Char) : c.isUpper = true ↔ 'A' ≤ c ∧ c ≤ 'Z' :=
  decide_eq_true_iff

theorem isLower_iff (c : Char) : c.isLower = true ↔ 'a' ≤ c ∧ c ≤ 'z' :=
  Bool.and_eq_true_iff.trans (and_congr decide_eq_true_iff decide_eq_true_iff)

theorem isDigit_iff (c : Char) : c.isDigit = true ↔ '0' ≤ c ∧ c ≤ '9' :=
  Bool.and_eq_true_iff.trans (and_congr decide_eq_true_iff decide_eq_true_iff)

theorem isAlpha_iff (c : Char) : c.isAlpha = true ↔ c.isUpper = true ∨ c.isLower = true :=
  Bool.or_eq_true_iff

theorem isLower_of_isUpper {c : Char} (h : c.isUpper = true) : c.isLower = false := by
  by_contra hlower
  rw [Bool.not_eq_false, isLower_iff] at hlower
  exact absurd (Char.le_trans hlower.1 ((isUpper_iff c).mp h).2) (by decide)

theorem isDigit_of_isAlpha {c : Char} (h : c.isAlpha = true) : c.isDigit = false := by
  by_contra hdigit
  rw [Bool.not_eq_false, isDigit_iff] at hdigit
  rcases (isAlpha_iff c).mp h with hupper | hlower
  · exact absurd (Char.le_trans ((isUpper_iff c).mp hupper).1 hdigit.2) (by decide)
  · exact absurd (Char.le_trans ((isLower_iff c).mp hlower).1 hdigit.2) (by decide)

/-- Where every letter is of one of two cases, a name has the shape of one of them exactly when no
letter in it is of the other. -/
theorem all_oneCase_iff {own other : Char → Bool}
    (hletter : ∀ c : Char, c.isAlpha = true ↔ own c = true ∨ other c = true)
    (hdisjoint : ∀ c : Char, own c = true → other c = false) {c : Char} {rest : List Char}
    (hc : c.isAlpha = true) (hchars : ∀ d ∈ c :: rest, d.isAlphanum = true ∨ d = '_') :
    (own c && rest.all fun d => own d || d.isDigit || d == '_') = true ↔
      ¬ ∃ d ∈ c :: rest, other d = true := by
  have hlater {d : Char} (hd : d.isAlphanum = true ∨ d = '_') :
      (own d || d.isDigit || d == '_') = true ↔ ¬ other d = true := by
    constructor
    · intro hkept hother
      have halpha := (hletter d).mpr (Or.inr hother)
      have hmark : d ≠ '_' := by
        rintro rfl
        exact absurd halpha (by decide)
      have hown : own d = true := by simpa [isDigit_of_isAlpha halpha, hmark] using hkept
      simp [hdisjoint d hown] at hother
    · intro hother
      rcases hd with hd | rfl
      · rw [Char.isAlphanum, Bool.or_eq_true, hletter, or_iff_left hother] at hd
        simpa [or_assoc] using Or.imp_right Or.inl hd
      · simp
  have hfirst : own c = true ↔ ¬ other c = true := by
    constructor
    · intro hown
      simp [hdisjoint c hown]
    · exact ((hletter c).mp hc).resolve_right
  obtain ⟨-, hrest⟩ := List.forall_mem_cons.mp hchars
  rw [Bool.and_eq_true, List.all_eq_true, hfirst, List.exists_mem_cons_iff, not_or]
  simp only [not_exists, not_and]
  exact and_congr_right fun _ => forall₂_congr fun d hd => hlater (hrest d hd)

end Casing

/-- No reserved word begins with an underscore. -/
theorem isReserved_mark (name : String) : isReserved ("_" ++ name) = false := by
  have hwords : (reservedWords.any fun word => word.toList.head? == some '_') = false := by decide
  rw [isReserved, ← Bool.not_eq_true, List.contains_iff_mem]
  intro hmem
  have := List.any_eq_false.mp hwords _ hmem
  simp at this

/-- A letter at its beginning is part of the shape of a name, with and without a mark before it. -/
theorem nameCore_cons {c : Char} (hc : c.isAlpha = true) (rest : List Char) :
    nameCore (c :: rest) = c :: rest ∧ nameCore ('_' :: c :: rest) = c :: rest := by
  have hmark : c ∉ ['_', '$'] := notMem_of_kind hc (by decide)
  simp only [List.mem_cons, List.not_mem_nil, or_false, not_or] at hmark
  simp [nameCore, hmark]

/-- By its shape a name is good for a variable, or in capitals for a constant. -/
theorem Rules.python_acceptsVariable {name : String} {core : List Char}
    (hcore : nameCore name.toList = core) (isConst : Bool) :
    python.naming.acceptsVariable name isConst =
      (Casing.snake.fits core || isConst && Casing.screamingSnake.fits core) := by
  have hvariable : python.naming.variableCasings = [.snake] := rfl
  have hconstant : python.naming.constantCasings = [.screamingSnake] := rfl
  simp [NamingRules.acceptsVariable, NamingRules.accepts, hvariable, hconstant, hcore]

/-- A name of ASCII letters, digits and underscores that begins with a letter and is not
reserved. -/
structure IsPlainName (name : String) : Prop where
  begins : ∃ c rest, name.toList = c :: rest ∧ c.isAlpha = true
  chars : ∀ c ∈ name.toList, c.isAlphanum = true ∨ c = '_'
  free : isReserved name = false

namespace IsPlainName

variable {name : String}

/-- The name is in lower case when it has no capital. -/
theorem fits_snake_iff (h : IsPlainName name) :
    Casing.snake.fits name.toList = true ↔ ¬ ∃ c ∈ name.toList, c.isUpper = true := by
  obtain ⟨c, rest, hname, hc⟩ := h.begins
  have hchars := h.chars
  have hdisjoint (c : Char) (hlower : c.isLower = true) : c.isUpper = false := by
    by_contra hupper
    simp [Casing.isLower_of_isUpper (by simpa using hupper)] at hlower
  rw [hname] at hchars ⊢
  exact Casing.all_oneCase_iff (fun c => (Casing.isAlpha_iff c).trans or_comm) hdisjoint hc hchars

/-- The name is in capitals when it has no lower case letter. -/
theorem fits_screamingSnake_iff (h : IsPlainName name) :
    Casing.screamingSnake.fits name.toList = true ↔ ¬ ∃ c ∈ name.toList, c.isLower = true := by
  obtain ⟨c, rest, hname, hc⟩ := h.begins
  have hchars := h.chars
  rw [hname] at hchars ⊢
  exact Casing.all_oneCase_iff Casing.isAlpha_iff (fun _ => Casing.isLower_of_isUpper) hc hchars

theorem isWord (h : IsPlainName name) : ∀ c ∈ name.toList, Text.isWord c = true := by
  intro c hc
  rcases h.chars c hc with halphanum | rfl
  · simp [Text.isWord, halphanum]
  · decide

end IsPlainName

/-- The naming metric raises an issue for the text of a Python file. -/
def RaisesNamingIssue (options : ExtractionOptions) (path : Path) (text : String) : Prop :=
  (Metric.naming (extract options path text .python)).issues ≠ []

/-- A name is an issue when it mixes the cases. -/
theorem raisesNamingIssue_iff {name : String} (h : IsPlainName name) (options : ExtractionOptions)
    (path : Path) :
    RaisesNamingIssue options path (name ++ " = 1\n") ↔
      (∃ c ∈ name.toList, c.isUpper = true) ∧ ∃ c ∈ name.toList, c.isLower = true := by
  obtain ⟨c, rest, hname, hc⟩ := h.begins
  have hofList : String.ofList (c :: rest) = name := by rw [← hname, String.ofList_toList]
  have hstart : isNameStart c = true := by rw [isNameStart, hc, Bool.true_or]
  have hwords : ∀ d ∈ rest, isWord d = true := fun d hd => h.isWord d (by simp [hname, hd])
  have htext : (name ++ " = 1\n").toList = assignment (c :: rest) := by simp [assignment, hname]
  have hcore : nameCore name.toList = name.toList := by
    rw [hname, (nameCore_cons hc rest).1]
  -- A name in capitals is a constant, for it has a letter.
  have hconst : Source.isConstantByCase Rules.python name.toList =
      Casing.screamingSnake.fits name.toList := by
    simp [Source.isConstantByCase, Rules.python, hname, hc]
  rw [RaisesNamingIssue, naming_assignment hstart hwords (hofList ▸ h.free) options path htext,
    hofList, ← hname, Rules.python_acceptsVariable hcore, hconst, Bool.and_self,
    Bool.or_eq_false_iff, ← Bool.not_eq_true, ← Bool.not_eq_true, h.fits_snake_iff,
    h.fits_screamingSnake_iff, not_not, not_not]

/-- With an underscore in front of it, a name is an issue when it has a capital. -/
theorem raisesNamingIssue_mark_iff {name : String} (h : IsPlainName name)
    (options : ExtractionOptions) (path : Path) :
    RaisesNamingIssue options path ("_" ++ name ++ " = 1\n") ↔
      ∃ c ∈ name.toList, c.isUpper = true := by
  obtain ⟨c, rest, hname, hc⟩ := h.begins
  have hofList : String.ofList ('_' :: name.toList) = "_" ++ name := by
    rw [← String.toList_inj]
    simp
  have hstart : isNameStart '_' = true := rfl
  have hfree : isReserved (String.ofList ('_' :: name.toList)) = false :=
    hofList ▸ isReserved_mark name
  have htext : ("_" ++ name ++ " = 1\n").toList = assignment ('_' :: name.toList) := by
    simp [assignment]
  have hcore : nameCore ("_" ++ name).toList = name.toList := by
    simp [hname, (nameCore_cons hc rest).2]
  -- The mark is no capital, so the name is no constant.
  have hconst : Source.isConstantByCase Rules.python ('_' :: name.toList) = false := by
    simp [Source.isConstantByCase, Casing.fits, Casing.first]
  rw [RaisesNamingIssue, naming_assignment hstart h.isWord hfree options path htext, hofList,
    Rules.python_acceptsVariable hcore, hconst, Bool.false_and, Bool.or_false,
    ← Bool.not_eq_true, h.fits_snake_iff, not_not]

/-- An underscore in front of a name makes no difference to the verdict exactly when the name has a
lower case letter: without it mixed cases are an issue, and with it any capital is. -/
theorem naming_privacy_mark (options : ExtractionOptions) (path : Path) {name : String}
    (h : IsPlainName name) :
    (RaisesNamingIssue options path (name ++ " = 1\n") ↔
      (∃ c ∈ name.toList, c.isUpper = true) ∧ ∃ c ∈ name.toList, c.isLower = true) ∧
    (RaisesNamingIssue options path ("_" ++ name ++ " = 1\n") ↔
      ∃ c ∈ name.toList, c.isUpper = true) ∧
    ((RaisesNamingIssue options path (name ++ " = 1\n") ↔
        RaisesNamingIssue options path ("_" ++ name ++ " = 1\n")) ↔
      ∃ c ∈ name.toList, c.isLower = true) := by
  have hplain := raisesNamingIssue_iff h options path
  have hmark := raisesNamingIssue_mark_iff h options path
  refine ⟨hplain, hmark, ?_⟩
  rw [hplain, hmark]
  -- The first character is a letter, so one of the two cases occurs.
  obtain ⟨c, rest, hname, hc⟩ := h.begins
  have hmem : c ∈ name.toList := by simp [hname]
  rcases (Casing.isAlpha_iff c).mp hc with hupper | hlower
  · have hcapital : ∃ c ∈ name.toList, c.isUpper = true := ⟨c, hmem, hupper⟩
    rw [and_iff_right hcapital]
    exact ⟨fun hagree => hagree.mpr hcapital, fun hlower => iff_of_true hlower hcapital⟩
  · have hsmall : ∃ c ∈ name.toList, c.isLower = true := ⟨c, hmem, hlower⟩
    exact iff_of_true (and_iff_left hsmall) hsmall

/-- A name with both cases, a digit and an underscore is an issue with and without the mark. -/
theorem naming_privacy_mark_mixed :
    RaisesNamingIssue {} "a.py" ("maxSize_2" ++ " = 1\n") ∧
      RaisesNamingIssue {} "a.py" ("_" ++ "maxSize_2" ++ " = 1\n") := by
  have hname : IsPlainName "maxSize_2" := ⟨⟨'m', _, rfl, rfl⟩, by simp, rfl⟩
  have hverdict := naming_privacy_mark {} "a.py" hname
  exact ⟨hverdict.1.mpr (by simp), hverdict.2.1.mpr (by simp)⟩

/-- A name in capitals is no issue, but it is one with an underscore in front of it. -/
theorem naming_capitals_not_private :
    ¬ RaisesNamingIssue {} "a.py" ("MAX" ++ " = 1\n") ∧
      RaisesNamingIssue {} "a.py" ("_" ++ "MAX" ++ " = 1\n") := by
  have hname : IsPlainName "MAX" := ⟨⟨'M', _, rfl, rfl⟩, by simp, rfl⟩
  exact ⟨mt (raisesNamingIssue_iff hname {} "a.py").mp (by simp),
    (raisesNamingIssue_mark_iff hname {} "a.py").mpr (by simp)⟩

end CodeQuality
