import CodeQuality.Proofs.Signature.Declaration
import CodeQuality.Rules.Table

/-!
# Strings as default values

A string that is the default value of a parameter is read like any other text: its commas and
brackets count as if they stood outside of it. Main statement: behind a string that is closed the
next parameter is found, behind one that leaves a bracket open it is lost, and a comma of the string
ends the declaration, so that the rest of the string is read as further declarations.
-/

namespace CodeQuality.Signature

open Text

/-- The mark around a string. -/
def quote : Char := '\x22'

/-- A parameter with a string as its default value, up to some place in the string or behind it. -/
def stringDefault (name : String) (text : List Char) : List Char :=
  name.toList ++ '=' :: quote :: text

/-- The end of a string and another parameter. -/
def afterString (name : String) : List Char :=
  quote :: ',' :: ' ' :: name.toList

theorem stringDefault_append (name : String) (head tail : List Char) :
    stringDefault name (head ++ tail) = stringDefault name head ++ tail := by
  simp [stringDefault]

namespace IsParameterName

variable {rules : Rules} {name : String}

/-- The name of the parameter is found, whatever the string holds. -/
theorem parameterName?_stringDefault (h : IsParameterName rules name)
    (horder : rules.parameterOrder = .nameFirst) (text : List Char) :
    parameterName? rules.parameterOrder (stringDefault name text) = some name := by
  have hbegins : beginsDefault name.toList.reverse (quote :: text) = true := by
    obtain ⟨before, c, hlast, hc⟩ := h.identifier.exists_append
    have hsign : c ∉ ['=', '!', '<', '>'] := notMem_of_kind hc (by decide)
    simp only [List.mem_cons, List.not_mem_nil, or_false, not_or] at hsign
    simp [beginsDefault, hlast, quote, hsign]
  have hstrip : stripDefault (stringDefault name text) = trim (name.toList ++ []) := by
    rw [List.append_nil]
    exact stripDefault_append (h.identifier.notMem (by decide)) (h.identifier.notMem (by decide))
      (isClosed_of_plain h.identifier.plain).settled hbegins
  rw [horder]
  exact parameterName?_nameFirst hstrip h.identifier (h.unmodified horder) (by simp)

/-- A parameter without a default value is found behind a space. -/
theorem parameters_space (h : IsParameterName rules name)
    (horder : rules.parameterOrder = .nameFirst) :
    parameters rules.parameterOrder rules.implicitParameters (' ' :: name.toList) = [name] := by
  have hstrip : stripDefault name.toList = trim (name.toList ++ []) := by
    rw [stripDefault, beforeDefault_of_notMem (h.identifier.notMem (by decide)), List.append_nil]
    rfl
  have hname : parameterName? rules.parameterOrder (' ' :: name.toList) = some name := by
    rw [parameterName?_space, horder]
    exact parameterName?_nameFirst hstrip h.identifier (h.unmodified horder) (by simp)
  have hpasses : BracketCount.Passes {} (' ' :: name.toList) := by
    rw [BracketCount.passes_cons]
    exact ⟨by simp, (BracketCount.passes_of_plain _ h.identifier.plain).1⟩
  exact parameters_of_passes hpasses hname h.explicit

/-- What stands before a string changes nothing in how the string is read. -/
theorem read_stringDefault (h : IsParameterName rules name) (text : List Char) :
    (BracketCount.Passes {} (stringDefault name text) ↔ BracketCount.Passes {} text) ∧
      bracketDepth (stringDefault name text) = bracketDepth text := by
  have hbefore : IsClosed (name.toList ++ ['=', quote]) :=
    (isClosed_of_plain h.identifier.plain).append (isClosed_of_plain (by simp [quote]))
      (by simp [BracketCount.Joins])
  have hjoins : (BracketCount.read {} (name.toList ++ ['=', quote])).Joins text := by
    simp [BracketCount.Joins, BracketCount.next, BracketCount.read, quote]
  have hsplit : stringDefault name text = name.toList ++ ['=', quote] ++ text := by
    simp [stringDefault]
  rw [hsplit]
  exact hbefore.read_append hjoins

/-- A comma behind closed text ends the declaration, even if it stands in the string. -/
theorem parameters_stringDefault_comma (h : IsParameterName rules name)
    (horder : rules.parameterOrder = .nameFirst) {text : List Char} (hclosed : IsClosed text)
    (rest : List Char) :
    parameters rules.parameterOrder rules.implicitParameters
        (stringDefault name (text ++ ',' :: rest)) =
      name :: parameters rules.parameterOrder rules.implicitParameters rest := by
  obtain ⟨hpasses, hdepth⟩ := h.read_stringDefault text
  have hdeclared : IsClosed (stringDefault name text) := by
    rwa [isClosed_iff, hpasses, hdepth, ← isClosed_iff]
  rw [stringDefault_append, parameters_append_comma hdeclared
    (h.parameterName?_stringDefault horder text) h.explicit]

/-- Behind a closed string the next parameter is found. -/
theorem parameters_stringDefault_closed (h : IsParameterName rules name)
    (horder : rules.parameterOrder = .nameFirst) {text : List Char} (hclosed : IsClosed text)
    {second : String} (hsecond : IsParameterName rules second) :
    parameters rules.parameterOrder rules.implicitParameters
        (stringDefault name (text ++ afterString second)) = [name, second] := by
  have hquote : IsClosed (text ++ [quote]) :=
    hclosed.append (isClosed_of_plain (by simp [quote])) (by simp [BracketCount.Joins, quote])
  rw [afterString, List.append_cons, h.parameters_stringDefault_comma horder hquote,
    hsecond.parameters_space horder]

/-- An open bracket in the string takes in what stands behind the string. -/
theorem parameters_stringDefault_open (h : IsParameterName rules name)
    (horder : rules.parameterOrder = .nameFirst) {text : List Char}
    (hunsplit : ∀ i < text.length, ¬ IsSeparator text i) (hopen : bracketDepth text ≠ 0)
    {second : String} (hsecond : IsIdentifier second.toList) :
    parameters rules.parameterOrder rules.implicitParameters
        (stringDefault name (text ++ afterString second)) = [name] := by
  obtain ⟨htext, -⟩ := h.read_stringDefault (text ++ afterString second)
  have hafter : (BracketCount.read {} text).Passes (afterString second) := by
    have hdepth : (BracketCount.read {} text).depth ≠ 0 := hopen
    simp only [afterString, BracketCount.passes_cons]
    refine ⟨by simp [quote], ?_, by simp, (BracketCount.passes_of_plain _ hsecond.plain).1⟩
    simpa [BracketCount.next, quote] using hdepth
  have hpasses : BracketCount.Passes {} (stringDefault name (text ++ afterString second)) := by
    rw [htext, BracketCount.passes_append]
    exact ⟨passes_iff.mpr hunsplit, hafter⟩
  exact parameters_of_passes hpasses (h.parameterName?_stringDefault horder _) h.explicit

end IsParameterName

/-- A string as default value is read like any other text, where names come first. Of two
parameters, the first with a string as its default value, exactly the two are found if the string is
closed, or if what stands in it behind its first comma outside of brackets happens to declare
nothing else. With a bracket left open, the second parameter is lost. With a comma outside of
brackets, the rest of the string is read as declarations. -/
theorem parameters_stringDefault (rules : Rules) (horder : rules.parameterOrder = .nameFirst)
    (first second : String) (hfirst : IsParameterName rules first)
    (hsecond : IsParameterName rules second) (literal : List Char) :
    (parameters rules.parameterOrder rules.implicitParameters
          (stringDefault first (literal ++ afterString second)) = [first, second] ↔
      IsClosed literal ∨ ∃ head tail, literal = head ++ ',' :: tail ∧ IsClosed head ∧
        parameters rules.parameterOrder rules.implicitParameters (tail ++ afterString second) =
          [second]) ∧
    ((∀ i < literal.length, ¬ IsSeparator literal i) → bracketDepth literal ≠ 0 →
      parameters rules.parameterOrder rules.implicitParameters
          (stringDefault first (literal ++ afterString second)) = [first]) ∧
    ∀ head tail, literal = head ++ ',' :: tail → IsClosed head →
      parameters rules.parameterOrder rules.implicitParameters
          (stringDefault first (literal ++ afterString second)) =
        first :: parameters rules.parameterOrder rules.implicitParameters
          (tail ++ afterString second) := by
  have hopen (hunsplit : ∀ i < literal.length, ¬ IsSeparator literal i)
      (hdepth : bracketDepth literal ≠ 0) :=
    hfirst.parameters_stringDefault_open horder hunsplit hdepth hsecond.identifier
  have hcut (head tail : List Char) (hliteral : literal = head ++ ',' :: tail)
      (h : IsClosed head) :
      parameters rules.parameterOrder rules.implicitParameters
          (stringDefault first (literal ++ afterString second)) =
        first :: parameters rules.parameterOrder rules.implicitParameters
          (tail ++ afterString second) := by
    rw [hliteral, List.append_assoc, List.cons_append,
      hfirst.parameters_stringDefault_comma horder h]
  refine ⟨⟨fun hboth => ?_, ?_⟩, hopen, hcut⟩
  · -- A string that is neither closed nor cut by a comma leaves a bracket open.
    rcases BracketCount.passes_or_exists_comma {} literal with
      hpasses | ⟨head, tail, hliteral, hpasses, hdepth⟩
    · left
      by_contra hnot
      have hdepth : bracketDepth literal ≠ 0 := fun h => hnot (isClosed_iff.mpr ⟨hpasses, h⟩)
      simp [hopen (passes_iff.mp hpasses) hdepth] at hboth
    · right
      have hhead : IsClosed head := isClosed_iff.mpr ⟨hpasses, hdepth⟩
      refine ⟨head, tail, hliteral, hhead, ?_⟩
      rw [hcut head tail hliteral hhead] at hboth
      exact (List.cons.inj hboth).2
  · rintro (h | ⟨head, tail, hliteral, hhead, hrest⟩)
    · exact hfirst.parameters_stringDefault_closed horder h hsecond
    · rw [hcut head tail hliteral hhead, hrest]

/-- A closed string, one that leaves a bracket open and one with a comma. -/
theorem parameters_stringDefault_python :
    parameters .nameFirst ["self", "cls"] "name=\"a (b, c) -> d\", sep".toList = ["name", "sep"] ∧
      parameters .nameFirst ["self", "cls"] "name=\"(\", sep".toList = ["name"] ∧
      parameters .nameFirst ["self", "cls"] "name=\"a, b\", sep".toList =
        "name" :: parameters .nameFirst ["self", "cls"] " b\", sep".toList :=
  have holds := parameters_stringDefault Rules.python rfl "name" "sep" (by decide) (by decide)
  ⟨(holds "a (b, c) -> d".toList).1.mpr (.inl (by decide)),
    (holds "(".toList).2.1 (by decide) (by decide),
    (holds "a, b".toList).2.2 "a".toList " b".toList (by decide) (by decide)⟩

/-- What a string holds never changes the parameters, if there are no quotes, backslashes and line
feeds in it. -/
def StringsAreOpaque (rules : Rules) : Prop :=
  ∀ first second : String, IsParameterName rules first → IsParameterName rules second →
    ∀ literal : List Char, (∀ c ∈ literal, c ∉ [quote, '\x27', '\\', '\n']) →
      parameters rules.parameterOrder rules.implicitParameters
        (stringDefault first (literal ++ afterString second)) = [first, second]

/-- Strings are not opaque if behind the comma of a string a parameter is found. -/
theorem not_stringsAreOpaque {rules : Rules} (hfirst : IsParameterName rules "a")
    (hsecond : IsParameterName rules "d")
    (h : parameters rules.parameterOrder rules.implicitParameters
      (stringDefault "a" ("b,c".toList ++ afterString "d")) = ["a", "c", "d"]) :
    ¬ StringsAreOpaque rules := by
  intro hopaque
  have hboth := hopaque "a" "d" hfirst hsecond "b,c".toList (by simp [quote])
  exact absurd (h.symm.trans hboth) (by decide)

/-- Strings are not opaque in Python, JavaScript and TypeScript. -/
theorem stringDefault_not_opaque :
    ¬ StringsAreOpaque Rules.python ∧ ¬ StringsAreOpaque (Rules.script true) ∧
      ¬ StringsAreOpaque (Rules.script false) :=
  ⟨not_stringsAreOpaque (by decide) (by decide) (by decide),
    not_stringsAreOpaque (by decide) (by decide) (by decide),
    not_stringsAreOpaque (by decide) (by decide) (by decide)⟩

end CodeQuality.Signature
