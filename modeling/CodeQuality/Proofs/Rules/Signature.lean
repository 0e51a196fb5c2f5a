import CodeQuality.Proofs.Pattern.Spelling
import CodeQuality.Rules.Table

/-!
# Signature patterns

What the extraction takes for granted about the patterns of every language: a signature has a
character, it begins neither with a line feed nor with a double quote, and the name in it is not
empty. Where bodies go by indentation, the signature of a class does not end with a line feed.
-/

namespace CodeQuality

namespace Pattern

/-- Every name that the pattern records has a character. -/
def namesSomething (pattern : Pattern) : Bool :=
  pattern.groups.all fun part => part.1 != .name || 0 < part.2.minWidth

/-- The pattern can describe a signature. -/
def isSignature (pattern : Pattern) : Bool :=
  0 < pattern.minWidth && !pattern.mayBegin '\n' && !pattern.mayBegin '"' &&
    pattern.namesSomething

/-- A signature has a first character, which is neither a line feed nor a double quote. -/
theorem Spells.exists_cons {pattern : Pattern} (hsignature : pattern.isSignature = true)
    {read : List Char} (h : pattern.Spells read) :
    ∃ c rest, read = c :: rest ∧ c ≠ '\n' ∧ c ≠ '"' := by
  simp only [isSignature, Bool.and_eq_true, decide_eq_true_eq, Bool.not_eq_true'] at hsignature
  obtain ⟨⟨⟨hwidth, hfeed⟩, hquote⟩, -⟩ := hsignature
  have hlength := h.minWidth_le
  cases read with
  | nil =>
    simp only [List.length_nil] at hlength
    omega
  | cons c rest =>
    have hbegin := h.mayBegin_of_head? rfl
    refine ⟨c, rest, rfl, ?_, ?_⟩
    · rintro rfl
      simp [hbegin] at hfeed
    · rintro rfl
      simp [hbegin] at hquote

/-- The name in a signature has a character. -/
theorem minWidth_pos_of_mem_groups {pattern body : Pattern}
    (hsignature : pattern.isSignature = true) (h : (.name, body) ∈ pattern.groups) :
    0 < body.minWidth := by
  simp only [isSignature, Bool.and_eq_true] at hsignature
  have hname := List.all_eq_true.mp hsignature.2 _ h
  simpa using hname

end Pattern

namespace Rules

/-- All patterns that records are made from. -/
def signatures (rules : Rules) : List Pattern :=
  rules.functionPatterns ++ rules.classPatterns ++ rules.variablePatterns

/-- The patterns of every language describe signatures. -/
theorem isSignature_of_mem {language : Language} {rules : Rules} (h : of? language = some rules)
    {pattern : Pattern} (hpattern : pattern ∈ rules.signatures) : pattern.isSignature = true := by
  have hall : rules.signatures.all Pattern.isSignature = true := by
    cases language <;> simp only [of?, Option.some.injEq, reduceCtorEq] at h <;> subst h <;> decide
  exact List.all_eq_true.mp hall pattern hpattern

/-- Where bodies go by indentation, no class signature ends with a line feed. -/
theorem mayEnd_of_mem_classPatterns {language : Language} {rules : Rules}
    (h : of? language = some rules) (hbody : rules.body = .indentation) {pattern : Pattern}
    (hpattern : pattern ∈ rules.classPatterns) : pattern.mayEnd '\n' = false := by
  have hall : (rules.classPatterns.all fun pattern => !pattern.mayEnd '\n') = true := by
    cases language <;> simp only [of?, Option.some.injEq, reduceCtorEq] at h <;> subst h
    case python => decide
    all_goals cases hbody
  simpa using List.all_eq_true.mp hall pattern hpattern

end Rules

end CodeQuality
