import CodeQuality.Proofs.Extraction.Record

/-!
# Languages that agree

The record of a declaration is read with some of its language's rules and not with others. Where
two languages agree on the rules that are read, they find the same functions and the same classes
in every text. Their variables can differ in one way: a declaration without a type leaves the type
unknown in one language and inferred in the other.
-/

namespace CodeQuality

/-- The rules agree on all that functions are found and recorded with. -/
structure Rules.AgreeOnFunctions (rules other : Rules) : Prop where
  comments : rules.comments = other.comments
  body : rules.body = other.body
  access : rules.access = other.access
  returns : rules.returns = other.returns
  parameterOrder : rules.parameterOrder = other.parameterOrder
  implicitParameters : rules.implicitParameters = other.implicitParameters
  functionPatterns : rules.functionPatterns = other.functionPatterns

/-- The rules agree on all that classes are found and recorded with. -/
structure Rules.AgreeOnClasses (rules other : Rules) : Prop where
  comments : rules.comments = other.comments
  body : rules.body = other.body
  access : rules.access = other.access
  heritage : rules.heritage = other.heritage
  classPatterns : rules.classPatterns = other.classPatterns

/-- The rules agree on all that variables are found and recorded with but their types. -/
structure Rules.AgreeOnVariables (rules other : Rules) : Prop where
  access : rules.access = other.access
  constantByCase : rules.constantByCase = other.constantByCase
  variablePatterns : rules.variablePatterns = other.variablePatterns

/-- The annotation in a language that infers every type that is not declared. -/
def TypeAnnotation.settled : TypeAnnotation → TypeAnnotation
  | .unknown => .inferred
  | type => type

/-- The variable as a language records it that infers every type that is not declared. -/
def VariableRecord.settled (record : VariableRecord) : VariableRecord :=
  { record with type := record.type.settled }

namespace Signature

/-- Languages differ only in the types that a declaration leaves open. -/
theorem variableType_settled (captured : Option (List Char)) :
    variableType captured false = (variableType captured true).settled := by
  rw [variableType, variableType]
  split
  · dsimp only
    split <;> rfl
  · rfl

end Signature

namespace Source

variable (source : Source) {rules other : Rules}

/-- A body is found by the comments and the body style of its language. -/
theorem bodyAt_congr (hbody : rules.body = other.body) (hcomments : rules.comments = other.comments)
    (start : Nat) (headerEnd : Option Nat) :
    source.bodyAt rules start headerEnd = source.bodyAt other start headerEnd := by
  simp only [bodyAt, hbody, hcomments]

/-- Access is found by the access convention of its language. -/
theorem accessOf_congr (haccess : rules.access = other.access) (found : Match) (name : String) :
    source.accessOf rules found name = source.accessOf other found name := by
  rw [accessOf, accessOf, haccess]

/-- Languages that agree on functions record them alike. -/
theorem functionRecord?_congr (h : rules.AgreeOnFunctions other) :
    source.functionRecord? rules = source.functionRecord? other := by
  funext found
  simp only [functionRecord?, source.bodyAt_congr h.body h.comments, source.accessOf_congr h.access,
    h.comments, h.returns, h.parameterOrder, h.implicitParameters]

/-- Languages that agree on classes record them alike. -/
theorem classRecord?_congr (h : rules.AgreeOnClasses other) :
    source.classRecord? rules = source.classRecord? other := by
  funext found
  simp only [classRecord?, source.bodyAt_congr h.body h.comments, source.accessOf_congr h.access,
    h.heritage]

/-- Languages that agree on variables and on types left open record them alike. -/
theorem variableRecord?_congr (h : rules.AgreeOnVariables other)
    (htyping : rules.dynamicTyping = other.dynamicTyping) :
    source.variableRecord? rules = source.variableRecord? other := by
  funext found
  simp only [variableRecord?, source.accessOf_congr h.access, isConstantByCase, h.constantByCase,
    htyping]

/-- Of two languages that agree on variables, the one that infers types settles those that the
other leaves unknown. -/
theorem variableRecord?_settled (h : rules.AgreeOnVariables other)
    (hunknown : rules.dynamicTyping = true) (hinferred : other.dynamicTyping = false)
    (found : Match) :
    source.variableRecord? other found =
      (source.variableRecord? rules found).map (Prod.map id VariableRecord.settled) := by
  simp only [variableRecord?, source.accessOf_congr h.access, isConstantByCase, h.constantByCase,
    hunknown, hinferred, Signature.variableType_settled]
  cases found.span? .name with
  | none => rfl
  | some nameSpan =>
    dsimp only
    split <;> rfl

/-- Records that are changed one by one keep their order. -/
theorem recordsOf_map {α β : Type} (patterns : List Pattern) (change : α → β)
    {record? : Match → Option (Nat × α)} {changed? : Match → Option (Nat × β)}
    (h : ∀ found, changed? found = (record? found).map (Prod.map id change)) :
    source.recordsOf patterns changed? = (source.recordsOf patterns record?).map change := by
  rw [recordsOf, recordsOf, funext h, ← List.map_filterMap]
  generalize (patterns.flatMap fun pattern => pattern.matchesIn source.chars).filterMap record? =
    entries
  have hsort : ((entries.map (Prod.map id change)).mergeSort fun a b => a.1 ≤ b.1) =
      (entries.mergeSort fun a b => a.1 ≤ b.1).map (Prod.map id change) :=
    (List.map_mergeSort fun a _ b _ => by simp).symm
  rw [hsort, List.map_map, List.map_map]
  rfl

end Source

section Extract

variable {language twin : Language} {rules other : Rules} (hrules : Rules.of? language = some rules)
  (hother : Rules.of? twin = some other) (options : ExtractionOptions) (path place : Path)
  (text : String)
include hrules hother

/-- Languages with the same comments count lines alike. -/
theorem lines_extract_congr (h : rules.comments = other.comments) :
    (extract options path text language).lines = (extract options place text twin).lines := by
  rw [lines_extract hrules, lines_extract hother, h]

/-- Languages that agree on functions find the same ones. -/
theorem functions_extract_congr (h : rules.AgreeOnFunctions other) :
    (extract options path text language).functions =
      (extract options place text twin).functions := by
  simp only [extract, hrules, hother, Source.functionRecord?_congr _ h, h.functionPatterns]

/-- Languages that agree on classes find the same ones. -/
theorem classes_extract_congr (h : rules.AgreeOnClasses other) :
    (extract options path text language).classes = (extract options place text twin).classes := by
  rw [classes_extract hrules, classes_extract hother, Source.classRecord?_congr _ h,
    h.classPatterns]

/-- Languages that agree on variables and on types left open find the same ones. -/
theorem vars_extract_congr (h : rules.AgreeOnVariables other)
    (htyping : rules.dynamicTyping = other.dynamicTyping) :
    (extract options path text language).vars = (extract options place text twin).vars := by
  rw [vars_extract hrules, vars_extract hother, Source.variableRecord?_congr _ h htyping,
    h.variablePatterns]

/-- Of two languages that agree on variables, one finds those of the other with their types
settled. -/
theorem vars_extract_settled (h : rules.AgreeOnVariables other)
    (hunknown : rules.dynamicTyping = true) (hinferred : other.dynamicTyping = false) :
    (extract options place text twin).vars =
      (extract options path text language).vars.map VariableRecord.settled := by
  rw [vars_extract hrules, vars_extract hother, h.variablePatterns]
  exact Source.recordsOf_map _ _ _ (Source.variableRecord?_settled _ h hunknown hinferred)

end Extract

end CodeQuality
