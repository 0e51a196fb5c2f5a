import CodeQuality.Proofs.Signature.Declaration
import CodeQuality.Rules.CFamily
import CodeQuality.Rules.Table

/-!
# Reading parameters back

A declaration is written as its type and name, in the order of the language, with a default value
behind them. Main statement: the names in a list of such declarations are read back exactly. The
types and default values may hold commas and brackets of any kind, as long as each of them is closed
by itself, and default values may hold arrows.
-/

namespace CodeQuality.Signature

open Text

/-- A parameter as it is declared. -/
structure Declaration where
  name : String
  type : String
  default? : Option String := none

namespace Declaration

/-- The type and the name in the order of the language. -/
def declared (order : ParameterOrder) (declaration : Declaration) : List Char :=
  match order with
  | .typeFirst => declaration.type.toList ++ ' ' :: declaration.name.toList
  | .nameFirst => declaration.name.toList ++ ':' :: ' ' :: declaration.type.toList

/-- The declaration as it is written, with the default value behind an equals sign. -/
def render (order : ParameterOrder) (declaration : Declaration) : List Char :=
  match declaration.default? with
  | none => declaration.declared order
  | some value => declaration.declared order ++ ' ' :: '=' :: ' ' :: value.toList

/-- The declaration can be read back by the rules of a language. -/
structure IsReadable (rules : Rules) (declaration : Declaration) : Prop
    extends IsParameterName rules declaration.name where
  /-- No default value and no arrow begins in the type. -/
  typeSigns : '=' ∉ declaration.type.toList ∧ '-' ∉ declaration.type.toList
  typeClosed : IsClosed declaration.type.toList
  defaultClosed : ∀ value ∈ declaration.default?, IsClosed value.toList

instance (rules : Rules) (declaration : Declaration) : Decidable (declaration.IsReadable rules) :=
  decidable_of_iff
    (IsParameterName rules declaration.name ∧
      ('=' ∉ declaration.type.toList ∧ '-' ∉ declaration.type.toList) ∧
      IsClosed declaration.type.toList ∧ ∀ value ∈ declaration.default?, IsClosed value.toList)
    ⟨fun ⟨h1, h2, h3, h4⟩ => ⟨h1, h2, h3, h4⟩, fun ⟨h1, h2, h3, h4⟩ => ⟨h1, h2, h3, h4⟩⟩

namespace IsReadable

variable {rules : Rules} {declaration : Declaration}

/-- No default value and no arrow begins before the default value. -/
theorem declaredSigns (h : declaration.IsReadable rules) (order : ParameterOrder) :
    '=' ∉ declaration.declared order ∧ '-' ∉ declaration.declared order := by
  have heq : '=' ∉ declaration.name.toList := h.identifier.notMem (by decide)
  have hminus : '-' ∉ declaration.name.toList := h.identifier.notMem (by decide)
  cases order <;> simp [declared, heq, hminus, h.typeSigns]

/-- The type and the name are closed. -/
theorem isClosed_declared (h : declaration.IsReadable rules) (order : ParameterOrder) :
    IsClosed (declaration.declared order) := by
  have hname : IsClosed declaration.name.toList := isClosed_of_plain h.identifier.plain
  cases order with
  | typeFirst => exact h.typeClosed.append_space hname
  | nameFirst =>
    have hcolon : IsClosed (declaration.name.toList ++ [':']) :=
      hname.append (isClosed_of_plain (by simp)) (by simp [BracketCount.Joins])
    rw [declared, List.append_cons]
    exact hcolon.append_space h.typeClosed

/-- The whole declaration is closed. -/
theorem isClosed_render (h : declaration.IsReadable rules) (order : ParameterOrder) :
    IsClosed (declaration.render order) := by
  have hdeclared := h.isClosed_declared order
  rw [render]
  split
  · exact hdeclared
  · rename_i value hvalue
    have hsign : IsClosed (declaration.declared order ++ ' ' :: ['=']) :=
      hdeclared.append_space (isClosed_of_plain (by simp))
    have hrender := hsign.append_space (h.defaultClosed value hvalue)
    rwa [List.append_assoc] at hrender

/-- Without its default value a declaration is its type and name. -/
theorem stripDefault_render (h : declaration.IsReadable rules) (order : ParameterOrder) :
    stripDefault (declaration.render order) = trim (declaration.declared order) := by
  obtain ⟨heq, hminus⟩ := h.declaredSigns order
  rw [render]
  split
  · rw [stripDefault, beforeDefault_of_notMem heq]
    rfl
  · rename_i value _
    have hclosed : IsClosed (declaration.declared order ++ [' ']) :=
      (h.isClosed_declared order).append_space (isClosed_of_plain (by simp))
    have hbegins : beginsDefault (declaration.declared order ++ [' ']).reverse
        (' ' :: value.toList) = true := by
      rw [List.reverse_append]
      rfl
    rw [List.append_cons, stripDefault_append (by simp [heq]) (by simp [hminus]) hclosed.settled
      hbegins, trim_append_right (List.forall_mem_singleton.mpr (by decide))]

/-- The name of a declaration is read back. -/
theorem parameterName?_render (h : declaration.IsReadable rules) :
    parameterName? rules.parameterOrder (declaration.render rules.parameterOrder) =
      some declaration.name := by
  have hstrip := h.stripDefault_render rules.parameterOrder
  have hunmodified := h.unmodified
  cases horder : rules.parameterOrder with
  | typeFirst =>
    rw [horder] at hstrip
    exact parameterName?_typeFirst hstrip h.identifier
  | nameFirst =>
    rw [horder] at hstrip
    exact parameterName?_nameFirst hstrip h.identifier (hunmodified horder) (by simp; decide)

end IsReadable

end Declaration

/-- Parameter lists are read back exactly, by the rules of every language: the parameters of
readable declarations, written one behind the other with commas between them, are their names. -/
theorem parameters_render (rules : Rules) (declarations : List Declaration)
    (h : ∀ declaration ∈ declarations, declaration.IsReadable rules) :
    parameters rules.parameterOrder rules.implicitParameters
        ([',', ' '].intercalate (declarations.map (·.render rules.parameterOrder))) =
      declarations.map (·.name) := by
  have hkept : (declarations.map (·.name)).filter (fun name =>
      !rules.implicitParameters.contains name) = declarations.map (·.name) := by
    rw [List.filter_eq_self]
    intro name hname
    obtain ⟨declaration, hdeclaration, rfl⟩ := List.mem_map.mp hname
    simpa using (h declaration hdeclaration).explicit
  rw [parameters_eq, ← hkept]
  congr 1
  cases declarations with
  | nil => simp
  | cons first rest =>
    have hclosed : ∀ text ∈ (first :: rest).map (·.render rules.parameterOrder),
        IsClosed text := by
      intro text htext
      obtain ⟨declaration, hdeclaration, rfl⟩ := List.mem_map.mp htext
      exact (h declaration hdeclaration).isClosed_render _
    have hfirst := (h first List.mem_cons_self).parameterName?_render
    have hrest : rest.filterMap (fun declaration => parameterName? rules.parameterOrder
        (' ' :: declaration.render rules.parameterOrder)) = rest.map (·.name) := by
      rw [← List.filterMap_eq_map]
      refine List.filterMap_congr fun declaration hdeclaration => ?_
      rw [parameterName?_space]
      exact (h declaration (List.mem_cons_of_mem _ hdeclaration)).parameterName?_render
    rw [List.map_cons, BracketCount.pieces_intercalate rfl [] _ (fun _ => by simp) hclosed,
      List.reverse_nil, List.nil_append, List.filterMap_cons_some hfirst, List.map_map,
      List.filterMap_map, List.map_cons]
    exact congrArg _ hrest

/-- Commas and brackets within types and default values, arrows and a comparison among them, in a
language where types come first and in one where names do. -/
theorem parameters_render_nested :
    parameters Rules.csharp.parameterOrder Rules.csharp.implicitParameters
        "Map<K, V[]> map, F next = (x, y) => x > y".toList = ["map", "next"] ∧
    parameters (Rules.script false).parameterOrder (Rules.script false).implicitParameters
        "all: [K, V], $each: F = ({ a, b }) => a, rest: any".toList = ["all", "$each", "rest"] :=
  ⟨parameters_render Rules.csharp
      [⟨"map", "Map<K, V[]>", none⟩, ⟨"next", "F", some "(x, y) => x > y"⟩] (by decide),
    parameters_render (Rules.script false)
      [⟨"all", "[K, V]", none⟩, ⟨"$each", "F", some "({ a, b }) => a"⟩, ⟨"rest", "any", none⟩]
      (by decide)⟩

end CodeQuality.Signature
