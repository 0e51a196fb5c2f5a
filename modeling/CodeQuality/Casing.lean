/-!
# Casing of names

The shapes that naming conventions ask for. Leading underscores and dollar signs, and the
trailing underscores of a name that begins with two of them, are marks of access and not part of
the name's shape.
-/

namespace CodeQuality

/-- A shape of names. -/
inductive Casing where
  | pascal
  | camel
  | snake
  /-- A lower case start and then letters, digits and underscores in any mix. -/
  | lowerMixed
  | screamingSnake
  deriving DecidableEq, Repr

namespace Casing

/-- All shapes. -/
def all : List Casing :=
  [pascal, camel, snake, lowerMixed, screamingSnake]

/-- The characters that can begin a name of the shape. -/
def first : Casing → Char → Bool
  | pascal, c => c.isUpper
  | camel, c => c.isLower
  | snake, c => c.isLower
  | lowerMixed, c => c.isLower
  | screamingSnake, c => c.isUpper

/-- The characters that can follow in a name of the shape. -/
def later : Casing → Char → Bool
  | pascal, c => c.isAlphanum
  | camel, c => c.isAlphanum
  | snake, c => c.isLower || c.isDigit || c == '_'
  | lowerMixed, c => c.isAlphanum || c == '_'
  | screamingSnake, c => c.isUpper || c.isDigit || c == '_'

/-- The name has the shape. -/
def fits (casing : Casing) : List Char → Bool
  | [] => false
  | c :: rest => casing.first c && rest.all casing.later

end Casing

/-- The part of a name that its shape is judged by. -/
def nameCore (name : List Char) : List Char :=
  let core := name.dropWhile fun c => c == '_' || c == '$'
  if name.take 2 == ['_', '_'] then (core.reverse.dropWhile (· == '_')).reverse else core

/-- The shapes that a language accepts for each kind of name. -/
structure NamingRules where
  functionCasings : List Casing
  classCasings : List Casing
  variableCasings : List Casing
  constantCasings : List Casing

namespace NamingRules

/-- The name has one of the shapes once its marks of access are taken off. -/
def accepts (casings : List Casing) (name : String) : Bool :=
  casings.any fun casing => casing.fits (nameCore name.toList)

/-- The name is good for a function. -/
def acceptsFunction (rules : NamingRules) (name : String) : Bool :=
  accepts rules.functionCasings name

/-- The name is good for a class. -/
def acceptsClass (rules : NamingRules) (name : String) : Bool :=
  accepts rules.classCasings name

/-- The name is good for a variable, or for a constant where the variable is one. -/
def acceptsVariable (rules : NamingRules) (name : String) (isConst : Bool) : Bool :=
  accepts rules.variableCasings name || (isConst && accepts rules.constantCasings name)

end NamingRules

end CodeQuality
