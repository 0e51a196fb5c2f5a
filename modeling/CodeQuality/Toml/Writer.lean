import CodeQuality.Json.Writer

/-!
# Writing TOML

A document is written with the plain entries of a table before its tables. Every table stands
under a header with its full name, unless it holds nothing but tables.
-/

namespace CodeQuality.Toml

/-- The value is a table. -/
def isTable : Value → Bool
  | .table _ => true
  | _ => false

mutual

/-- A value behind its key. The items of a list stand on lines of their own. -/
def plainValue : Value → String
  | .list [] => "[]"
  | .list items => "[\n" ++ itemLines items ++ "]"
  | .bool value => if value then "true" else "false"
  | .int value => toString value
  | .float value => Json.number value
  | .text value => Json.quoted value
  | .null => ""
  | .moment | .unreadable => ""
  | .table _ => ""

/-- The items of a list. -/
def itemLines : List Value → String
  | [] => ""
  | item :: rest => "    " ++ plainValue item ++ ",\n" ++ itemLines rest

end

/-- The lines of the plain entries. -/
def plainLines (entries : List (String × Value)) : String :=
  String.join ((entries.filter fun entry => !isTable entry.2).map fun (key, value) =>
    key ++ " = " ++ plainValue value ++ "\n")

/-- The header and the plain entries of a table with a name, behind an empty line. -/
def headed (name : List String) (entries : List (String × Value)) : String :=
  if entries.all fun entry => isTable entry.2 then ""
  else "\n[" ++ ".".intercalate name ++ "]\n" ++ plainLines entries

mutual

/-- The tables among the entries of a table with a name, each with all that is below it. -/
def tables (name : List String) : List (String × Value) → String
  | [] => ""
  | (key, value) :: rest => tableText (name ++ [key]) value ++ tables name rest

/-- A table with a name and all that is below it. -/
def tableText (name : List String) : Value → String
  | .table entries => headed name entries ++ tables name entries
  | _ => ""

end

/-- The document of a table. -/
def document (entries : List (String × Value)) : String :=
  plainLines entries ++ tables [] entries

end CodeQuality.Toml
