/-!
# Data values

The values that configuration documents are made of, whatever notation they are written in.
-/

namespace CodeQuality

/-- The number of whole numbers of 64 bits, two to the power of 64. -/
def wordCount : Nat := 18446744073709551616

/-- Half the number of whole numbers of 64 bits. -/
def halfWordCount : Nat := 9223372036854775808

/-- How a document is written. -/
inductive Dialect where
  | json
  | toml
  deriving DecidableEq, Repr

/-- A value of a document. -/
inductive Value where
  | null
  | bool (value : Bool)
  | int (value : Int)
  | float (value : Float)
  | text (value : String)
  /-- A date or a time, which no setting makes use of. -/
  | moment
  /-- A number without a value, which does no harm where nobody looks at it. -/
  | unreadable
  | list (items : List Value)
  | table (entries : List (String × Value))

namespace Value

/-- The entry of a table under a key. The last one counts when a key is repeated. -/
def get? (value : Value) (key : String) : Option Value :=
  match value with
  | table entries => (entries.reverse.find? fun entry => entry.1 == key).map Prod.snd
  | _ => none

/-- The value as a text. -/
def text? : Value → Option String
  | text value => some value
  | _ => none

/-- The value as a truth value. -/
def bool? : Value → Option Bool
  | bool value => some value
  | _ => none

/-- The value as a count, which is a whole number of 64 bits without a sign. -/
def count? : Value → Option Nat
  | int value => if 0 ≤ value && value < wordCount then some value.toNat else none
  | _ => none

/-- The value as a number. Whole numbers must fit into 64 bits, with or without a sign. -/
def number? : Value → Option Float
  | int value =>
    if -(halfWordCount : Int) ≤ value && value < wordCount then some (Float.ofInt value) else none
  | float value => some value
  | _ => none

/-- The items of a list. -/
def list? : Value → Option (List Value)
  | list items => some items
  | _ => none

mutual

/-- Every number in the value can be read. -/
def isReadable : Value → Bool
  | unreadable => false
  | list items => allReadable items
  | table entries => entriesReadable entries
  | null | bool _ | int _ | float _ | text _ | moment => true

/-- Every number in the items can be read. -/
def allReadable : List Value → Bool
  | [] => true
  | item :: items => item.isReadable && allReadable items

/-- Every number in the entries can be read. -/
def entriesReadable : List (String × Value) → Bool
  | [] => true
  | (_, value) :: entries => value.isReadable && entriesReadable entries

end

/-- The values of the named fields. Other entries of a table are looked at but not used. A list
gives the fields in order, from the first on; more items than fields are refused in JSON, and not
even looked at in TOML. A moment has none of the fields. -/
def fields? (dialect : Dialect) (names : List String) : Value → Option (List (Option Value))
  | table entries =>
    if entriesReadable (entries.filter fun entry => !names.contains entry.1) then
      some (names.map (table entries).get?)
    else none
  | list items =>
    if dialect == .json && names.length < items.length then none
    else some ((items.map some ++ List.replicate names.length none).take names.length)
  | moment => some (names.map fun _ => none)
  | _ => none

/-- Whether the value is the empty content of a name: null in JSON, an empty list or table in
TOML. -/
def isVacant (dialect : Dialect) : Value → Bool
  | null => dialect == .json
  | list [] => dialect == .toml
  | table [] => dialect == .toml
  | _ => false

/-- The value as a name, which is a text or the only key of a table with empty content. -/
def name? (dialect : Dialect) : Value → Option String
  | text value => some value
  | table [(key, content)] => if content.isVacant dialect then some key else none
  | _ => none

end Value

end CodeQuality
