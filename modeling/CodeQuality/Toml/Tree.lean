import CodeQuality.Value

/-!
# The tables of a TOML document

A document is a tree of tables that its statements fill in. Each table remembers how it came to
be, because that decides what later statements may do with it: a table that a header has named
cannot be named again, one that dotted keys have made cannot be named by a header, and one that
was written inline cannot be extended at all.
-/

namespace CodeQuality.Toml

/-- How a table came to be. -/
inductive Origin where
  /-- A header names it. -/
  | header
  /-- A header names a table inside it. -/
  | implied
  /-- A dotted key names a value inside it. -/
  | dotted
  /-- It is written as a value. -/
  | inline
  deriving DecidableEq, Repr

/-- A part of a document. -/
inductive Item where
  | leaf (value : Value)
  | table (origin : Origin) (entries : List (String × Item))
  /-- The tables that headers in double brackets append to. -/
  | rows (tables : List (List (String × Item)))

/-- The entries of a table in the order of their first mention. -/
abbrev Entries := List (String × Item)

/-- The item under a key. -/
def Entries.get? (entries : Entries) (key : String) : Option Item :=
  (entries.find? fun entry => entry.1 == key).map Prod.snd

/-- The entries with the item under a key replaced. -/
def Entries.replace (entries : Entries) (key : String) (item : Item) : Entries :=
  entries.map fun entry => if entry.1 == key then (key, item) else entry

/-- The entries with a value under a dotted key, which must be new. -/
def setDotted? : List String → Item → Entries → Option Entries
  | [], _, _ => none
  | [key], item, entries =>
    match entries.get? key with
    | none => some (entries ++ [(key, item)])
    | some _ => none
  | key :: more, item, entries =>
    match entries.get? key with
    | none => (setDotted? more item []).map fun inner => entries ++ [(key, .table .dotted inner)]
    | some (.table .dotted inner) =>
      (setDotted? more item inner).map fun inner =>
        entries.replace key (.table .dotted inner)
    | some (.table .implied inner) =>
      if more.length ≤ 1 then none
      else
        (setDotted? more item inner).map fun inner =>
          entries.replace key (.table .implied inner)
    | some (.rows tables) =>
      match tables.getLast? with
      | none => none
      | some last =>
        if more.length ≤ 1 then none
        else
          (setDotted? more item last).map fun last =>
            entries.replace key (.rows (tables.dropLast ++ [last]))
    | some _ => none

/-- Change the table that a header path leads to. The steps before the last lead through tables,
which are made where there are none, and through the last of appended tables. -/
def onPath? (finish : String → Entries → Option Entries) : List String → Entries → Option Entries
  | [], _ => none
  | [key], entries => finish key entries
  | key :: more, entries =>
    match entries.get? key with
    | none => (onPath? finish more []).map fun inner => entries ++ [(key, .table .implied inner)]
    | some (.table .inline _) => none
    | some (.table origin inner) =>
      (onPath? finish more inner).map fun inner => entries.replace key (.table origin inner)
    | some (.rows tables) =>
      match tables.getLast? with
      | none => none
      | some last =>
        (onPath? finish more last).map fun last =>
          entries.replace key (.rows (tables.dropLast ++ [last]))
    | some (.leaf _) => none

/-- The entries with a table that a header names. -/
def openTable? (key : String) (entries : Entries) : Option Entries :=
  match entries.get? key with
  | none => some (entries ++ [(key, .table .header [])])
  | some (.table .implied inner) => some (entries.replace key (.table .header inner))
  | some _ => none

/-- The entries with a table appended that a header in double brackets names. -/
def appendTable? (key : String) (entries : Entries) : Option Entries :=
  match entries.get? key with
  | none => some (entries ++ [(key, .rows [[]])])
  | some (.rows tables) => some (entries.replace key (.rows (tables ++ [[]])))
  | some _ => none

/-- Change the table that the current header has opened. -/
def onOpened? (change : Entries → Option Entries) : List String → Entries → Option Entries
  | [], entries => change entries
  | key :: more, entries =>
    match entries.get? key with
    | some (.table origin inner) =>
      (onOpened? change more inner).map fun inner => entries.replace key (.table origin inner)
    | some (.rows tables) =>
      match tables.getLast? with
      | none => none
      | some last =>
        (onOpened? change more last).map fun last =>
          entries.replace key (.rows (tables.dropLast ++ [last]))
    | _ => none

mutual

/-- The value of an item. -/
def Item.value : Item → Value
  | .leaf value => value
  | .table _ entries => .table (valuesOf entries)
  | .rows tables => .list (rowsOf tables)

/-- The values of entries. -/
def valuesOf : List (String × Item) → List (String × Value)
  | [] => []
  | (key, item) :: rest => (key, item.value) :: valuesOf rest

/-- The values of appended tables. -/
def rowsOf : List (List (String × Item)) → List Value
  | [] => []
  | entries :: rest => .table (valuesOf entries) :: rowsOf rest

end

end CodeQuality.Toml
