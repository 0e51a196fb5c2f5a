/-!
# Tables by name

Entries under names, each name at most once, in the order of the names.
-/

namespace CodeQuality

/-- Entries in the order of their names. -/
structure Table (α : Type) where
  entries : List (String × α) := []

namespace Table

variable {α β : Type}

/-- The entries with one set, behind the smaller names. -/
def insertEntry (key : String) (value : α) : List (String × α) → List (String × α)
  | [] => [(key, value)]
  | (other, old) :: rest =>
    if key = other then (key, value) :: rest
    else if key < other then (key, value) :: (other, old) :: rest
    else (other, old) :: insertEntry key value rest

/-- The table with the entry under a name set. -/
def insert (table : Table α) (key : String) (value : α) : Table α :=
  ⟨insertEntry key value table.entries⟩

/-- The entry under a name. -/
def get? (table : Table α) (key : String) : Option α :=
  (table.entries.find? fun entry => entry.1 = key).map Prod.snd

/-- The names in order. -/
def keys (table : Table α) : List String :=
  table.entries.map Prod.fst

/-- The table with each entry changed. -/
def map (change : α → β) (table : Table α) : Table β :=
  ⟨table.entries.map fun entry => (entry.1, change entry.2)⟩

/-- There are no entries. -/
def isEmpty (table : Table α) : Bool :=
  table.entries.isEmpty

end Table

end CodeQuality
