import CodeQuality.Extraction.Record

/-!
# Similar functions

Two bodies are as similar as the share of the longer one that is left when the edits between them
are taken off. The edit distance is computed in two rows that are filled in turns, and only where
the lengths alone do not rule the pair out.
-/

namespace CodeQuality

/-- Two rows of the table of distances. Behind the cells that are filled, the row being filled holds
what an older row has left there. -/
structure DistanceRows where
  previous : Array Nat
  current : Array Nat

namespace DistanceRows

/-- The row of the empty text, and a row to fill. -/
def start (width : Nat) : DistanceRows where
  previous := (List.range (width + 1)).toArray
  current := Array.replicate (width + 1) 0

/-- The rows with the cell behind a column filled. It is the cheapest of a substitution from the
cell above and to the left, a deletion from the cell above, and an insertion from the cell to the
left. -/
def fillCell (a : Char) (rows : DistanceRows) (column : Char × Nat) : DistanceRows :=
  let (b, j) := column
  let substitution := rows.previous.getD j 0 + if a = b then 0 else 1
  let cell := min (min substitution (rows.previous.getD (j + 1) 0 + 1)) (rows.current.getD j 0 + 1)
  { rows with current := rows.current.setIfInBounds (j + 1) cell }

/-- The rows with the next row filled, when they have changed places. -/
def fillRow (b : List Char) (rows : DistanceRows) (line : Char × Nat) : DistanceRows :=
  let (a, i) := line
  let begun := { rows with current := rows.current.setIfInBounds 0 (i + 1) }
  let filled := b.zipIdx.foldl (fillCell a) begun
  ⟨filled.current, filled.previous⟩

end DistanceRows

/-- The least number of insertions, deletions and substitutions of single characters that turn one
text into the other. -/
def editDistance (a b : List Char) : Nat :=
  (a.zipIdx.foldl (DistanceRows.fillRow b) (.start b.length)).previous.getD b.length 0

/-- The share of the longer text that the edit distance leaves, zero when either is empty. -/
def similarity (a b : List Char) : Float :=
  if a.isEmpty || b.isEmpty then 0
  else
    let longer := max a.length b.length
    Float.ofNat (longer - editDistance a b) / Float.ofNat longer

/-- The similarity of two texts that are not empty, if it is above the threshold. The distance is
at least the difference of the lengths, so many pairs are ruled out by these alone. -/
def similarityAbove? (threshold : Float) (a b : List Char) : Option Float :=
  if a.isEmpty || b.isEmpty then none
  else
    let shorter := min a.length b.length
    let longer := max a.length b.length
    if Float.ofNat shorter / Float.ofNat longer ≤ threshold then none
    else
      let value := similarity a b
      if threshold < value then some value else none

/-- Two functions that are alike. -/
structure SimilarPair where
  first : String
  second : String
  similarity : Float

/-- The pairs of functions above the threshold: the first function with each later one, then the
second one with each later one, and so on. -/
def similarPairs (threshold : Float) : List FunctionRecord → List SimilarPair
  | [] => []
  | function :: rest =>
    rest.filterMap (fun other =>
      (similarityAbove? threshold function.body.toList other.body.toList).map fun value =>
        ⟨function.name, other.name, value⟩) ++
    similarPairs threshold rest

end CodeQuality
