import CodeQuality.Proofs.Duplication.EditDistance

/-!
# The metric laws of the edit distance

The table takes its two texts row by row and column by column, so nothing in it shows that they
can change places. Edits show it: each can be undone by one edit, and edits behind edits are edits.
The least number of them is therefore symmetric and obeys the triangle inequality. Main statement:
the distance is a metric, similarity does not depend on the order of the two texts, and functions
given in reverse order have the same similar pairs.
-/

namespace CodeQuality

/-! ## Undoing and composing edits -/

/-- An edit is undone by an edit. -/
theorem Edit.symm {a b : List Char} (h : Edit a b) : Edit b a := by
  cases h with
  | insert before behind c => exact delete before behind c
  | delete before behind c => exact insert before behind c
  | substitute before behind c d => exact substitute before behind d c

namespace Edits

/-- Edits behind edits add up. -/
theorem trans {n m : Nat} {a b c : List Char} (hfirst : Edits n a b) (hsecond : Edits m b c) :
    Edits (n + m) a c := by
  induction hfirst with
  | none a => simpa using hsecond
  | more hedit _ ih =>
    rw [Nat.add_right_comm]
    exact more hedit (ih hsecond)

/-- Edits are undone by as many edits. -/
theorem symm {n : Nat} {a b : List Char} (h : Edits n a b) : Edits n b a := by
  induction h with
  | none a => exact none a
  | more hedit _ ih => exact ih.trans (more hedit.symm (none _))

end Edits

section Distance

/-- The distance is reached by edits. -/
theorem edits_editDistance (a b : List Char) : Edits (editDistance a b) a b := by
  rw [editDistance_eq_recursiveDistance]
  exact edits_recursiveDistance a b

/-- No edits are fewer than the distance. -/
theorem editDistance_le_of_edits {n : Nat} {a b : List Char} (h : Edits n a b) :
    editDistance a b ≤ n := by
  rw [editDistance_eq_recursiveDistance]
  exact recursiveDistance_le_of_edits h

/-- Only equal texts have no distance. -/
theorem editDistance_eq_zero_iff {a b : List Char} : editDistance a b = 0 ↔ a = b := by
  constructor
  · intro h
    have hedits := edits_editDistance a b
    rw [h] at hedits
    cases hedits
    rfl
  · rintro rfl
    exact Nat.le_zero.mp (editDistance_le_of_edits (Edits.none a))

/-- The distance is the same in both directions. -/
theorem editDistance_comm (a b : List Char) : editDistance a b = editDistance b a :=
  le_antisymm (editDistance_le_of_edits (edits_editDistance b a).symm)
    (editDistance_le_of_edits (edits_editDistance a b).symm)

/-- The way over a third text is not shorter. -/
theorem editDistance_triangle (a b c : List Char) :
    editDistance a c ≤ editDistance a b + editDistance b c :=
  editDistance_le_of_edits ((edits_editDistance a b).trans (edits_editDistance b c))

end Distance

section Pairs

/-- The pair with its two functions in the other order. -/
def SimilarPair.swap (pair : SimilarPair) : SimilarPair :=
  ⟨pair.second, pair.first, pair.similarity⟩

/-- The pair of two functions, if they are similar. -/
def FunctionRecord.pairAbove? (threshold : Float) (a b : FunctionRecord) : Option SimilarPair :=
  (similarityAbove? threshold a.body.toList b.body.toList).map fun value => ⟨a.name, b.name, value⟩

/-- Similarity does not depend on the order of the texts. -/
theorem similarity_comm (a b : List Char) : similarity a b = similarity b a := by
  simp only [similarity, editDistance_comm a b, Nat.max_comm a.length, Bool.or_comm a.isEmpty]

/-- Nor does it depend on their order whether the similarity is above the threshold. -/
theorem similarityAbove?_comm (threshold : Float) (a b : List Char) :
    similarityAbove? threshold a b = similarityAbove? threshold b a := by
  simp only [similarityAbove?, similarity_comm a b, Nat.max_comm a.length, Nat.min_comm a.length,
    Bool.or_comm a.isEmpty]

/-- Two functions in the other order give the swapped pair. -/
theorem FunctionRecord.pairAbove?_comm (threshold : Float) (a b : FunctionRecord) :
    a.pairAbove? threshold b = (b.pairAbove? threshold a).map SimilarPair.swap := by
  rw [pairAbove?, pairAbove?, similarityAbove?_comm, Option.map_map]
  rfl

/-- The pairs of a first function come before those of the others. -/
theorem similarPairs_cons (threshold : Float) (function : FunctionRecord)
    (rest : List FunctionRecord) :
    similarPairs threshold (function :: rest) =
      rest.filterMap (function.pairAbove? threshold) ++ similarPairs threshold rest := by
  rw [similarPairs]
  rfl

/-- A last function adds the pairs of each function before it with it. -/
theorem similarPairs_append_singleton (threshold : Float) (functions : List FunctionRecord)
    (last : FunctionRecord) :
    (similarPairs threshold (functions ++ [last])).Perm
      (functions.filterMap (·.pairAbove? threshold last) ++ similarPairs threshold functions) := by
  induction functions with
  | nil => simp [similarPairs]
  | cons function rest ih =>
    have hlast : (function :: rest).filterMap (·.pairAbove? threshold last) =
        [last].filterMap (function.pairAbove? threshold) ++
          rest.filterMap (·.pairAbove? threshold last) := by
      cases h : function.pairAbove? threshold last <;> simp [h]
    rw [List.cons_append, similarPairs_cons, similarPairs_cons, List.filterMap_append, hlast]
    refine (ih.append_left _).trans ?_
    rw [List.append_assoc, ← List.append_assoc _ _ (similarPairs threshold rest)]
    exact List.perm_append_comm_assoc ..

/-- Functions in reverse order have the same similar pairs, each of them swapped. -/
theorem similarPairs_reverse_perm (threshold : Float) (functions : List FunctionRecord) :
    (similarPairs threshold functions.reverse).Perm
      ((similarPairs threshold functions).map SimilarPair.swap) := by
  induction functions with
  | nil => exact List.Perm.refl _
  | cons function rest ih =>
    have hswapped : (fun other => other.pairAbove? threshold function) = fun other =>
        (function.pairAbove? threshold other).map SimilarPair.swap :=
      funext fun other => other.pairAbove?_comm threshold function
    rw [List.reverse_cons, similarPairs_cons, List.map_append, List.map_filterMap, ← hswapped]
    refine (similarPairs_append_singleton threshold rest.reverse function).trans ?_
    exact ((List.reverse_perm rest).filterMap _).append ih

end Pairs

/-- The distance is a metric on texts: it is zero between equal texts only, it is the same in both
directions, and it obeys the triangle inequality. So similarity is symmetric, and functions in
reverse order have, for every threshold, the same similar pairs with the same similarities, only
with the two functions of each pair in the other order. -/
theorem editDistance_metric :
    (∀ a b : List Char, editDistance a b = 0 ↔ a = b) ∧
      (∀ a b : List Char, editDistance a b = editDistance b a) ∧
      (∀ a b c : List Char, editDistance a c ≤ editDistance a b + editDistance b c) ∧
      (∀ a b : List Char, similarity a b = similarity b a) ∧
      ∀ (threshold : Float) (functions : List FunctionRecord),
        (similarPairs threshold functions.reverse).Perm
          ((similarPairs threshold functions).map SimilarPair.swap) :=
  ⟨fun _ _ => editDistance_eq_zero_iff, editDistance_comm, editDistance_triangle, similarity_comm,
    similarPairs_reverse_perm⟩

end CodeQuality
