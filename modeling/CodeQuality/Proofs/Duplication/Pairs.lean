import CodeQuality.Proofs.Double.Quotient
import CodeQuality.Proofs.Duplication.EditDistance
import Mathlib.Data.List.FinRange

/-!
# All similar pairs

A pair of functions whose lengths alone rule it out is not compared further. This loses no pair:
the list is the one that compares every function with every later one. It rests on the distance
being at least the difference of the lengths, and on a quotient of doubles not getting larger when
its numerator gets smaller. Main statement: the indices of the listed pairs are in lexicographic
order, they are exactly those of the similar ones, and each pair comes with its similarity.
-/

namespace CodeQuality

/-- Both functions have a body, and their similarity is above the threshold. -/
def FunctionRecord.IsSimilar (threshold : Float) (a b : FunctionRecord) : Prop :=
  a.body ≠ "" ∧ b.body ≠ "" ∧ threshold < similarity a.body.toList b.body.toList

instance (threshold : Float) (a b : FunctionRecord) : Decidable (a.IsSimilar threshold b) :=
  inferInstanceAs (Decidable (_ ∧ _ ∧ _))

/-- The pair of two functions, with their similarity. -/
def FunctionRecord.pairWith (a b : FunctionRecord) : SimilarPair :=
  ⟨a.name, b.name, similarity a.body.toList b.body.toList⟩

/-- The indices of the similar functions: each index with every later one, in order. -/
def similarIndices (threshold : Float) (functions : List FunctionRecord) :
    List (Fin functions.length × Fin functions.length) :=
  (List.finRange functions.length).flatMap fun i =>
    ((List.finRange functions.length).filter fun j =>
      i < j ∧ functions[i].IsSimilar threshold functions[j]).map fun j => (i, j)

section Shortcut

/-- Texts whose lengths have a ratio of at most the threshold are not more similar than that. -/
theorem not_lt_similarity_of_ratio_le {threshold : Float} {a b : List Char} (ha : a ≠ [])
    (hb : b ≠ [])
    (h : Float.ofNat (min a.length b.length) / Float.ofNat (max a.length b.length) ≤ threshold) :
    ¬ threshold < similarity a b := by
  have hleft : max a.length b.length - editDistance a b ≤ min a.length b.length := by
    have hbounds := editDistance_bounds a b
    omega
  have hsimilarity : similarity a b =
      Float.ofNat (max a.length b.length - editDistance a b) /
        Float.ofNat (max a.length b.length) := by
    simp [similarity, ha, hb]
  rw [hsimilarity]
  exact Double.not_lt_ofNat_div hleft _ h

/-- The lengths rule out no pair that the similarity does not. -/
theorem similarityAbove?_eq (threshold : Float) (a b : List Char) :
    similarityAbove? threshold a b =
      if a ≠ [] ∧ b ≠ [] ∧ threshold < similarity a b then some (similarity a b) else none := by
  by_cases ha : a = []
  · simp [similarityAbove?, ha]
  by_cases hb : b = []
  · simp [similarityAbove?, hb]
  have hbodies : ¬ (a.isEmpty || b.isEmpty) = true := by simp [ha, hb]
  simp only [similarityAbove?, if_neg hbodies, ne_eq, ha, hb, not_false_eq_true, true_and]
  split_ifs with hratio hlt
  · exact absurd hlt (not_lt_similarity_of_ratio_le ha hb hratio)
  · rfl
  · rfl
  · rfl

/-- A function is listed with those of the others that it is similar to. -/
theorem filterMap_similarityAbove? (threshold : Float) (function : FunctionRecord)
    (others : List FunctionRecord) :
    others.filterMap (fun other =>
        (similarityAbove? threshold function.body.toList other.body.toList).map fun value =>
          SimilarPair.mk function.name other.name value) =
      (others.filter fun other => function.IsSimilar threshold other).map function.pairWith := by
  rw [← List.filterMap_eq_map, List.filterMap_filter]
  refine List.filterMap_congr fun other _ => ?_
  have hbody (text : String) : text ≠ "" ↔ text.toList ≠ [] := by simp
  simp only [similarityAbove?_eq, FunctionRecord.IsSimilar, hbody, decide_eq_true_eq]
  split_ifs <;> rfl

end Shortcut

section Indices

/-- The indices of a first function with the later ones come before those among the later ones. -/
theorem similarIndices_cons (threshold : Float) (function : FunctionRecord)
    (rest : List FunctionRecord) :
    similarIndices threshold (function :: rest) =
      ((List.finRange rest.length).filter fun j => function.IsSimilar threshold rest[j]).map
          (fun j => ((0 : Fin (rest.length + 1)), j.succ)) ++
        (similarIndices threshold rest).map fun (i, j) => (i.succ, j.succ) := by
  simp only [similarIndices, List.length_cons, List.finRange_succ, List.flatMap_cons]
  congr 1
  · simp [List.filter_map, Function.comp_def]
  · simp [List.flatMap_map, List.map_flatMap, List.filter_map, Function.comp_def]

/-- The pairs of a first function with the later ones come before those among the later ones. -/
theorem map_similarIndices_cons (threshold : Float) (function : FunctionRecord)
    (rest : List FunctionRecord) :
    (similarIndices threshold (function :: rest)).map (fun (i, j) =>
        (function :: rest)[i].pairWith (function :: rest)[j]) =
      (rest.filter fun other => function.IsSimilar threshold other).map function.pairWith ++
        (similarIndices threshold rest).map fun (i, j) => rest[i].pairWith rest[j] := by
  rw [similarIndices_cons, List.map_append, List.map_map, List.map_map]
  congr 1
  conv_rhs => rw [← List.map_getElem_finRange rest, List.filter_map, List.map_map]
  rfl

/-- The indices are in lexicographic order. -/
theorem pairwise_similarIndices (threshold : Float) (functions : List FunctionRecord) :
    (similarIndices threshold functions).Pairwise fun p q => toLex p < toLex q := by
  have hrange := List.pairwise_lt_finRange functions.length
  rw [similarIndices, List.pairwise_flatMap]
  constructor
  · intro i _
    rw [List.pairwise_map]
    refine (hrange.filter _).imp ?_
    intro j k hlt
    exact Prod.Lex.toLex_lt_toLex.mpr (Or.inr ⟨rfl, hlt⟩)
  · refine hrange.imp ?_
    intro i j hlt p hp q hq
    obtain ⟨k, -, rfl⟩ := List.mem_map.mp hp
    obtain ⟨l, -, rfl⟩ := List.mem_map.mp hq
    exact Prod.Lex.toLex_lt_toLex.mpr (Or.inl hlt)

/-- The indices are those of the similar functions, the earlier one first. -/
theorem mem_similarIndices {threshold : Float} {functions : List FunctionRecord}
    {i j : Fin functions.length} :
    (i, j) ∈ similarIndices threshold functions ↔
      i < j ∧ functions[i].IsSimilar threshold functions[j] := by
  simp [similarIndices]

end Indices

/-- The shortcut by lengths changes nothing: for every threshold the list has, in lexicographic
order of their indices, all pairs of an earlier and a later function with bodies whose similarity
is above the threshold, each with that similarity. The distance of two texts lies between the
difference of their lengths and the longer length, so what it leaves of the longer text is never
negative. -/
theorem similarPairs_exhaustive (threshold : Float) (functions : List FunctionRecord) :
    similarPairs threshold functions = (similarIndices threshold functions).map (fun (i, j) =>
        functions[i].pairWith functions[j]) ∧
      ((similarIndices threshold functions).Pairwise fun p q => toLex p < toLex q) ∧
      (∀ i j, (i, j) ∈ similarIndices threshold functions ↔
        i < j ∧ functions[i].IsSimilar threshold functions[j]) ∧
      ∀ a b : List Char, max a.length b.length - min a.length b.length ≤ editDistance a b ∧
        editDistance a b ≤ max a.length b.length := by
  refine ⟨?_, pairwise_similarIndices threshold functions, fun i j => mem_similarIndices,
    editDistance_bounds⟩
  induction functions with
  | nil => rfl
  | cons function rest ih =>
    rw [similarPairs, filterMap_similarityAbove?, map_similarIndices_cons, ih]

end CodeQuality
