import CodeQuality.Path
import Mathlib.Data.List.Basic

/-!
# The order of paths

Paths are compared as lists of components, and components first by kind and then by name. So the
order is total, and two paths are level in it exactly when they have the same components. Sorting
paths of different places puts them in strictly increasing order.
-/

namespace CodeQuality.Path

/-- The name that a component carries, if it does. -/
def Component.text : Component → String
  | .name text => text
  | _ => ""

/-- Components are compared by kind and then by name. -/
theorem Component.compare_eq :
    Component.compare = compareLex (compareOn compare.rank) (compareOn text) := by
  funext a b
  cases a <;> cases b <;> rfl

instance : Std.TransCmp Component.compare := by
  rw [Component.compare_eq]
  infer_instance

instance : Std.LawfulEqCmp Component.compare where
  eq_of_compare := by
    intro a b h
    rw [Component.compare_eq, compareLex_eq_eq, compareOn, compareOn,
      Std.LawfulEqOrd.compare_eq_iff_eq, Std.LawfulEqOrd.compare_eq_iff_eq] at h
    obtain ⟨hrank, htext⟩ := h
    cases a <;> cases b <;> simp_all [Component.compare.rank, Component.text]

/-- Paths are compared in the lexicographic order of their components. -/
theorem compare_eq_compareLex (a b : Path) :
    compare a b = List.compareLex Component.compare a.components b.components := by
  rw [compare]
  generalize a.components = as
  generalize b.components = bs
  induction as generalizing bs with
  | nil => cases bs <;> rfl
  | cons a as ih =>
    cases bs with
    | nil => rfl
    | cons b bs => rw [compare.go, List.compareLex_cons_cons, ih]

instance : Std.TransCmp compare where
  eq_swap := by
    intro a b
    rw [compare_eq_compareLex, compare_eq_compareLex]
    exact Std.OrientedCmp.eq_swap
  isLE_trans := by
    intro a b c hab hbc
    rw [compare_eq_compareLex] at hab hbc ⊢
    exact Std.TransCmp.isLE_trans hab hbc

/-- Paths are level exactly when they have the same components. -/
theorem compare_eq_eq_iff {a b : Path} : compare a b = .eq ↔ a.components = b.components := by
  rw [compare_eq_compareLex]
  exact Std.LawfulEqCmp.compare_eq_iff_eq

/-- A path does not come behind another one exactly when the other one does not come before. -/
theorem le_iff_not_lt {a b : Path} : le a b = true ↔ compare b a ≠ .lt := by
  have hswap : compare a b = (compare b a).swap := Std.OrientedCmp.eq_swap
  rw [le, hswap]
  cases compare b a <;> decide

/-- Of two paths with different components, the one that does not come behind comes before. -/
theorem compare_eq_lt_of_le {a b : Path} (hle : le a b = true)
    (hne : a.components ≠ b.components) : compare a b = .lt := by
  rcases Ordering.isLE_iff_eq_lt_or_eq_eq.mp hle with hlt | heq
  · exact hlt
  · exact absurd (compare_eq_eq_iff.mp heq) hne

/-- What two paths begin with in common does not matter for their order. -/
theorem compareLex_append_left (lead as bs : List Component) :
    List.compareLex Component.compare (lead ++ as) (lead ++ bs) =
      List.compareLex Component.compare as bs := by
  induction lead with
  | nil => rfl
  | cons c lead ih =>
    have hself : Component.compare c c = .eq := Std.ReflCmp.compare_self
    rw [List.cons_append, List.cons_append, List.compareLex_cons_cons, hself, ih]
    rfl

/-- Sorted paths do not come behind later ones. -/
theorem pairwise_le_mergeSort (paths : List Path) :
    (paths.mergeSort le).Pairwise fun a b => le a b = true := by
  apply List.pairwise_mergeSort
  · intro a b c hab hbc
    exact Std.TransCmp.isLE_trans hab hbc
  · intro a b
    have hswap : compare b a = (compare a b).swap := Std.OrientedCmp.eq_swap
    rw [le, le, hswap]
    cases compare a b <;> rfl

/-- Sorted paths of different places come before later ones. -/
theorem pairwise_lt_mergeSort {paths : List Path} (hnodup : (paths.map components).Nodup) :
    (paths.mergeSort le).Pairwise fun a b => compare a b = .lt := by
  have hplaces : (paths.mergeSort le).Pairwise fun a b => a.components ≠ b.components :=
    List.pairwise_map.mp (((List.mergeSort_perm paths le).map components).nodup_iff.mpr hnodup)
  exact (pairwise_le_mergeSort paths).imp₂ (fun _ _ => compare_eq_lt_of_le) hplaces

end CodeQuality.Path
