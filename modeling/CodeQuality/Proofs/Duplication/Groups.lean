import Mathlib.Data.List.SplitBy
import Mathlib.Data.List.TakeWhile

/-!
# Groups of a sorted list

A list that is sorted by a key and cut where the key changes falls into one group for each key.
The sort is stable, so the entries of a group come in the order they had before the sort.
-/

namespace CodeQuality

section Sorting

variable {α κ : Type} (key : α → κ) {le : κ → κ → Prop} [DecidableRel le]
  (htrans : ∀ a b c, le a b → le b c → le a c) (htotal : ∀ a b, le a b ∨ le b a)

include htrans htotal

/-- A list sorted by a key is in the order of the keys. -/
theorem pairwise_mergeSort_key (l : List α) :
    (l.mergeSort fun a b => le (key a) (key b)).Pairwise fun a b => le (key a) (key b) := by
  have hpairwise : (l.mergeSort fun a b => le (key a) (key b)).Pairwise
      fun a b => decide (le (key a) (key b)) = true := by
    apply List.pairwise_mergeSort
    · intro a b c hab hbc
      simpa using htrans _ _ _ (by simpa using hab) (by simpa using hbc)
    · intro a b
      simpa using htotal (key a) (key b)
  simpa using hpairwise

/-- Sorting by a key keeps the order of the entries with one key. -/
theorem filter_mergeSort_key [DecidableEq κ] (l : List α) (k : κ) :
    (l.mergeSort fun a b => le (key a) (key b)).filter (fun a => key a = k) =
      l.filter fun a => key a = k := by
  have hrefl : le k k := (htotal k k).elim id id
  have hpairwise : (l.filter fun a => key a = k).Pairwise
      fun a b => decide (le (key a) (key b)) = true := by
    apply List.pairwise_of_forall_mem_list
    intro a ha b hb
    have hkeyA : key a = k := by simpa using (List.mem_filter.mp ha).2
    have hkeyB : key b = k := by simpa using (List.mem_filter.mp hb).2
    simpa [hkeyA, hkeyB] using hrefl
  have hsublist : (l.filter fun a => key a = k).Sublist
      (l.mergeSort fun a b => le (key a) (key b)) := by
    refine List.sublist_mergeSort ?_ ?_ hpairwise List.filter_sublist
    · intro a b c hab hbc
      simpa using htrans _ _ _ (by simpa using hab) (by simpa using hbc)
    · intro a b
      simpa using htotal (key a) (key b)
  have hfiltered := hsublist.filter fun a => decide (key a = k)
  rw [List.filter_filter] at hfiltered
  simp only [Bool.and_self] at hfiltered
  refine (hfiltered.eq_of_length ?_).symm
  exact ((List.mergeSort_perm l _).filter _).length_eq.symm

end Sorting

section Groups

variable {α κ : Type} {key : α → κ}

/-- The only key of a group is the one that its entries have. -/
theorem mem_map_key_group {k k' : κ} {group : List α} (hgroup : group ≠ [])
    (hsame : ∀ a ∈ group, key a = k) : k' ∈ group.map key ↔ k' = k := by
  constructor
  · intro hk
    obtain ⟨a, ha, rfl⟩ := List.mem_map.mp hk
    exact hsame a ha
  · rintro rfl
    obtain ⟨a, ha⟩ := List.exists_mem_of_ne_nil group hgroup
    exact List.mem_map.mpr ⟨a, ha, hsame a ha⟩

variable [DecidableEq κ]

/-- A first group with one key is cut off a list whose other entries have other keys. -/
theorem splitBy_append_group {k : κ} {group others : List α} (hgroup : group ≠ [])
    (hsame : ∀ a ∈ group, key a = k) (hothers : ∀ a ∈ others, key a ≠ k) :
    (group ++ others).splitBy (fun a b => key a == key b) =
      group :: others.splitBy fun a b => key a == key b := by
  have hchain : group.IsChain fun a b => (key a == key b) = true := by
    apply List.Pairwise.isChain
    apply List.pairwise_of_forall_mem_list
    intro a ha b hb
    simp [hsame a ha, hsame b hb]
  rw [List.splitBy_append, List.splitBy_of_isChain hgroup hchain, List.singleton_append]
  intro a ha b hb
  have hne := hothers b (List.mem_of_mem_head? hb)
  simpa [hsame a (List.mem_of_mem_getLast? ha)] using hne.symm

/-- The entries with the key of a first group are that group. -/
theorem filter_append_of_group {k : κ} {group others : List α} (hsame : ∀ a ∈ group, key a = k)
    (hothers : ∀ a ∈ others, key a ≠ k) :
    (group ++ others).filter (fun a => key a = k) = group := by
  have hin : group.filter (fun a => key a = k) = group := by simpa using hsame
  have hout : others.filter (fun a => key a = k) = [] := by simpa using hothers
  rw [List.filter_append, hin, hout, List.append_nil]

/-- The entries with another key stand behind a first group. -/
theorem filter_append_of_ne {k k' : κ} {group others : List α} (hsame : ∀ a ∈ group, key a = k)
    (hne : k' ≠ k) :
    (group ++ others).filter (fun a => key a = k') = others.filter fun a => key a = k' := by
  have hout : group.filter (fun a => key a = k') = [] := by
    rw [List.filter_eq_nil_iff]
    intro a ha hkey
    exact hne ((decide_eq_true_eq.mp hkey).symm.trans (hsame a ha))
  rw [List.filter_append, hout, List.nil_append]

variable {le : κ → κ → Prop} (hantisymm : ∀ a b, le a b → le b a → a = b)

include hantisymm

/-- A sorted list begins with all entries that have its first key. -/
theorem exists_first_group {a : α} {rest : List α}
    (hsorted : (a :: rest).Pairwise fun a b => le (key a) (key b)) :
    ∃ group others, a :: rest = group ++ others ∧ group ≠ [] ∧ (∀ b ∈ group, key b = key a) ∧
      ∀ b ∈ others, key b ≠ key a := by
  let same (b : α) : Bool := key b == key a
  obtain ⟨hfirst, hrest⟩ := List.pairwise_cons.mp hsorted
  have hsublist : (rest.dropWhile same).Sublist rest := List.dropWhile_sublist _
  refine ⟨a :: rest.takeWhile same, rest.dropWhile same, ?_, List.cons_ne_nil _ _, ?_, ?_⟩
  · rw [List.cons_append, List.takeWhile_append_dropWhile]
  · intro b hb
    rcases List.mem_cons.mp hb with rfl | hmem
    · rfl
    · simpa [same] using List.mem_takeWhile_imp hmem
  · intro b hb
    have hhead := List.head?_dropWhile_not same rest
    have hlater := hrest.sublist hsublist
    cases hdrop : rest.dropWhile same with
    | nil => simp [hdrop] at hb
    | cons other more =>
      rw [hdrop] at hb hlater hhead hsublist
      have hother : key other ≠ key a := by simpa [same] using hhead
      rcases List.mem_cons.mp hb with rfl | hmore
      · exact hother
      · intro hkey
        -- An entry with another key would stand between two that have the first one.
        have hle : le (key other) (key b) := (List.pairwise_cons.mp hlater).1 b hmore
        rw [hkey] at hle
        exact hother (hantisymm _ _ hle (hfirst other (hsublist.subset List.mem_cons_self)))

/-- A sorted list is cut into the groups of its keys, each of them once. -/
theorem exists_keys_splitBy {l : List α} (hsorted : l.Pairwise fun a b => le (key a) (key b)) :
    ∃ keys : List κ, keys.Nodup ∧ (∀ k, k ∈ keys ↔ k ∈ l.map key) ∧
      l.splitBy (fun a b => key a == key b) = keys.map fun k => l.filter fun a => key a = k := by
  -- The induction is on the length, because one step takes a whole group off the list.
  induction hlength : l.length using Nat.strongRecOn generalizing l with
  | ind n ih =>
    cases l with
    | nil => exact ⟨[], List.nodup_nil, by simp, rfl⟩
    | cons a rest =>
      obtain ⟨group, others, hsplit, hgroup, hsame, hothers⟩ :=
        exists_first_group hantisymm hsorted
      rw [hsplit] at hsorted hlength ⊢
      have hshorter : others.length < n := by
        have hpos := List.length_pos_iff.mpr hgroup
        rw [List.length_append] at hlength
        omega
      obtain ⟨keys, hnodup, hkeys, hcut⟩ :=
        ih others.length hshorter (List.pairwise_append.mp hsorted).2.1 rfl
      have hfresh : key a ∉ keys := by
        intro hmem
        obtain ⟨b, hb, hkey⟩ := List.mem_map.mp ((hkeys _).mp hmem)
        exact hothers b hb hkey
      refine ⟨key a :: keys, List.nodup_cons.mpr ⟨hfresh, hnodup⟩, ?_, ?_⟩
      · intro k
        rw [List.mem_cons, hkeys, List.map_append, List.mem_append,
          mem_map_key_group hgroup hsame]
      · have hlater (k : κ) (hk : k ∈ keys) :
            (group ++ others).filter (fun b => key b = k) = others.filter fun b => key b = k :=
          filter_append_of_ne hsame fun heq => hfresh (heq ▸ hk)
        rw [splitBy_append_group hgroup hsame hothers, hcut, List.map_cons,
          filter_append_of_group hsame hothers]
        exact congrArg (group :: ·) (List.map_congr_left fun k hk => (hlater k hk).symm)

end Groups

end CodeQuality
