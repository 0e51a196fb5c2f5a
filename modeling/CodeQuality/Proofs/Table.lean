import CodeQuality.Table
import Mathlib.Data.List.Perm.Basic
import Mathlib.Data.String.Basic

/-!
# What a table holds

Setting an entry changes what stands under its name and nothing else. A table that is built by
setting entries has its names in order, so two such tables with the same names list them alike.
-/

namespace CodeQuality.Table

variable {α β : Type}

@[simp] theorem get?_empty (name : String) : ({} : Table α).get? name = none := rfl

@[simp] theorem keys_empty : ({} : Table α).keys = [] := rfl

/-- Under the name of an entry that was set stands that entry, and under other names what stood
there before. -/
@[simp] theorem get?_insert (table : Table α) (key name : String) (value : α) :
    (table.insert key value).get? name = if name = key then some value else table.get? name := by
  obtain ⟨entries⟩ := table
  simp only [insert, get?]
  induction entries with
  | nil => by_cases hname : name = key <;> simp [insertEntry, hname, eq_comm]
  | cons entry rest ih =>
    obtain ⟨other, old⟩ := entry
    rw [insertEntry]
    split
    · rename_i hsame
      rcases eq_or_ne name key with rfl | hname
      · simp
      · simp [← hsame, hname, hname.symm]
    · rename_i hne
      split
      · rcases eq_or_ne name key with rfl | hname
        · simp
        · simp [hname, hname.symm]
      · by_cases hother : other = name
        · subst hother
          simp [Ne.symm hne]
        · simpa [hother] using ih

/-- The names of a table with an entry set are its own and the one of the entry. -/
@[simp] theorem mem_keys_insert (table : Table α) (key name : String) (value : α) :
    name ∈ (table.insert key value).keys ↔ name = key ∨ name ∈ table.keys := by
  obtain ⟨entries⟩ := table
  simp only [insert, keys]
  induction entries with
  | nil => simp [insertEntry]
  | cons entry rest ih =>
    obtain ⟨other, old⟩ := entry
    rw [insertEntry]
    split
    · rename_i hsame
      simp [hsame]
    · split
      · simp
      · simp only [List.map_cons, List.mem_cons, ih]
        exact or_left_comm

/-- The entries of a table with one set are that one and entries of the table. -/
theorem eq_or_mem_of_mem_insert {table : Table α} {key : String} {value : α}
    {entry : String × α} (h : entry ∈ (table.insert key value).entries) :
    entry = (key, value) ∨ entry ∈ table.entries := by
  obtain ⟨entries⟩ := table
  simp only [insert] at h ⊢
  induction entries with
  | nil => exact Or.inl (List.mem_singleton.mp h)
  | cons first rest ih =>
    rw [insertEntry] at h
    split at h
    · exact (List.mem_cons.mp h).imp_right (List.mem_cons_of_mem first)
    · split at h
      · exact List.mem_cons.mp h
      · rcases List.mem_cons.mp h with rfl | hrest
        · exact Or.inr List.mem_cons_self
        · exact (ih hrest).imp_right (List.mem_cons_of_mem first)

/-- Something stands under a name if and only if it is among the names. -/
theorem mem_keys_iff (table : Table α) (name : String) :
    name ∈ table.keys ↔ (table.get? name).isSome = true := by
  simp [keys, get?]

@[simp] theorem keys_map (change : α → β) (table : Table α) :
    (table.map change).keys = table.keys := by
  simp [keys, map]

/-- The names are in order, each once. -/
def IsSorted (table : Table α) : Prop :=
  table.keys.Pairwise (· < ·)

theorem isSorted_empty : IsSorted ({} : Table α) :=
  List.Pairwise.nil

/-- Setting an entry keeps the names in order. -/
theorem IsSorted.insert {table : Table α} (h : table.IsSorted) (key : String) (value : α) :
    (table.insert key value).IsSorted := by
  obtain ⟨entries⟩ := table
  simp only [IsSorted, keys, Table.insert] at h ⊢
  induction entries with
  | nil => simp [insertEntry]
  | cons entry rest ih =>
    obtain ⟨other, old⟩ := entry
    obtain ⟨hfirst, hrest⟩ := List.pairwise_cons.mp h
    rw [insertEntry]
    split
    · rename_i hsame
      rw [hsame]
      exact h
    · rename_i hne
      split
      · rename_i hless
        refine List.pairwise_cons.mpr ⟨?_, h⟩
        intro name hname
        rcases List.mem_cons.mp hname with rfl | hname
        · exact hless
        · exact hless.trans (hfirst name hname)
      · rename_i hnot
        refine List.pairwise_cons.mpr ⟨?_, ih hrest⟩
        intro name hname
        have hmem : name = key ∨ name ∈ keys ⟨rest⟩ :=
          (mem_keys_insert ⟨rest⟩ key name value).mp hname
        rcases hmem with rfl | hname
        · exact lt_of_le_of_ne (not_lt.mp hnot) (Ne.symm hne)
        · exact hfirst name hname

/-- Tables in order with the same names list them alike. -/
theorem IsSorted.keys_eq {table : Table α} {other : Table β} (h : table.IsSorted)
    (hother : other.IsSorted) (hsame : ∀ name, name ∈ table.keys ↔ name ∈ other.keys) :
    table.keys = other.keys := by
  have hperm : table.keys.Perm other.keys :=
    (List.perm_ext_iff_of_nodup (h.imp ne_of_lt) (hother.imp ne_of_lt)).mpr hsame
  exact hperm.eq_of_pairwise (fun a b _ _ hab hba => absurd hab hba.asymm) h hother

section Fold

variable {γ : Type} (items : List γ) (key : γ → String)

/-- Entries set one after the other: under each name stands the last one of that name. -/
theorem get?_foldl_insert (value : γ → α) (table : Table α) (name : String) :
    (items.foldl (fun table item => table.insert (key item) (value item)) table).get? name =
      ((items.filter fun item => key item = name).getLast?.map value).or (table.get? name) := by
  induction items generalizing table with
  | nil => simp
  | cons item rest ih =>
    rw [List.foldl_cons, ih, get?_insert]
    by_cases hname : key item = name
    · cases hlast : (rest.filter fun item => key item = name).getLast? <;>
        simp [hname, List.getLast?_cons, hlast]
    · simp [hname, Ne.symm hname]

/-- The entries of a table that has been filled are its first ones and those that were set. -/
theorem mem_or_exists_of_mem_foldl_insert (value : γ → α) {table : Table α} {entry : String × α}
    (h : entry ∈ (items.foldl (fun table item => table.insert (key item) (value item))
      table).entries) :
    entry ∈ table.entries ∨ ∃ item ∈ items, entry = (key item, value item) := by
  induction items generalizing table with
  | nil => exact Or.inl h
  | cons item rest ih =>
    rcases ih h with hfirst | ⟨other, hother, hentry⟩
    · rcases eq_or_mem_of_mem_insert hfirst with hentry | hfirst
      · exact Or.inr ⟨item, List.mem_cons_self, hentry⟩
      · exact Or.inl hfirst
    · exact Or.inr ⟨other, List.mem_cons_of_mem item hother, hentry⟩

/-- Of entries with different names each stands under its own. -/
theorem filter_key_eq_singleton (hkeys : (items.map key).Nodup) {item : γ} (h : item ∈ items) :
    (items.filter fun other => key other = key item) = [item] := by
  induction items with
  | nil => simp at h
  | cons first rest ih =>
    obtain ⟨hfirst, hrest⟩ := List.nodup_cons.mp hkeys
    rcases List.mem_cons.mp h with rfl | h
    · have hnone : (rest.filter fun other => key other = key item) = [] := by
        rw [List.filter_eq_nil_iff]
        intro other hother heq
        exact hfirst (List.mem_map.mpr ⟨other, hother, by simpa using heq⟩)
      simp [hnone]
    · have hne : key first ≠ key item := fun heq => hfirst (heq ▸ List.mem_map_of_mem h)
      simpa [hne] using ih hrest h

variable {step : Table α → γ → Table α}
  (hstep : ∀ table item, ∃ value, step table item = table.insert (key item) value)
include hstep

/-- The names of a table that has been filled step by step are those of the items. -/
theorem mem_keys_foldl (table : Table α) (name : String) :
    name ∈ (items.foldl step table).keys ↔ name ∈ items.map key ∨ name ∈ table.keys := by
  induction items generalizing table with
  | nil => simp
  | cons item rest ih =>
    obtain ⟨value, hvalue⟩ := hstep table item
    rw [List.foldl_cons, ih, hvalue, mem_keys_insert, List.map_cons, List.mem_cons]
    exact or_left_comm.trans or_assoc.symm

/-- A table that has been filled step by step stays in order. -/
theorem IsSorted.foldl {table : Table α} (h : table.IsSorted) :
    (items.foldl step table).IsSorted := by
  induction items generalizing table with
  | nil => exact h
  | cons item rest ih =>
    obtain ⟨value, hvalue⟩ := hstep table item
    rw [List.foldl_cons, hvalue]
    exact ih (h.insert (key item) value)

end Fold

end CodeQuality.Table
