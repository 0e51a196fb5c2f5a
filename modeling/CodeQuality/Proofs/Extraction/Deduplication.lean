import CodeQuality.Proofs.Extraction.Record

/-!
# Leaving out repeated functions

Several patterns of a language can match one declaration, and each match makes a record. Unless
duplicates are asked for, of the records with one name and line the first one stands for all.
Which records these are is said here by their places in the full list, without the names and
lines that the code remembers on its way through it. Nothing but the functions of an inventory
depends on the choice.
-/

namespace CodeQuality

namespace FunctionRecord

/-- What the records of one function have in common: its name and the line it begins on. -/
def site (record : FunctionRecord) : String × Nat :=
  (record.name, record.startLine)

/-- The records that have no record of the same site before them, in their order. -/
def firstAtSite (records : List FunctionRecord) : List FunctionRecord :=
  (records.zipIdx.filter fun (entry : FunctionRecord × Nat) =>
    decide (∀ earlier ∈ records.take entry.2, earlier.site ≠ entry.1.site)).map Prod.fst

end FunctionRecord

open FunctionRecord

/-- A record is kept when its site has not been seen, and its site is seen from then on. -/
theorem firstOccurrences_cons (seen : List (String × Nat)) (record : FunctionRecord)
    (rest : List FunctionRecord) :
    firstOccurrences seen (record :: rest) =
      if record.site ∈ seen then firstOccurrences seen rest
      else record :: firstOccurrences (record.site :: seen) rest := by
  rw [firstOccurrences]
  simp only [List.contains_iff_mem]
  rfl

/-- From the middle of a list on, records are kept by the sites of all records before them. -/
theorem firstOccurrences_eq_filter (before records : List FunctionRecord)
    {seen : List (String × Nat)} (hseen : ∀ s, s ∈ seen ↔ s ∈ before.map site) :
    firstOccurrences seen records =
      ((records.zipIdx before.length).filter fun (entry : FunctionRecord × Nat) =>
        decide (∀ earlier ∈ (before ++ records).take entry.2,
          earlier.site ≠ entry.1.site)).map Prod.fst := by
  -- The records before are carried along as a list, since places count them all, and the sites
  -- seen as a set, since a repeated site is not added again.
  induction records generalizing before seen with
  | nil => rfl
  | cons record rest ih =>
    have hbefore : (before ++ record :: rest).take before.length = before := by simp
    have hnext : before ++ record :: rest = before ++ [record] ++ rest := by simp
    have hlength : before.length + 1 = (before ++ [record]).length := by simp
    rw [firstOccurrences_cons, List.zipIdx_cons, List.filter_cons]
    simp only [hbefore, hseen]
    by_cases hrepeat : record.site ∈ before.map site
    · have hsome : ¬ ∀ earlier ∈ before, earlier.site ≠ record.site := by simpa using hrepeat
      rw [if_pos hrepeat, if_neg (by simpa using hsome), hnext, hlength]
      refine ih (before ++ [record]) fun s => ?_
      rw [hseen, List.map_append, List.mem_append, List.map_singleton, List.mem_singleton]
      constructor
      · exact Or.inl
      · rintro (hs | rfl)
        · exact hs
        · exact hrepeat
    · have hnone : ∀ earlier ∈ before, earlier.site ≠ record.site := by simpa using hrepeat
      rw [if_neg hrepeat, if_pos (by simpa using hnone), List.map_cons, hnext, hlength]
      refine congrArg (record :: ·) (ih (before ++ [record]) fun s => ?_)
      rw [List.mem_cons, hseen, List.map_append, List.mem_append, List.map_singleton,
        List.mem_singleton, or_comm]

/-- The sites of the kept records are those of all records that have not been seen. -/
theorem mem_map_site_firstOccurrences {seen : List (String × Nat)}
    {records : List FunctionRecord} {s : String × Nat} :
    s ∈ (firstOccurrences seen records).map site ↔ s ∈ records.map site ∧ s ∉ seen := by
  induction records generalizing seen with
  | nil => simp [firstOccurrences]
  | cons record rest ih =>
    rw [firstOccurrences_cons, List.map_cons, List.mem_cons]
    split
    · rename_i hseen
      rw [ih]
      constructor
      · rintro ⟨hs, hnew⟩
        exact ⟨Or.inr hs, hnew⟩
      · rintro ⟨rfl | hs, hnew⟩
        · exact absurd hseen hnew
        · exact ⟨hs, hnew⟩
    · rename_i hnew
      rw [List.map_cons, List.mem_cons, ih, List.mem_cons, not_or]
      constructor
      · rintro (rfl | ⟨hs, -, hseen⟩)
        · exact ⟨Or.inl rfl, hnew⟩
        · exact ⟨Or.inr hs, hseen⟩
      · rintro ⟨hs, hseen⟩
        by_cases hsame : s = record.site
        · exact Or.inl hsame
        · exact Or.inr ⟨hs.resolve_left hsame, hsame, hseen⟩

/-- No two kept records share a site. -/
theorem nodup_map_site_firstOccurrences (seen : List (String × Nat))
    (records : List FunctionRecord) : ((firstOccurrences seen records).map site).Nodup := by
  induction records generalizing seen with
  | nil => exact List.nodup_nil
  | cons record rest ih =>
    rw [firstOccurrences_cons]
    split
    · exact ih seen
    · rw [List.map_cons, List.nodup_cons]
      refine ⟨fun hmem => ?_, ih _⟩
      exact (mem_map_site_firstOccurrences.mp hmem).2 List.mem_cons_self

/-- The inventory is another one without the functions that repeat an earlier site. -/
structure Inventory.Deduplicates (kept raw : Inventory) : Prop where
  /-- The functions kept are the first ones at their sites. -/
  functions_eq : kept.functions = firstAtSite raw.functions
  functions_sublist : kept.functions.Sublist raw.functions
  nodup_sites : (kept.functions.map site).Nodup
  mem_sites : ∀ s, s ∈ kept.functions.map site ↔ s ∈ raw.functions.map site
  path_eq : kept.path = raw.path
  language_eq : kept.language = raw.language
  content_eq : kept.content = raw.content
  lines_eq : kept.lines = raw.lines
  classes_eq : kept.classes = raw.classes
  vars_eq : kept.vars = raw.vars

/-- Extraction without duplicates finds what extraction with duplicates finds, less the functions
that repeat the name and line of an earlier one. -/
theorem extract_deduplicates (path : Path) (text : String) (language : Language) :
    (extract { deduplicate := true } path text language).Deduplicates
      (extract { deduplicate := false } path text language) := by
  have hextract : extract { deduplicate := true } path text language =
      { extract { deduplicate := false } path text language with
        functions := firstOccurrences []
          (extract { deduplicate := false } path text language).functions } := by
    rw [extract, extract]
    cases Rules.of? language <;> rfl
  rw [hextract]
  generalize extract { deduplicate := false } path text language = raw
  exact {
    functions_eq := firstOccurrences_eq_filter [] raw.functions fun s => Iff.rfl
    functions_sublist := firstOccurrences_sublist [] raw.functions
    nodup_sites := nodup_map_site_firstOccurrences [] raw.functions
    mem_sites := fun s => by
      rw [mem_map_site_firstOccurrences]
      simp
    path_eq := rfl
    language_eq := rfl
    content_eq := rfl
    lines_eq := rfl
    classes_eq := rfl
    vars_eq := rfl }

end CodeQuality
