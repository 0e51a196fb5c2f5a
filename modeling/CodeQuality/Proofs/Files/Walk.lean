import CodeQuality.Files.Disk
import CodeQuality.Proofs.Path.Place
import Mathlib.Data.List.Nodup

/-!
# Walks through a file tree

A walk lists the paths of all regular files in a tree, each of them once and in any order. In a
proper tree, where the entries of a folder have different names, the files of a tree are such a
walk: they stand at different places, and different places have different paths.
-/

namespace CodeQuality.Tree

open CodeQuality.Path (ofPlace isEntryName)

mutual

/-- The entries of each folder in the tree have names of their own. -/
def isProper : Tree → Bool
  | file _ => true
  | link _ => true
  | folder entries => entriesProper entries

/-- The entries have names of their own, and so have those below them. -/
def entriesProper : List (String × Tree) → Bool
  | [] => true
  | (name, tree) :: rest =>
    isEntryName name && !(rest.map Prod.fst).contains name && isProper tree && entriesProper rest

end

/-- A regular file stands at the place. -/
def HasFile (tree : Tree) (place : List String) : Prop :=
  ∃ content, tree.at? place = some (file content)

/-- The list has the paths of all regular files in the tree, each of them once. -/
structure IsWalk (tree : Tree) (paths : List Path) : Prop where
  nodup : paths.Nodup
  mem_iff : ∀ path, path ∈ paths ↔ ∃ place, tree.HasFile place ∧ path = ofPlace place

mutual

/-- The places of all regular files. -/
def places : Tree → List (List String)
  | file _ => [[]]
  | link _ => []
  | folder entries => entryPlaces entries

/-- The places of all regular files below the entries of a folder. -/
def entryPlaces : List (String × Tree) → List (List String)
  | [] => []
  | (name, tree) :: rest => (places tree).map (List.cons name) ++ entryPlaces rest

end

/-! ## Proper entries -/

/-- The first of some proper entries has a name of its own. -/
theorem entriesProper_cons {name : String} {tree : Tree} {rest : List (String × Tree)}
    (h : entriesProper ((name, tree) :: rest) = true) :
    isEntryName name = true ∧ name ∉ rest.map Prod.fst ∧ tree.isProper = true ∧
      entriesProper rest = true := by
  simpa only [entriesProper, Bool.and_eq_true, Bool.not_eq_true', List.contains_eq_mem,
    decide_eq_false_iff_not, and_assoc] using h

/-- An entry that is found has its name in the list. -/
theorem mem_of_lookup {name : String} {tree : Tree} {entries : List (String × Tree)}
    (h : lookup name entries = some tree) : name ∈ entries.map Prod.fst := by
  induction entries with
  | nil => simp [lookup] at h
  | cons entry rest ih =>
    rw [lookup] at h
    split at h
    · rename_i heq
      simp [eq_of_beq heq]
    · exact List.mem_cons_of_mem _ (ih h)

/-- An entry that is found among proper ones is proper. -/
theorem isProper_of_lookup {name : String} {tree : Tree} {entries : List (String × Tree)}
    (hproper : entriesProper entries = true) (h : lookup name entries = some tree) :
    isEntryName name = true ∧ tree.isProper = true := by
  induction entries with
  | nil => simp [lookup] at h
  | cons entry rest ih =>
    obtain ⟨hname, -, htree, hrest⟩ := entriesProper_cons hproper
    rw [lookup] at h
    split at h
    · rename_i heq
      obtain rfl := eq_of_beq heq
      obtain rfl := Option.some.inj h
      exact ⟨hname, htree⟩
    · exact ih hrest h

/-- The names that lead to a place in a proper tree are entry names. -/
theorem isEntryName_of_at? {tree found : Tree} {place : List String}
    (hproper : tree.isProper = true) (h : tree.at? place = some found) :
    ∀ name ∈ place, isEntryName name = true := by
  induction place generalizing tree with
  | nil => simp
  | cons name rest ih =>
    cases tree with
    | file content => simp [at?] at h
    | link target => simp [at?] at h
    | folder entries =>
      rw [at?] at h
      split at h
      · rename_i sub hlookup
        rw [isProper] at hproper
        obtain ⟨hname, hsub⟩ := isProper_of_lookup hproper hlookup
        exact List.forall_mem_cons.mpr ⟨hname, ih hsub h⟩
      · simp at h

/-! ## Places of files -/

/-- The files of a folder stand below its entries. -/
theorem hasFile_folder_cons {name first : String} {tree : Tree} {rest : List (String × Tree)}
    {place : List String} :
    (folder ((first, tree) :: rest)).HasFile (name :: place) ↔
      if first = name then tree.HasFile place else (folder rest).HasFile (name :: place) := by
  by_cases h : first = name <;> simp [HasFile, at?, lookup, h]

/-- A folder is no file. -/
theorem not_hasFile_folder_nil (entries : List (String × Tree)) :
    ¬ (folder entries).HasFile [] := by
  simp [HasFile, at?]

/-- What stands below entries stands below one of them. -/
theorem mem_of_hasFile_folder {name : String} {place : List String}
    {entries : List (String × Tree)} (h : (folder entries).HasFile (name :: place)) :
    name ∈ entries.map Prod.fst := by
  obtain ⟨content, hcontent⟩ := h
  rw [at?] at hcontent
  split at hcontent
  · rename_i hlookup
    exact mem_of_lookup hlookup
  · simp at hcontent

mutual

/-- The places of a proper tree are those where a file stands. -/
theorem mem_places {tree : Tree} (hproper : tree.isProper = true) (place : List String) :
    place ∈ tree.places ↔ tree.HasFile place := by
  cases tree with
  | file content => cases place <;> simp [places, HasFile, at?]
  | link target => cases place <;> simp [places, HasFile, at?]
  | folder entries => exact mem_entryPlaces (by rwa [isProper] at hproper) place

/-- The places below proper entries are those of their folder where a file stands. -/
theorem mem_entryPlaces {entries : List (String × Tree)} (hproper : entriesProper entries = true)
    (place : List String) : place ∈ entryPlaces entries ↔ (folder entries).HasFile place := by
  cases entries with
  | nil => cases place <;> simp [entryPlaces, HasFile, at?, lookup]
  | cons entry rest =>
    obtain ⟨first, tree⟩ := entry
    obtain ⟨-, hfirst, htree, hrest⟩ := entriesProper_cons hproper
    rw [entryPlaces, List.mem_append, List.mem_map]
    cases place with
    | nil =>
      have hnil := mem_entryPlaces hrest []
      simp [hnil, not_hasFile_folder_nil]
    | cons name place =>
      rw [hasFile_folder_cons, mem_entryPlaces hrest (name :: place)]
      split
      · rename_i heq
        subst heq
        have hother : ¬ (folder rest).HasFile (first :: place) := fun hfile =>
          hfirst (mem_of_hasFile_folder hfile)
        rw [or_iff_left hother, ← mem_places htree place]
        simp
      · rename_i hne
        exact or_iff_right (by simp [hne])

end

mutual

/-- No place of a proper tree is listed twice. -/
theorem nodup_places {tree : Tree} (hproper : tree.isProper = true) : tree.places.Nodup := by
  cases tree with
  | file content => simp [places]
  | link target => simp [places]
  | folder entries => exact nodup_entryPlaces (by rwa [isProper] at hproper)

/-- No place below proper entries is listed twice. -/
theorem nodup_entryPlaces {entries : List (String × Tree)}
    (hproper : entriesProper entries = true) : (entryPlaces entries).Nodup := by
  cases entries with
  | nil => simp [entryPlaces]
  | cons entry rest =>
    obtain ⟨first, tree⟩ := entry
    obtain ⟨-, hfirst, htree, hrest⟩ := entriesProper_cons hproper
    rw [entryPlaces, List.nodup_append']
    refine ⟨(nodup_places htree).map (List.cons_injective), nodup_entryPlaces hrest, ?_⟩
    intro place hleft hright
    obtain ⟨below, -, rfl⟩ := List.mem_map.mp hleft
    exact hfirst (mem_of_hasFile_folder ((mem_entryPlaces hrest _).mp hright))

end

/-! ## Paths of files -/

/-- The path behind a name is the one of the place behind it. -/
theorem inside_ofPlace (name : String) {place : List String}
    (hnames : ∀ name ∈ place, isEntryName name = true) :
    inside name (ofPlace place) = ofPlace (name :: place) := by
  by_cases hne : place = []
  · subst hne
    simp [inside, ofPlace]
  · rw [inside, if_neg (by simpa using Path.ofPlace_ne hnames hne), ofPlace, ofPlace,
      String.intercalate_cons_of_ne_nil hne]

mutual

/-- The files of a proper tree are the paths of its places. -/
theorem files_eq {tree : Tree} (hproper : tree.isProper = true) :
    tree.files = tree.places.map ofPlace := by
  cases tree with
  | file content => simp [files, places, ofPlace]
  | link target => simp [files, places]
  | folder entries => exact entryFiles_eq (by rwa [isProper] at hproper)

/-- The files below proper entries are the paths of the places below them. -/
theorem entryFiles_eq {entries : List (String × Tree)} (hproper : entriesProper entries = true) :
    entryFiles entries = (entryPlaces entries).map ofPlace := by
  cases entries with
  | nil => simp [entryFiles, entryPlaces]
  | cons entry rest =>
    obtain ⟨first, tree⟩ := entry
    obtain ⟨-, -, htree, hrest⟩ := entriesProper_cons hproper
    rw [entryFiles, entryPlaces, List.map_append, entryFiles_eq hrest, files_eq htree,
      List.map_map, List.map_map]
    congr 1
    apply List.map_congr_left
    intro place hplace
    obtain ⟨content, hcontent⟩ := (mem_places htree place).mp hplace
    exact inside_ofPlace first (isEntryName_of_at? htree hcontent)

end

/-- The files of a proper tree are a walk through it. -/
theorem isWalk_files {tree : Tree} (hproper : tree.isProper = true) : tree.IsWalk tree.files where
  nodup := by
    rw [files_eq hproper]
    refine List.Nodup.map_on ?_ (nodup_places hproper)
    intro place hplace other hother heq
    obtain ⟨_, hcontent⟩ := (mem_places hproper place).mp hplace
    obtain ⟨_, hothers⟩ := (mem_places hproper other).mp hother
    exact Path.ofPlace_injective (isEntryName_of_at? hproper hcontent)
      (isEntryName_of_at? hproper hothers) heq
  mem_iff path := by
    rw [files_eq hproper, List.mem_map]
    constructor
    · rintro ⟨place, hplace, rfl⟩
      exact ⟨place, (mem_places hproper place).mp hplace, rfl⟩
    · rintro ⟨place, hfile, rfl⟩
      exact ⟨place, (mem_places hproper place).mpr hfile, rfl⟩

end CodeQuality.Tree
