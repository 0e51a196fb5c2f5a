import CodeQuality.Proofs.Analysis.Outcome
import CodeQuality.Proofs.Files.Walk

/-!
# What is discovered

The files that are analysed below a root are the regular files whose language is accepted and
whose path from the root on is not excluded. A selection sees only that path, and paths under a
root are ordered as the paths behind it are. So the discovery is the same list of places under
every root, put behind the root's path.
-/

namespace CodeQuality

open CodeQuality.Path (ofPlace under)

namespace Config

/-- Searching the default languages when none are given is accepting all supported ones. -/
theorem acceptsLanguage_eq (config : Config) (language : Language) :
    config.acceptsLanguage language = (language.isSupported &&
      (config.languages.getD Language.supported).contains language) := by
  rw [acceptsLanguage]
  cases config.languages with
  | none => cases language <;> rfl
  | some languages => rfl

/-- The file with this path from the root on is analysed. -/
def wants (config : Config) (relative : Path) : Bool :=
  config.acceptsLanguage (Language.ofPath relative) && !config.isExcluded relative

/-- The list has the files of a tree under a root that are analysed, each once and in the order of
their paths. -/
structure Discovers (config : Config) (tree : Tree) (root : Path) (found : List Path) : Prop where
  mem_iff : ∀ path, path ∈ found ↔ ∃ place, tree.HasFile place ∧
    path = under root (ofPlace place) ∧ config.acceptsLanguage (Language.ofPath path) = true ∧
    config.isExcluded (ofPlace place) = false
  pairwise_lt : found.Pairwise fun a b => Path.compare a b = .lt

/-- What is searched for under a root is what is analysed by its place. -/
theorem selects_under (config : Config) (root : Path) {place : List String}
    (hnames : ∀ name ∈ place, Path.isEntryName name = true) (hne : place ≠ []) :
    (config.walker root).selects (under root (ofPlace place)) = config.wants (ofPlace place) := by
  have hrelative : ((under root (ofPlace place)).behind? (config.walker root).root).getD
      (under root (ofPlace place)) = ofPlace place := by
    rw [show (config.walker root).root = root from rfl, Path.behind?_under hnames root hne]
    rfl
  simp only [Walker.selects, hrelative, Path.ofPath_under hnames root hne, wants,
    acceptsLanguage_eq]
  rfl

end Config

namespace Tree

variable {entries : List (String × Tree)} {yielded : List Path}

/-- A file in a folder stands at a place below it. -/
theorem HasFile.below {place : List String} (hfile : (folder entries).HasFile place)
    (hproper : (folder entries).isProper = true) :
    place ≠ [] ∧ ∀ name ∈ place, Path.isEntryName name = true := by
  constructor
  · rintro rfl
    exact not_hasFile_folder_nil entries hfile
  · obtain ⟨content, hcontent⟩ := hfile
    exact isEntryName_of_at? hproper hcontent

namespace IsWalk

/-- A walk through a folder leads to places below it. -/
theorem exists_place (hwalk : (folder entries).IsWalk yielded)
    (hproper : (folder entries).isProper = true) {path : Path} (hpath : path ∈ yielded) :
    ∃ place, place ≠ [] ∧ (∀ name ∈ place, Path.isEntryName name = true) ∧
      path = ofPlace place := by
  obtain ⟨place, hfile, rfl⟩ := (hwalk.mem_iff path).mp hpath
  obtain ⟨hne, hnames⟩ := hfile.below hproper
  exact ⟨place, hne, hnames, rfl⟩

/-- Two walks through a tree list the same files. -/
theorem perm {tree : Tree} (hwalk : tree.IsWalk yielded) {others : List Path}
    (hothers : tree.IsWalk others) : yielded.Perm others := by
  rw [List.perm_ext_iff_of_nodup hwalk.nodup hothers.nodup]
  intro path
  rw [hwalk.mem_iff, hothers.mem_iff]

/-- The paths of a walk are those of different places. -/
theorem nodup_components (hwalk : (folder entries).IsWalk yielded)
    (hproper : (folder entries).isProper = true) : (yielded.map Path.components).Nodup := by
  refine List.Nodup.map_on ?_ hwalk.nodup
  intro path hpath other hother heq
  obtain ⟨place, hne, hnames, rfl⟩ := hwalk.exists_place hproper hpath
  obtain ⟨place', hne', hnames', rfl⟩ := hwalk.exists_place hproper hother
  rw [Path.components_ofPlace hnames hne, Path.components_ofPlace hnames' hne'] at heq
  rw [List.map_injective_iff.mpr (fun _ _ => Path.Component.name.inj) heq]

end IsWalk

end Tree

namespace Config

variable (config : Config) {entries : List (String × Tree)} {yielded : List Path}

/-- The paths from the root on of the files that are analysed, in order. -/
def relatives (files : List Path) : List Path :=
  (files.filter config.wants).mergeSort Path.le

/-- A relative path is one of the walk that is analysed. -/
theorem mem_relatives {path : Path} :
    path ∈ config.relatives yielded ↔ path ∈ yielded ∧
      config.acceptsLanguage (Language.ofPath path) = true ∧ config.isExcluded path = false := by
  rw [relatives, List.mem_mergeSort, List.mem_filter, wants, Bool.and_eq_true, Bool.not_eq_true']

/-- The files that are analysed under a root are the relative ones put behind the root. -/
theorem discover_eq (hproper : (Tree.folder entries).isProper = true)
    (hwalk : (Tree.folder entries).IsWalk yielded) (root : Path) :
    config.discover root yielded = (config.relatives yielded).map (under root) := by
  have hselect : (yielded.map (under root)).filter (config.walker root).selects =
      (yielded.filter config.wants).map (under root) := by
    rw [List.filter_map]
    congr 1
    apply List.filter_congr
    intro path hpath
    obtain ⟨place, hne, hnames, rfl⟩ := hwalk.exists_place hproper hpath
    exact config.selects_under root hnames hne
  rw [discover, Walker.walk, show (config.walker root).root = root from rfl, hselect, relatives]
  symm
  apply List.map_mergeSort
  intro path hpath other hother
  obtain ⟨place, hne, hnames, rfl⟩ := hwalk.exists_place hproper (List.mem_of_mem_filter hpath)
  obtain ⟨place', hne', hnames', rfl⟩ := hwalk.exists_place hproper (List.mem_of_mem_filter hother)
  rw [Path.le, Path.le, Path.compare_under hnames root hne hnames' hne']

/-- The relative paths are in strictly increasing order. -/
theorem pairwise_relatives (hproper : (Tree.folder entries).isProper = true)
    (hwalk : (Tree.folder entries).IsWalk yielded) :
    (config.relatives yielded).Pairwise fun a b => Path.compare a b = .lt :=
  Path.pairwise_lt_mergeSort
    ((hwalk.nodup_components hproper).sublist (List.filter_sublist.map Path.components))

/-- The relative paths do not depend on the order of the walk. -/
theorem relatives_eq (hproper : (Tree.folder entries).isProper = true)
    (hwalk : (Tree.folder entries).IsWalk yielded) {others : List Path}
    (hothers : (Tree.folder entries).IsWalk others) :
    config.relatives yielded = config.relatives others := by
  refine List.Perm.eq_of_pairwise ?_ (config.pairwise_relatives hproper hwalk)
    (config.pairwise_relatives hproper hothers) ?_
  · intro a b _ _ hab hba
    exact absurd hba (Std.OrientedCmp.not_lt_of_lt hab)
  · have hselected := (hwalk.perm hothers).filter config.wants
    exact (List.mergeSort_perm _ _).trans (hselected.trans (List.mergeSort_perm _ _).symm)

/-- What is discovered in a folder under a root. -/
theorem discovers_discover (hproper : (Tree.folder entries).isProper = true)
    (hwalk : (Tree.folder entries).IsWalk yielded) (root : Path) :
    config.Discovers (.folder entries) root (config.discover root yielded) where
  mem_iff path := by
    rw [config.discover_eq hproper hwalk root, List.mem_map]
    constructor
    · rintro ⟨relative, hrelative, rfl⟩
      obtain ⟨hmem, haccepts, hexcluded⟩ := config.mem_relatives.mp hrelative
      obtain ⟨place, hfile, rfl⟩ := (hwalk.mem_iff relative).mp hmem
      obtain ⟨hne, hnames⟩ := hfile.below hproper
      refine ⟨place, hfile, rfl, ?_, hexcluded⟩
      rwa [Path.ofPath_under hnames root hne]
    · rintro ⟨place, hfile, rfl, haccepts, hexcluded⟩
      obtain ⟨hne, hnames⟩ := hfile.below hproper
      rw [Path.ofPath_under hnames root hne] at haccepts
      have hmem : ofPlace place ∈ yielded := (hwalk.mem_iff _).mpr ⟨place, hfile, rfl⟩
      exact ⟨ofPlace place, config.mem_relatives.mpr ⟨hmem, haccepts, hexcluded⟩, rfl⟩
  pairwise_lt := by
    rw [config.discover_eq hproper hwalk root, List.pairwise_map]
    refine (config.pairwise_relatives hproper hwalk).imp_of_mem ?_
    intro a b ha hb hlt
    obtain ⟨place, hne, hnames, rfl⟩ :=
      hwalk.exists_place hproper (config.mem_relatives.mp ha).1
    obtain ⟨place', hne', hnames', rfl⟩ :=
      hwalk.exists_place hproper (config.mem_relatives.mp hb).1
    rwa [Path.compare_under hnames root hne hnames' hne']

/-- Behind the root, the files that are analysed are the relative ones. -/
theorem map_behind?_discover (hproper : (Tree.folder entries).isProper = true)
    (hwalk : (Tree.folder entries).IsWalk yielded) (root : Path) :
    (config.discover root yielded).map (fun path => path.behind? root) =
      (config.relatives yielded).map some := by
  rw [config.discover_eq hproper hwalk root, List.map_map]
  apply List.map_congr_left
  intro relative hrelative
  obtain ⟨place, hne, hnames, rfl⟩ :=
    hwalk.exists_place hproper (config.mem_relatives.mp hrelative).1
  exact Path.behind?_under hnames root hne

end Config

/-- On a disk with a folder at the root, the files to analyse are those discovered in it. -/
theorem Desk.run_filesToAnalyze (config : Config) {desk : Desk} {root : Path}
    {entries : List (String × Tree)} (hfind : desk.disk.find? root = some (.folder entries))
    (hroot : root.isStandardInput = false) :
    (filesToAnalyze config root : ExceptT AnalysisError (StateM Desk) _).run.run desk =
      (.ok (config.discover root (Tree.folder entries).files), desk) := by
  have hkind : (liftM (Host.kind? root : StateM Desk _) :
      ExceptT AnalysisError (StateM Desk) _).run.run desk =
      (.ok ((desk.disk.find? root).bind Tree.kind?), desk) := rfl
  have hbelow : (Host.filesBelow root : StateM Desk _) =
      (do return .ok (((← get).disk.find? root).elim [] Tree.files)) :=
    if_neg (by simp [hroot])
  have hfiles : (liftM (Host.filesBelow root : StateM Desk _) :
      ExceptT AnalysisError (StateM Desk) _).run.run desk =
      (.ok (.ok ((desk.disk.find? root).elim [] Tree.files)), desk) := by
    rw [hbelow]
    rfl
  rw [hfind] at hkind hfiles
  rw [filesToAnalyze, run_bind_ok hkind]
  exact run_bind_ok hfiles _

/-- For every tree, root and configuration, the files that are analysed are exactly the regular
files below the root whose language is accepted and whose path from the root on is not excluded,
each once and in strictly increasing order. The same tree under any other root, walked in any
order, has the same relative paths. -/
theorem discover_exact (config : Config) {entries : List (String × Tree)}
    (hproper : (Tree.folder entries).isProper = true) {yielded : List Path}
    (hwalk : (Tree.folder entries).IsWalk yielded) (root : Path) :
    config.Discovers (.folder entries) root (config.discover root yielded) ∧
      (∃ relatives : List Path, ∀ other others, (Tree.folder entries).IsWalk others →
        config.discover other others = relatives.map (under other) ∧
          (config.discover other others).map (fun path => path.behind? other) =
            relatives.map some) ∧
      ∀ desk : Desk, desk.disk.find? root = some (.folder entries) →
        root.isStandardInput = false →
          (filesToAnalyze config root : ExceptT AnalysisError (StateM Desk) _).run.run desk =
            (.ok (config.discover root yielded), desk) := by
  refine ⟨config.discovers_discover hproper hwalk root, ⟨config.relatives yielded, ?_⟩, ?_⟩
  · intro other others hothers
    rw [config.map_behind?_discover hproper hothers, config.discover_eq hproper hothers,
      config.relatives_eq hproper hothers hwalk]
    exact ⟨rfl, rfl⟩
  · intro desk hfind hroot
    have hfiles := Tree.isWalk_files hproper
    rw [Desk.run_filesToAnalyze config hfind hroot, config.discover_eq hproper hfiles,
      config.discover_eq hproper hwalk, config.relatives_eq hproper hfiles hwalk]

/-- A tree with a folder that is excluded by its name, below a folder of that name. -/
theorem discover_exact_build :
    let file := Tree.file .empty
    let entries := [("src", Tree.folder [("util.PY", file), ("main.go", file), ("up", .link "/")]),
      ("build", .folder [("gen.go", file)]), ("README.md", file)]
    let config : Config := { languages := some [.unsupported, .go, .python, .go] }
    let desk : Desk := { disk := { top := .folder [("build", .folder [("p", .folder entries)])] } }
    (filesToAnalyze config "/build/p" : ExceptT AnalysisError (StateM Desk) _).run.run desk =
        (.ok ["/build/p/src/main.go", "/build/p/src/util.PY"], desk) ∧
      config.discover "./" (Tree.folder entries).files = ["./src/main.go", "./src/util.PY"] ∧
      config.Discovers (.folder entries) "./" ["./src/main.go", "./src/util.PY"] := by
  intro file entries config desk
  have hproper : (Tree.folder entries).isProper = true := by decide +kernel
  have hwalk := Tree.isWalk_files hproper
  have hfind (below : List (String × Tree)) : Disk.find?
      { top := .folder [("build", .folder [("p", .folder below)])] } "/build/p" =
        some (.folder below) := by
    have hsteps : Disk.steps "/build/p" = ["build", "p"] := by decide +kernel
    have habsolute : Path.isAbsolute "/build/p" = true := by decide +kernel
    simp [Disk.find?, Disk.locate, Disk.origin, habsolute, hsteps, Disk.follow, Tree.at?,
      Tree.lookup]
  have hrelatives : config.relatives (Tree.folder entries).files =
      ["src/main.go", "src/util.PY"] := by
    have hwanted : (Tree.folder entries).files.filter config.wants =
        ["src/util.PY", "src/main.go"] := by decide +kernel
    have horder : Path.le "src/util.PY" "src/main.go" = false := by decide +kernel
    rw [Config.relatives, hwanted]
    simp [List.mergeSort, horder]
  have hrooted : config.discover "/build/p" (Tree.folder entries).files =
      ["/build/p/src/main.go", "/build/p/src/util.PY"] := by
    rw [config.discover_eq hproper hwalk, hrelatives]
    decide +kernel
  have hcurrent : config.discover "./" (Tree.folder entries).files =
      ["./src/main.go", "./src/util.PY"] := by
    rw [config.discover_eq hproper hwalk, hrelatives]
    decide +kernel
  obtain ⟨-, -, hrun⟩ := discover_exact config hproper hwalk "/build/p"
  obtain ⟨hdiscovers, -, -⟩ := discover_exact config hproper hwalk "./"
  rw [hrooted] at hrun
  rw [hcurrent] at hdiscovers
  exact ⟨hrun desk (hfind entries) (by decide +kernel), hcurrent, hdiscovers⟩

end CodeQuality
