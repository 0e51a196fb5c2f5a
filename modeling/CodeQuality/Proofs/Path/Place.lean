import CodeQuality.Language
import CodeQuality.Proofs.Path.Order

/-!
# Paths of places

A place below a folder is a list of entry names, and its path is written with slashes between
them. Put under a root, the path has the root's components and then the names of the place. So it
can be taken apart again: what stands behind the root is the path of the place, whatever the root
is called.
-/

namespace CodeQuality.Path

/-- The name can stand for an entry of a folder. -/
def isEntryName (name : String) : Bool :=
  !isIdle name && name != ".." && !name.toList.contains '/'

/-- The path from a folder to a place below it. -/
def ofPlace (place : List String) : Path :=
  "/".intercalate place

theorem isIdle_of_isEntryName {name : String} (h : isEntryName name = true) :
    isIdle name = false := by
  simp only [isEntryName, Bool.and_eq_true, Bool.not_eq_true'] at h
  exact h.1.1

theorem stepOf_of_isEntryName {name : String} (h : isEntryName name = true) :
    stepOf name = .name name := by
  simp only [isEntryName, Bool.and_eq_true, bne_iff_ne] at h
  simp [stepOf, h.1.2]

theorem not_mem_of_isEntryName {name : String} (h : isEntryName name = true) :
    '/' ∉ name.toList := by
  simp only [isEntryName, Bool.and_eq_true, Bool.not_eq_true', List.contains_eq_mem,
    decide_eq_false_iff_not] at h
  exact h.2

/-- A slash divides the segments of what stands on its two sides. -/
theorem segments_append_slash (a b : Path) :
    segments (a ++ "/" ++ b) = segments a ++ segments b := by
  have hlist : (a ++ "/" ++ b).toList = a.toList ++ '/' :: b.toList := by simp
  rw [segments, hlist, List.splitOn_append_cons_self, List.map_append]
  rfl

theorem segments_ne_nil (path : Path) : segments path ≠ [] := by
  simp [segments]

/-- What a path begins with decides where it starts. -/
theorem isAbsolute_append {a : Path} (h : a ≠ "") (b : Path) :
    isAbsolute (a ++ b) = isAbsolute a := by
  have hlist : a.toList ≠ [] := by simpa using h
  rw [isAbsolute, isAbsolute, String.toList_append, List.head?_append_of_ne_nil _ hlist]

section Place

variable {place : List String} (hnames : ∀ name ∈ place, isEntryName name = true)
include hnames

/-- The segments of the path of a place are its names. -/
theorem segments_ofPlace (hne : place ≠ []) : segments (ofPlace place) = place := by
  have hslash : ∀ segment ∈ place.map String.toList, '/' ∉ segment := by
    intro segment hsegment
    obtain ⟨name, hname, rfl⟩ := List.mem_map.mp hsegment
    exact not_mem_of_isEntryName (hnames name hname)
  have hlist : (ofPlace place).toList = ['/'].intercalate (place.map String.toList) :=
    String.toList_intercalate
  rw [segments, hlist, List.splitOn_intercalate _ hslash (by simpa using hne), List.map_map]
  simp

/-- No name of a place is empty. -/
theorem empty_not_mem : "" ∉ place := fun hempty =>
  absurd (isIdle_of_isEntryName (hnames "" hempty)) (by decide)

/-- The path of a place below a folder is not empty. -/
theorem ofPlace_ne (hne : place ≠ []) : ofPlace place ≠ "" := by
  intro hempty
  have hsegments := segments_ofPlace hnames hne
  rw [hempty] at hsegments
  exact empty_not_mem hnames (hsegments ▸ by decide)

/-- Different places have different paths. -/
theorem ofPlace_injective {other : List String}
    (hothers : ∀ name ∈ other, isEntryName name = true) (h : ofPlace place = ofPlace other) :
    place = other := by
  by_cases hne : place = []
  · by_cases hother : other = []
    · rw [hne, hother]
    · exact absurd (h.symm.trans (by rw [hne]; rfl)) (ofPlace_ne hothers hother)
  · by_cases hother : other = []
    · exact absurd (h.trans (by rw [hother]; rfl)) (ofPlace_ne hnames hne)
    · rw [← segments_ofPlace hnames hne, h, segments_ofPlace hothers hother]

/-- The path of a place does not start at the root. -/
theorem isAbsolute_ofPlace (hne : place ≠ []) : isAbsolute (ofPlace place) = false := by
  by_contra habsolute
  simp only [isAbsolute, beq_iff_eq, Bool.not_eq_false] at habsolute
  obtain ⟨rest, hrest⟩ := List.head?_eq_some_iff.mp habsolute
  have hsegments := segments_ofPlace hnames hne
  rw [segments, hrest, ← List.nil_append ('/' :: rest), List.splitOn_append_cons_self] at hsegments
  exact empty_not_mem hnames (hsegments ▸ by simp)

/-- A path under a root begins as the root does and ends with the names of its place. -/
theorem exists_segments_under (root : Path) (hne : place ≠ []) :
    ∃ lead, segments (under root (ofPlace place)) = lead ++ place ∧
      lead.filter (fun segment => !isIdle segment) =
        root.segments.filter (fun segment => !isIdle segment) ∧
      isAbsolute (under root (ofPlace place)) = isAbsolute root ∧
      ((lead ++ place).head? = some "." ↔ root.segments.head? = some ".") := by
  have hsegments := segments_ofPlace hnames hne
  have hrel := isAbsolute_ofPlace hnames hne
  have hunder : under root (ofPlace place) = if root == "" || root.toList.getLast? == some '/'
      then root ++ ofPlace place else root ++ "/" ++ ofPlace place := by
    rw [under, if_neg (by simpa using ofPlace_ne hnames hne), join, if_neg (by simp [hrel])]
  rw [hunder]
  by_cases hroot : root = ""
  · subst hroot
    have hdot : place.head? ≠ some "." := fun hdot =>
      absurd (isIdle_of_isEntryName (hnames _ (List.mem_of_head? hdot))) (by decide)
    have hempty : isAbsolute "" = false := by decide
    exact ⟨[], by simpa using hsegments, by decide, by simpa [hempty] using hrel,
      iff_of_false hdot (by decide)⟩
  · by_cases hlast : root.toList.getLast? = some '/'
    · -- The slash at the end of the root is the one before the place.
      obtain ⟨init, hinit⟩ := List.getLast?_eq_some_iff.mp hlast
      obtain rfl : root = String.ofList init ++ "/" := String.toList_inj.mp (by simp [hinit])
      have hsplit := segments_append_slash (String.ofList init) ""
      rw [String.append_empty] at hsplit
      refine ⟨segments (String.ofList init), ?_, ?_, ?_, ?_⟩
      · rw [if_pos (by simp), segments_append_slash, hsegments]
      · rw [hsplit, List.filter_append]
        exact (List.append_nil _).symm
      · rw [if_pos (by simp), isAbsolute_append hroot]
      · rw [hsplit, List.head?_append_of_ne_nil _ (segments_ne_nil _),
          List.head?_append_of_ne_nil _ (segments_ne_nil _)]
    · refine ⟨root.segments, ?_, rfl, ?_, ?_⟩
      · rw [if_neg (by simp [hroot, hlast]), segments_append_slash, hsegments]
      · rw [if_neg (by simp [hroot, hlast]), String.append_assoc, isAbsolute_append hroot]
      · rw [List.head?_append_of_ne_nil _ (segments_ne_nil _)]

/-- A place has a step for each of its names. -/
theorem filter_place : place.filter (fun segment => !isIdle segment) = place := by
  rw [List.filter_eq_self]
  intro name hname
  rw [isIdle_of_isEntryName (hnames name hname)]
  rfl

/-- The components of a path under a root are those of the root and the names of the place. -/
theorem components_under (root : Path) (hne : place ≠ []) :
    components (under root (ofPlace place)) = components root ++ place.map .name := by
  obtain ⟨lead, hsegments, hlead, habsolute, hdot⟩ := exists_segments_under hnames root hne
  have hsteps : place.map stepOf = place.map Component.name :=
    List.map_congr_left fun name hname => stepOf_of_isEntryName (hnames name hname)
  simp only [components, hsegments, habsolute, List.filter_append, filter_place hnames, hlead,
    List.map_append, hsteps, beq_iff_eq, hdot]
  split_ifs <;> rfl

/-- The components of the path of a place are its names. -/
theorem components_ofPlace (hne : place ≠ []) :
    components (ofPlace place) = place.map .name := by
  have hunder : under "" (ofPlace place) = ofPlace place := by
    simp [under, join, ofPlace_ne hnames hne]
  have hcomponents := components_under hnames "" hne
  rwa [hunder] at hcomponents

/-- The file name of a path under a root is the one of its place. -/
theorem fileName?_under (root : Path) (hne : place ≠ []) :
    fileName? (under root (ofPlace place)) = fileName? (ofPlace place) := by
  have hmap : place.map Component.name ≠ [] := by simpa using hne
  rw [fileName?, fileName?, components_under hnames root hne, components_ofPlace hnames hne,
    List.getLast?_append_of_ne_nil _ hmap]

/-- The language of a file does not depend on the root that it is put under. -/
theorem ofPath_under (root : Path) (hne : place ≠ []) :
    Language.ofPath (under root (ofPlace place)) = Language.ofPath (ofPlace place) := by
  rw [Language.ofPath, Language.ofPath, extension?, extension?, fileName?_under hnames root hne]

/-- A place begins with a step. -/
theorem dropWhile_place : place.dropWhile isIdle = place := by
  cases place with
  | nil => rfl
  | cons name rest => simp [isIdle_of_isEntryName (hnames name (by simp))]

/-- A place ends with a step. -/
theorem trimIdle_place : trimIdle place = place := by
  have hreverse : ∀ name ∈ place.reverse, isEntryName name = true := by simpa using hnames
  rw [trimIdle, dropWhile_place hreverse, List.reverse_reverse]

/-- Behind as many steps as the first segments take, the others are left. -/
theorem dropSteps_append (lead : List String) :
    dropSteps (lead.filter fun segment => !isIdle segment).length (lead ++ place) = place := by
  have hskip (steps : Nat) (segment : String) (rest : List String) (hidle : isIdle segment = true) :
      dropSteps steps (segment :: rest) = dropSteps steps rest := by
    cases steps <;> simp [dropSteps, hidle]
  induction lead with
  | nil => simpa [dropSteps] using dropWhile_place hnames
  | cons segment lead ih =>
    cases hidle : isIdle segment with
    | true =>
      rw [List.cons_append, hskip _ _ _ hidle, List.filter_cons_of_neg (by simp [hidle]), ih]
    | false =>
      rw [List.filter_cons_of_pos (by simp [hidle]), List.length_cons, List.cons_append, dropSteps,
        if_neg (by simp [hidle]), ih]

/-- What stands behind the root in a path under it is the path of the place. -/
theorem behind?_under (root : Path) (hne : place ≠ []) :
    behind? (under root (ofPlace place)) root = some (ofPlace place) := by
  obtain ⟨lead, hsegments, hlead, -, -⟩ := exists_segments_under hnames root hne
  have hbegins : (components root).isPrefixOf (components (under root (ofPlace place))) = true := by
    rw [components_under hnames root hne, List.isPrefixOf_iff_prefix]
    exact List.prefix_append _ _
  rw [behind?, if_pos hbegins]
  simp only [← hlead, hsegments, dropSteps_append hnames, trimIdle_place hnames]
  rfl

/-- The order of two paths under a root does not depend on the root. -/
theorem compare_under (root : Path) (hne : place ≠ []) {other : List String}
    (hothers : ∀ name ∈ other, isEntryName name = true) (hother : other ≠ []) :
    compare (under root (ofPlace place)) (under root (ofPlace other)) =
      compare (ofPlace place) (ofPlace other) := by
  rw [compare_eq_compareLex, compare_eq_compareLex, components_under hnames root hne,
    components_under hothers root hother, compareLex_append_left, components_ofPlace hnames hne,
    components_ofPlace hothers hother]

end Place

end CodeQuality.Path
