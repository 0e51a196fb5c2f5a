import CodeQuality.Metric.Structure
import CodeQuality.Proofs.Extraction.WellFormed
import CodeQuality.Proofs.LineEnding

/-!
# Line spans and the limits on length

The span of a record counts the line feeds of its body, and a body that is not empty has one line
more than that. The limits on the lengths of functions and classes are compared with the span, so
a record is reported as too long when its lines exceed the limit by two or more, and the number in
the report is one less than the number of its lines.
-/

namespace CodeQuality

open Text

/-! ## Lines of a body -/

/-- Behind a last line feed there are as many lines as line feeds. -/
theorem Text.length_linesAfter_append_feed (current text : List Char) :
    (linesAfter current (text ++ ['\n'])).length = text.count '\n' + 1 := by
  induction text generalizing current with
  | nil => simp [linesAfter]
  | cons c rest ih =>
    by_cases hc : c = '\n'
    · simp [linesAfter, hc, ih]
    · simp [linesAfter, hc, ih]

/-- A text that does not end with a line feed has one line more than line feeds. -/
theorem Text.length_lines_of_last_ne {text : List Char} (hne : text ≠ [])
    (hlast : text.getLast? ≠ some '\n') : (lines text).length = text.count '\n' + 1 := by
  have htrim : (linesAfter [] (text ++ ['\n'])).map trim = (linesAfter [] text).map trim :=
    map_trim_linesAfter_append_feed (.inr hne) hlast
  have hlength := congrArg List.length htrim
  rw [List.length_map, List.length_map, length_linesAfter_append_feed] at hlength
  exact hlength.symm

/-- A body that is not empty has one line more than its declaration spans. -/
theorem Declared.length_lines {rules : Rules} {head tail : List Char} {name body : String}
    {startLine endLine : Nat} (h : Declared rules head tail name body startLine endLine)
    (hne : body ≠ "") : (lines body.toList).length = endLine - startLine + 1 := by
  have hfits := h.fits
  have hend : endLine = (head ++ body.toList).count '\n' + 1 := hfits.endLine_eq
  have hstart := h.startLine_eq
  have hbody : body.toList ≠ [] := by simpa using hne
  rw [List.count_append] at hend
  rw [length_lines_of_last_ne hbody hfits.last_ne]
  omega

/-! ## Reports -/

@[simp] theorem issuesOf_append (a b : List Fault) : issuesOf (a ++ b) = issuesOf a ++ issuesOf b :=
  List.filterMap_append

@[simp] theorem issuesOf_faultIf_none (condition : Bool) (loss : Float) :
    issuesOf (faultIf condition loss none) = [] := by
  cases condition <;> rfl

@[simp] theorem issuesOf_faultIf_some (condition : Bool) (loss : Float) (issue : String) :
    issuesOf (faultIf condition loss (some issue)) = if condition then [issue] else [] := by
  cases condition <;> rfl

namespace Metric

/-- The number in a report is what stands between its last parentheses. -/
theorem count_eq_of_tooLong {kind a b : String} {m n : Nat}
    (h : tooLong kind a m = tooLong kind b n) : m = n := by
  have hdigits : ∀ k : Nat, ∀ c ∈ (Nat.toDigits 10 k).reverse, c.isDigit = true := by
    intro k c hc
    exact Nat.isDigit_of_mem_toDigits (by decide) (by decide) (List.mem_reverse.mp hc)
  have hread : ∀ (name : String) (k : Nat),
      (((tooLong kind name k).toList.reverse.drop 7).takeWhile Char.isDigit) =
        (Nat.toDigits 10 k).reverse := by
    intro name k
    have htext : (tooLong kind name k).toList.reverse.drop 7 =
        (Nat.toDigits 10 k).reverse ++
          '(' :: ' ' :: (kind ++ " too long: " ++ name).toList.reverse := by
      simp [tooLong, Nat.toString_eq_repr, Nat.toList_repr]
    rw [htext, List.takeWhile_append_of_pos (hdigits k)]
    simp
  have heq : (Nat.toDigits 10 m).reverse = (Nat.toDigits 10 n).reverse := by
    rw [← hread a m, h, hread b n]
  have hsame : Nat.toDigits 10 m = Nat.toDigits 10 n := List.reverse_inj.mp heq
  calc
    m = Nat.ofDigitChars 10 (Nat.toDigits 10 m) 0 := Nat.ofDigitChars_ten_toDigits.symm
    _ = Nat.ofDigitChars 10 (Nat.toDigits 10 n) 0 := by rw [hsame]
    _ = n := Nat.ofDigitChars_ten_toDigits

/-- The first characters of an issue, which tell the checks apart. -/
def opening (issue : String) : List Char :=
  issue.toList.take 10

theorem opening_append {head : String} (h : 10 ≤ head.toList.length) (rest : String) :
    opening (head ++ rest) = opening head := by
  rw [opening, opening, String.toList_append, List.take_append_of_le_length h]

/-- The issue is that a class or function is too long. -/
def reportsLength (issue : String) : Bool :=
  opening issue = "Class too ".toList || opening issue = "Function t".toList

/-- An issue that begins otherwise is not about length. -/
theorem reportsLength_append (head : String) (hlength : 10 ≤ head.toList.length)
    (hhead : reportsLength head = false) (rest : String) :
    reportsLength (head ++ rest) = false := by
  rw [reportsLength, opening_append hlength]
  exact hhead

/-- A check whose issue is not about length reports no length. -/
theorem filter_issuesOf_faultIf {condition : Bool} {loss : Float} {issue : String}
    (h : reportsLength issue = false) :
    (issuesOf (faultIf condition loss (some issue))).filter reportsLength = [] := by
  rw [issuesOf_faultIf_some]
  split
  · rw [List.filter_cons_of_neg (by simp [h]), List.filter_nil]
  · rfl

/-- The kind can be told from a report of length. -/
theorem opening_tooLong (kind : BodyKind) (name : String) (count : Nat) :
    opening (tooLong kind.word name count) = opening (kind.word ++ " too long: ") := by
  have hlength : 10 ≤ (kind.word ++ " too long: ").toList.length := by cases kind <;> decide
  rw [tooLong, String.append_assoc, String.append_assoc, String.append_assoc,
    opening_append hlength]

theorem reportsLength_tooLong (kind : BodyKind) (name : String) (count : Nat) :
    reportsLength (tooLong kind.word name count) = true := by
  rw [reportsLength, opening_tooLong]
  cases kind <;> decide

/-- Reports of one text are of the same kind and the same span. -/
theorem eq_of_tooLong {first second : BodyKind} {a b : String} {m n : Nat}
    (h : tooLong first.word a m = tooLong second.word b n) : first = second ∧ m = n := by
  have hopening := congrArg opening h
  rw [opening_tooLong, opening_tooLong] at hopening
  have hkind : first = second := by
    revert hopening
    cases first <;> cases second <;> decide
  subst hkind
  exact ⟨rfl, count_eq_of_tooLong h⟩

/-- Of a class or function only the first check reports the length. -/
theorem filter_issuesOf_bodyFaults (limits : StructureThresholds) (extent : Extent)
    (access : Access) {others : List Fault}
    (hothers : (issuesOf others).filter reportsLength = []) :
    (issuesOf (bodyFaults limits extent access others)).filter reportsLength =
      if exceeds limits extent then [lengthIssue extent] else [] := by
  have haccess : reportsLength (extent.kind.word ++ " without access modifier: " ++ extent.name) =
      false := by
    cases extent.kind with
    | classBody => exact reportsLength_append _ (by decide) (by decide) _
    | functionBody => exact reportsLength_append _ (by decide) (by decide) _
  rw [bodyFaults, issuesOf_append, issuesOf_append, List.filter_append, List.filter_append, hothers,
    filter_issuesOf_faultIf haccess, List.append_nil, List.append_nil, issuesOf_faultIf_some]
  split
  · rw [lengthIssue, List.filter_cons_of_pos (reportsLength_tooLong _ _ _), List.filter_nil]
  · rfl

/-- The checks of the file do not report the length of a class or function. -/
theorem filter_issuesOf_fileFaults (limits : StructureThresholds) (inventory : Inventory) :
    (issuesOf (fileFaults limits inventory)).filter reportsLength = [] := by
  have hfile := reportsLength_append "File too long: " (by decide) (by decide)
  have hclasses := reportsLength_append "Too many classes in file: " (by decide) (by decide)
  have hfunctions := reportsLength_append "Too many functions in file: " (by decide) (by decide)
  have hcomments := reportsLength_append "Too few comments: " (by decide) (by decide)
  have hblanks := reportsLength_append "Too few blank lines: " (by decide) (by decide)
  simp only [fileFaults, issuesOf_append, List.filter_append, String.append_assoc,
    filter_issuesOf_faultIf (hfile _), filter_issuesOf_faultIf (hclasses _),
    filter_issuesOf_faultIf (hfunctions _), filter_issuesOf_faultIf (hcomments _),
    filter_issuesOf_faultIf (hblanks _), List.append_nil]

/-- When each record reports its own length, the records report theirs in order. -/
theorem filter_flatMap_issuesOf {α : Type} {limits : StructureThresholds}
    {faults : α → List Fault} {extent : α → Extent}
    (h : ∀ record, (issuesOf (faults record)).filter reportsLength =
      if exceeds limits (extent record) then [lengthIssue (extent record)] else [])
    (records : List α) :
    ((records.map faults).flatMap issuesOf).filter reportsLength =
      ((records.map extent).filter (exceeds limits)).map lengthIssue := by
  induction records with
  | nil => rfl
  | cons record rest ih =>
    rw [List.map_cons, List.flatMap_cons, List.filter_append, ih, h, List.map_cons,
      List.filter_cons]
    split <;> rfl

/-- The extents of the classes and functions of a file. -/
def extents (inventory : Inventory) : List Extent :=
  inventory.classes.map ClassRecord.extent ++ inventory.functions.map FunctionRecord.extent

/-- The layout reports the lengths above the limits, in order. -/
theorem filter_issues_layout (limits : StructureThresholds) (inventory : Inventory) :
    (layout limits inventory).issues.filter reportsLength =
      ((extents inventory).filter (exceeds limits)).map lengthIssue := by
  have hclass (record : ClassRecord) :
      (issuesOf (classFaults limits record)).filter reportsLength =
        if exceeds limits record.extent then [lengthIssue record.extent] else [] :=
    filter_issuesOf_bodyFaults limits record.extent record.access (by simp)
  have hfunction (record : FunctionRecord) :
      (issuesOf (functionFaults limits record)).filter reportsLength =
        if exceeds limits record.extent then [lengthIssue record.extent] else [] := by
    apply filter_issuesOf_bodyFaults limits record.extent record.access
    have hparameters := reportsLength_append "Too many parameters: " (by decide) (by decide)
    rw [issuesOf_append, issuesOf_faultIf_none, List.append_nil, String.append_assoc,
      String.append_assoc, String.append_assoc, filter_issuesOf_faultIf (hparameters _)]
  simp only [layout, List.filter_append, filter_issuesOf_fileFaults, List.append_nil, extents,
    List.map_append, filter_flatMap_issuesOf hclass, filter_flatMap_issuesOf hfunction]

/-- A length is reported exactly when some class or function with that report is too long. -/
theorem tooLong_mem_layout {limits : StructureThresholds} {inventory : Inventory}
    (kind : BodyKind) {name : String} {count : Nat} :
    tooLong kind.word name count ∈ (layout limits inventory).issues ↔
      ∃ extent ∈ extents inventory, exceeds limits extent = true ∧
        lengthIssue extent = tooLong kind.word name count := by
  have hfilter : tooLong kind.word name count ∈ (layout limits inventory).issues ↔
      tooLong kind.word name count ∈ (layout limits inventory).issues.filter reportsLength := by
    rw [List.mem_filter, and_iff_left (reportsLength_tooLong kind name count)]
  rw [hfilter, filter_issues_layout, List.mem_map]
  simp only [List.mem_filter, and_assoc]

/-- A class or function is reported with its span exactly when the span is above the limit. With
the number of its lines, which is one more, the report comes one line later and gives one line
less. -/
theorem tooLong_mem_layout_iff_lines {limits : StructureThresholds} {inventory : Inventory}
    {extent : Extent} (h : extent ∈ extents inventory) {count : Nat}
    (hcount : count = extent.span + 1) :
    tooLong extent.kind.word extent.name (count - 1) ∈ (layout limits inventory).issues ↔
      extent.kind.limit limits + 1 < count := by
  rw [hcount, Nat.add_sub_cancel, Nat.add_lt_add_iff_right, tooLong_mem_layout]
  constructor
  · -- What else has the same report is of the same kind and span, and so under the same limit.
    rintro ⟨other, -, hexceeds, hreport⟩
    obtain ⟨hkind, hspan⟩ := eq_of_tooLong hreport
    simpa [exceeds, hkind, hspan] using hexceeds
  · intro hlimit
    exact ⟨extent, h, decide_eq_true hlimit, rfl⟩

/-- **The limits on length allow one line more.** In every text of every language, a function or
class with a body is reported as too long exactly when its lines exceed the limit by more than one,
and the report gives one line less than the body has. -/
theorem tooLong_iff_lines (limits : StructureThresholds) (options : ExtractionOptions)
    (path : Path) (text : String) (language : Language) :
    let inventory := extract options path text language
    (∀ record ∈ inventory.functions, record.body ≠ "" →
      (tooLong "Function" record.name ((lines record.body.toList).length - 1) ∈
          (layout limits inventory).issues ↔
        limits.maxFunctionLines + 1 < (lines record.body.toList).length)) ∧
    ∀ record ∈ inventory.classes, record.body ≠ "" →
      (tooLong "Class" record.name ((lines record.body.toList).length - 1) ∈
          (layout limits inventory).issues ↔
        limits.maxClassLines + 1 < (lines record.body.toList).length) := by
  intro inventory
  cases hrules : Rules.of? language with
  | none => simp [inventory, extract, hrules]
  | some rules =>
    constructor
    · intro record hrecord hne
      obtain ⟨head, tail, -, hdeclared⟩ := declared_of_mem_functions hrules hrecord
      exact tooLong_mem_layout_iff_lines
        (List.mem_append_right _ (List.mem_map_of_mem hrecord)) (hdeclared.length_lines hne)
    · intro record hrecord hne
      obtain ⟨head, tail, -, hdeclared⟩ := declared_of_mem_classes hrules hrecord
      exact tooLong_mem_layout_iff_lines
        (List.mem_append_left _ (List.mem_map_of_mem hrecord)) (hdeclared.length_lines hne)

/-- A class of three lines with a method of two. Each is reported when its limit is two lines less
than it has, and not when it is one line less. -/
theorem tooLong_iff_lines_method :
    let inventory := extract {} "a.py" "class A:\n  def f(self):\n    pass\n" .python
    (tooLong "Function" "f" 1 ∈ (layout { maxFunctionLines := 0 } inventory).issues ∧
      tooLong "Function" "f" 1 ∉ (layout { maxFunctionLines := 1 } inventory).issues) ∧
    tooLong "Class" "A" 2 ∈ (layout { maxClassLines := 1 } inventory).issues ∧
      tooLong "Class" "A" 2 ∉ (layout { maxClassLines := 2 } inventory).issues := by
  intro inventory
  have hmethod : ⟨"f", "  def f(self):\n    pass", 2, 3, [], "", .publicAccess⟩ ∈
      inventory.functions := by decide +kernel
  have hclass : ⟨"A", "class A:\n  def f(self):\n    pass", 1, 3, {}, .publicAccess⟩ ∈
      inventory.classes := by decide +kernel
  have hfunctions (limits : StructureThresholds) :=
    (tooLong_iff_lines limits {} "a.py" _ .python).1 _ hmethod (by decide)
  have hclasses (limits : StructureThresholds) :=
    (tooLong_iff_lines limits {} "a.py" _ .python).2 _ hclass (by decide)
  refine ⟨⟨(hfunctions _).mpr ?_, mt (hfunctions _).mp ?_⟩,
    (hclasses _).mpr ?_, mt (hclasses _).mp ?_⟩ <;> decide +kernel

/-- A function of three lines is not reported under a limit of two. -/
theorem not_tooLong_of_three_lines :
    let inventory := extract {} "a.c" "int f() \x7b\n  return 1;\n\x7d\n" .c
    (∃ record ∈ inventory.functions, record.name = "f" ∧
      (lines record.body.toList).length = 3) ∧
    ∀ count, tooLong "Function" "f" count ∉
      (layout { maxFunctionLines := 2 } inventory).issues := by
  intro inventory
  have hspans : (extents inventory).all (!exceeds { maxFunctionLines := 2 } ·) = true := by
    decide +kernel
  refine ⟨by decide +kernel, fun count hreport => ?_⟩
  obtain ⟨extent, hextent, hexceeds, -⟩ := (tooLong_mem_layout .functionBody).mp hreport
  simpa [hexceeds] using List.all_eq_true.mp hspans extent hextent

end Metric

end CodeQuality
