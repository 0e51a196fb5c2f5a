import CodeQuality.Proofs.Extraction.Record

/-!
# Well-formed inventories

Every record of an inventory has a name that can be used and stands on lines the text has. The
body of a function or class is a stretch of the text, and its line feeds are the lines between the
first and the last one. This holds of all languages: a body in braces and a body by indentation
are found in different ways, but both fit the text they are found in.
-/

namespace CodeQuality

open Text

/-- A function or class is recorded as it stands in a text with `total` lines. -/
structure Placed (text : String) (total : Nat) (name body : String) (startLine endLine : Nat) :
    Prop where
  name_ne : name ≠ ""
  name_free : isReserved name = false
  one_le_startLine : 1 ≤ startLine
  startLine_le : startLine ≤ endLine
  endLine_le : endLine ≤ total
  /-- The body is a stretch of the text that begins on the first line. -/
  body_eq : ∃ head tail, text.toList = head ++ body.toList ++ tail ∧
    startLine = head.count '\n' + 1
  span_eq : endLine - startLine = body.toList.count '\n'

/-- Everything an inventory says about a text is so. -/
structure Inventory.WellFormed (inventory : Inventory) (text : String) : Prop where
  total_eq : inventory.lines.total = (Text.lines text.toList).length
  functions : ∀ record ∈ inventory.functions, Placed text inventory.lines.total record.name
    record.body record.startLine record.endLine
  classes : ∀ record ∈ inventory.classes, Placed text inventory.lines.total record.name
    record.body record.startLine record.endLine
  vars : ∀ record ∈ inventory.vars, 1 ≤ record.line ∧ record.line ≤ inventory.lines.total
  functions_sorted : inventory.functions.Pairwise fun a b => a.startLine ≤ b.startLine
  classes_sorted : inventory.classes.Pairwise fun a b => a.startLine ≤ b.startLine
  vars_sorted : inventory.vars.Pairwise fun a b => a.line ≤ b.line

namespace Declared

variable {rules : Rules} {head tail : List Char} {name body : String} {startLine endLine : Nat}

/-- The body of a declaration fits the text behind its first character. -/
theorem fits (h : Declared rules head tail name body startLine endLine) :
    Source.Body.Fits ⟨body.toList, endLine⟩ head tail := by
  obtain ⟨headerEnd, hheader, rfl, rfl⟩ := h.located
  rw [String.toList_ofList]
  cases hbody : rules.body with
  | braces => exact Source.fits_of_braces hbody head tail headerEnd
  | indentation =>
    cases headerEnd with
    | none =>
      -- A function without a parameter list has no body, and ends on the line it begins on.
      simp only [Source.bodyAt, hbody, Source.lineOf_append]
      exact ⟨List.nil_prefix, by simp, by simp⟩
    | some stop =>
      obtain ⟨read, rest, rfl, rfl, hlast⟩ := hheader hbody stop rfl
      exact Source.fits_of_indentation hbody head read rest hlast

/-- A declaration is placed in the text it is found in. -/
theorem placed (h : Declared rules head tail name body startLine endLine) {text : String}
    (htext : text.toList = head ++ tail) (style : CommentStyle) :
    Placed text (LineCount.ofText text.toList style).total name body startLine endLine := by
  have hfits := h.fits
  have htail : tail ≠ [] := by
    obtain ⟨c, hc, -⟩ := h.first
    rintro rfl
    simp at hc
  have hend : endLine = (head ++ body.toList).count '\n' + 1 := hfits.endLine_eq
  rw [List.count_append] at hend
  have hstart := h.startLine_eq
  obtain ⟨rest, hrest⟩ := hfits.begins
  exact {
    name_ne := h.name_ne
    name_free := h.name_free
    one_le_startLine := by omega
    startLine_le := by omega
    endLine_le := htext ▸ hfits.endLine_le htail style
    body_eq := ⟨head, rest, by simp [htext, ← hrest], hstart⟩
    span_eq := by omega }

end Declared

/-- The inventory of every text is well formed, in every language and whether or not repeated
functions are left out. -/
theorem extract_wellFormed (options : ExtractionOptions) (path : Path) (text : String)
    (language : Language) : (extract options path text language).WellFormed text := by
  cases hrules : Rules.of? language with
  | none =>
    simp only [extract, hrules]
    constructor <;> simp [LineCount.total_ofText]
  | some rules =>
    have hlines := lines_extract hrules options path text
    exact {
      total_eq := by rw [hlines, LineCount.total_ofText]
      functions := by
        intro record hrecord
        obtain ⟨head, tail, htext, hdeclared⟩ := declared_of_mem_functions hrules hrecord
        exact hlines ▸ hdeclared.placed htext rules.comments
      classes := by
        intro record hrecord
        obtain ⟨head, tail, htext, hdeclared⟩ := declared_of_mem_classes hrules hrecord
        exact hlines ▸ hdeclared.placed htext rules.comments
      vars := by
        intro record hrecord
        obtain ⟨head, c, tail, htext, hline⟩ := exists_append_of_mem_vars hrules hrecord
        have hcount := LineCount.count_lt_total_ofText rules.comments head c tail
        rw [hlines, htext]
        omega
      functions_sorted := pairwise_functions hrules options path text
      classes_sorted := pairwise_classes hrules options path text
      vars_sorted := pairwise_vars hrules options path text }

/-- A method whose header takes two lines, in a class that ends with it. -/
theorem extract_wellFormed_method :
    let text := "\nclass A:\n  def f(self,\n        y):\n    z = y\n"
    let inventory := extract {} "a.py" text .python
    inventory.functions.map (fun record => (record.name, record.startLine, record.endLine)) =
        [("f", 3, 5)] ∧
      inventory.classes.map (fun record => (record.name, record.startLine, record.endLine)) =
        [("A", 2, 5)] ∧
      inventory.vars.map (fun record => (record.name, record.line)) = [("z", 5)] ∧
      inventory.WellFormed text := by
  refine ⟨?_, ?_, ?_, extract_wellFormed {} "a.py" _ .python⟩ <;> decide +kernel

end CodeQuality
