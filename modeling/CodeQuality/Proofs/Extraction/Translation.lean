import CodeQuality.Proofs.Extraction.Body
import CodeQuality.Proofs.Extraction.Record
import CodeQuality.Proofs.Pattern.Translation

/-!
# Extraction below line feeds

Line feeds put before a text move what is found in it down by their number and change nothing
else. This is proved for one line feed, for each thing that is looked up in a text: lines, spans,
parameter lists, bodies and so the records. Any number of line feeds is that many single ones.
-/

namespace CodeQuality

open Text

/-- The function, that many lines further down. -/
def FunctionRecord.moveDown (count : Nat) (record : FunctionRecord) : FunctionRecord :=
  { record with startLine := record.startLine + count, endLine := record.endLine + count }

/-- The class, that many lines further down. -/
def ClassRecord.moveDown (count : Nat) (record : ClassRecord) : ClassRecord :=
  { record with startLine := record.startLine + count, endLine := record.endLine + count }

/-- The variable, that many lines further down. -/
def VariableRecord.moveDown (count : Nat) (record : VariableRecord) : VariableRecord :=
  { record with line := record.line + count }

/-- The counts with that many more blank lines. -/
def LineCount.addBlank (count : Nat) (lines : LineCount) : LineCount :=
  { lines with total := lines.total + count, blank := lines.blank + count }

/-- The inventory of the text with that many line feeds put before it. -/
def Inventory.moveDown (count : Nat) (inventory : Inventory) : Inventory :=
  { inventory with
    content := String.ofList (List.replicate count '\n') ++ inventory.content
    lines := inventory.lines.addBlank count
    functions := inventory.functions.map (FunctionRecord.moveDown count)
    classes := inventory.classes.map (ClassRecord.moveDown count)
    vars := inventory.vars.map (VariableRecord.moveDown count) }

namespace Text

/-- What stands behind an offset does not depend on a line feed put before the text. -/
theorem dropBytes_feed (text : List Char) (offset : Nat) :
    dropBytes (offset + 1) ('\n' :: text) = dropBytes offset text :=
  dropBytes_append_add ['\n'] text offset

/-- What stands between two offsets does not depend on a line feed put before the text. -/
theorem slice_feed (text : List Char) (start stop : Nat) :
    slice ('\n' :: text) (start + 1) (stop + 1) = slice text start stop :=
  slice_append_add ['\n'] text start stop

end Text

namespace Source

variable (text : List Char)

/-- Offsets stand one line further down. -/
theorem lineOf_feed (offset : Nat) :
    (ofText ('\n' :: text)).lineOf (offset + 1) = (ofText text).lineOf offset + 1 := by
  have hcode : encode ('\n' :: text) = Scan.byte '\n' :: encode text := rfl
  rw [lineOf_ofText, lineOf_ofText, hcode, List.take_succ_cons, List.count_cons_self]

/-- The text of a span is the same. -/
theorem textOf_feed (span : Span) :
    (ofText ('\n' :: text)).textOf span.moveDown = (ofText text).textOf span :=
  slice_feed text span.start span.stop

/-- What a match records for a label is the same. -/
theorem capture?_feed (found : Match) (label : Label) :
    (ofText ('\n' :: text)).capture? found.moveDown label = (ofText text).capture? found label := by
  rw [capture?, capture?, Match.span?_moveDown, Option.map_map]
  congr 1
  funext span
  exact textOf_feed text span

/-- A search for a bracket moves on with the text. -/
theorem search_feed {σ : Type} (step : σ → UInt8 → Scan.Step σ) (start : Nat)
    (style : CommentStyle) (state : σ) :
    Scan.search step (ofText ('\n' :: text)).bytes (start + 1) style state =
      (Scan.search step (ofText text).bytes start style state).map (· + 1) :=
  Scan.search_append [Scan.byte '\n'] (encode text) (by decide) start style state

/-- The parameter list behind a place moves down. -/
theorem parameterList?_feed (style : CommentStyle) (start : Nat) :
    (ofText ('\n' :: text)).parameterList? style (start + 1) =
      ((ofText text).parameterList? style start).map Span.moveDown := by
  have hopen : (ofText ('\n' :: text)).parameterListOpen? (start + 1) =
      ((ofText text).parameterListOpen? start).map (· + 1) := by
    have hrest : dropBytes (start + 1) (ofText ('\n' :: text)).chars =
        dropBytes start (ofText text).chars := dropBytes_feed text start
    simp only [parameterListOpen?, hrest]
    cases find? ['('] (dropBytes start (ofText text).chars) with
    | none => rfl
    | some opening =>
      simp only
      split
      · simp only [Option.map_some, Nat.add_right_comm]
      · rfl
  rw [parameterList?, parameterList?, hopen]
  cases (ofText text).parameterListOpen? start with
  | none => rfl
  | some opening =>
    simp only [Option.map_some, Scan.matchingParen, search_feed, Option.map_map]
    rfl

/-- The body of a declaration is the same and ends one line further down. -/
theorem bodyAt_feed (rules : Rules) (start : Nat) (headerEnd : Option Nat) :
    (ofText ('\n' :: text)).bodyAt rules (start + 1) (headerEnd.map (· + 1)) =
      ⟨((ofText text).bodyAt rules start headerEnd).text,
        ((ofText text).bodyAt rules start headerEnd).endLine + 1⟩ := by
  have hslice (stop : Nat) : slice (ofText ('\n' :: text)).chars (start + 1) (stop + 1) =
      slice (ofText text).chars start stop := slice_feed text start stop
  cases hbody : rules.body with
  | braces =>
    simp only [bodyAt, hbody, Scan.braceBodyEnd, search_feed]
    cases Scan.search Scan.bodyStep (ofText text).bytes start rules.comments (.outside 0) with
    | none => simp only [Option.map_none, lineOf_feed]
    | some closing => simp only [Option.map_some, hslice, lineOf_feed]
  | indentation =>
    simp only [bodyAt, hbody]
    cases headerEnd with
    | none => simp only [Option.map_none, lineOf_feed]
    | some headerEnd =>
      have hstop : Scan.indentedBodyEnd (ofText ('\n' :: text)).chars (start + 1) (headerEnd + 1) =
          Scan.indentedBodyEnd (ofText text).chars start headerEnd + 1 :=
        Scan.indentedBodyEnd_append ['\n'] text start headerEnd
      simp only [Option.map_some, hstop, hslice]
      generalize Scan.indentedBodyEnd (ofText text).chars start headerEnd = stop
      rw [show max (stop + 1 - 1) (start + 1) = max (stop - 1) start + 1 by omega, lineOf_feed]

/-- The access of a declaration is the same. -/
theorem accessOf_feed (rules : Rules) (found : Match) (name : String) :
    (ofText ('\n' :: text)).accessOf rules found.moveDown name =
      (ofText text).accessOf rules found name := by
  rw [accessOf, accessOf, capture?_feed, Match.span?_moveDown, Option.isSome_map]

/-- The record of a function match moves down. -/
theorem functionRecord?_feed (rules : Rules) (found : Match) :
    (ofText ('\n' :: text)).functionRecord? rules found.moveDown =
      ((ofText text).functionRecord? rules found).map
        (Prod.map (· + 1) (FunctionRecord.moveDown 1)) := by
  simp only [functionRecord?, Match.span?_moveDown]
  cases found.span? .name with
  | none => rfl
  | some nameSpan =>
    simp only [Option.map_some, textOf_feed]
    cases functionName? ((ofText text).textOf nameSpan) with
    | none => rfl
    | some name =>
      have hlist : (ofText ('\n' :: text)).parameterList? rules.comments nameSpan.moveDown.stop =
          ((ofText text).parameterList? rules.comments nameSpan.stop).map Span.moveDown :=
        parameterList?_feed text rules.comments nameSpan.stop
      have hstart : found.moveDown.start = found.start + 1 := rfl
      simp only [capture?_feed, hlist, hstart, lineOf_feed, accessOf_feed]
      split
      · rfl
      · cases (ofText text).parameterList? rules.comments nameSpan.stop with
        | none =>
          have hbody := bodyAt_feed text rules found.start none
          simp only [Option.map_none] at hbody ⊢
          rw [hbody]
          rfl
        | some list =>
          have hbody := bodyAt_feed text rules found.start (some list.stop)
          have hinner : slice (ofText ('\n' :: text)).chars (list.moveDown.start + 1)
              list.moveDown.stop = slice (ofText text).chars (list.start + 1) list.stop :=
            slice_feed text (list.start + 1) list.stop
          have hbehind : dropBytes (list.moveDown.stop + 1) (ofText ('\n' :: text)).chars =
              dropBytes (list.stop + 1) (ofText text).chars :=
            dropBytes_feed text (list.stop + 1)
          have hstop : list.moveDown.stop = list.stop + 1 := rfl
          simp only [Option.map_some, hinner, hbehind] at hbody ⊢
          rw [hstop, hbody]
          rfl

/-- The record of a class match moves down. -/
theorem classRecord?_feed (rules : Rules) (found : Match) :
    (ofText ('\n' :: text)).classRecord? rules found.moveDown =
      ((ofText text).classRecord? rules found).map (Prod.map (· + 1) (ClassRecord.moveDown 1)) := by
  simp only [classRecord?, capture?_feed]
  cases ((ofText text).capture? found .name).map String.ofList with
  | none => rfl
  | some name =>
    have hbody : (ofText ('\n' :: text)).bodyAt rules (found.start + 1)
        (some found.moveDown.stop) =
        ⟨((ofText text).bodyAt rules found.start (some found.stop)).text,
          ((ofText text).bodyAt rules found.start (some found.stop)).endLine + 1⟩ :=
      bodyAt_feed text rules found.start (some found.stop)
    have hstart : found.moveDown.start = found.start + 1 := rfl
    simp only [hstart, hbody, lineOf_feed, accessOf_feed]
    split <;> rfl

/-- The record of a variable match moves down. -/
theorem variableRecord?_feed (rules : Rules) (found : Match) :
    (ofText ('\n' :: text)).variableRecord? rules found.moveDown =
      ((ofText text).variableRecord? rules found).map
        (Prod.map (· + 1) (VariableRecord.moveDown 1)) := by
  simp only [variableRecord?, Match.span?_moveDown, capture?_feed, accessOf_feed, Option.isSome_map]
  cases found.span? .name with
  | none => rfl
  | some nameSpan =>
    have hstart : nameSpan.moveDown.start = nameSpan.start + 1 := rfl
    simp only [Option.map_some, textOf_feed, hstart, lineOf_feed]
    split <;> rfl

/-- The records of all matches of signatures move down, in the same order. -/
theorem recordsOf_feed {α : Type} {patterns : List Pattern}
    (hpatterns : ∀ pattern ∈ patterns, pattern.isSignature = true) (move : α → α)
    {record? below? : Match → Option (Nat × α)}
    (hrecord : ∀ found, below? found.moveDown = (record? found).map (Prod.map (· + 1) move)) :
    (ofText ('\n' :: text)).recordsOf patterns below? =
      ((ofText text).recordsOf patterns record?).map move := by
  have hmatches : (patterns.flatMap fun pattern => pattern.matchesIn ('\n' :: text)) =
      (patterns.flatMap fun pattern => pattern.matchesIn text).map Match.moveDown := by
    rw [List.map_flatMap]
    exact List.flatMap_congr fun pattern hpattern =>
      Pattern.matchesIn_feed (hpatterns pattern hpattern) text
  have hchars (text : List Char) : (ofText text).chars = text := rfl
  have hbelow : below? ∘ Match.moveDown =
      fun found => (record? found).map (Prod.map (· + 1) move) := funext hrecord
  rw [recordsOf, recordsOf, hchars, hchars, hmatches, List.filterMap_map, hbelow,
    ← List.map_filterMap]
  generalize (patterns.flatMap fun pattern => pattern.matchesIn text).filterMap record? = entries
  have hsort : ((entries.map (Prod.map (· + 1) move)).mergeSort fun a b => a.1 ≤ b.1) =
      (entries.mergeSort fun a b => a.1 ≤ b.1).map (Prod.map (· + 1) move) :=
    (List.map_mergeSort fun a _ b _ => by simp).symm
  rw [hsort, List.map_map, List.map_map]
  rfl

end Source

/-- Functions that move down together repeat each other as before. -/
theorem firstOccurrences_moveDown (seen : List (String × Nat)) (records : List FunctionRecord) :
    firstOccurrences (seen.map (Prod.map id (· + 1))) (records.map (FunctionRecord.moveDown 1)) =
      (firstOccurrences seen records).map (FunctionRecord.moveDown 1) := by
  induction records generalizing seen with
  | nil => rfl
  | cons record rest ih =>
    have hinjective : Function.Injective (Prod.map id (· + 1) : String × Nat → String × Nat) :=
      fun a b h => by simpa [Prod.ext_iff] using h
    have hseen : (seen.map (Prod.map id (· + 1))).contains
        ((record.moveDown 1).name, (record.moveDown 1).startLine) =
        seen.contains (record.name, record.startLine) := by
      have hmem : Prod.map id (· + 1) (record.name, record.startLine) ∈
          seen.map (Prod.map id (· + 1)) ↔ (record.name, record.startLine) ∈ seen :=
        List.mem_map_of_injective hinjective
      rw [Bool.eq_iff_iff, List.contains_iff_mem, List.contains_iff_mem]
      exact hmem
    rw [List.map_cons, firstOccurrences, firstOccurrences]
    by_cases hrepeats : seen.contains (record.name, record.startLine) = true
    · rw [if_pos hrepeats, if_pos (hseen.trans hrepeats)]
      exact ih seen
    · rw [if_neg hrepeats, if_neg (hseen ▸ hrepeats)]
      exact congrArg (List.cons _) (ih ((record.name, record.startLine) :: seen))

namespace LineCount

/-- A line feed before a text is one more blank line. -/
theorem ofText_feed (text : List Char) (style : CommentStyle) :
    ofText ('\n' :: text) style = (ofText text style).addBlank 1 := by
  have hkinds : lineKinds style false (lines ('\n' :: text)) =
      .blank :: lineKinds style false (lines text) := rfl
  rw [ofText_eq_ofKinds, ofText_eq_ofKinds, hkinds]
  simp [ofKinds, addBlank]

end LineCount

/-- One line feed before a text moves its inventory down by one line. -/
theorem extract_feed (options : ExtractionOptions) (path : Path) (text : List Char)
    (language : Language) :
    extract options path (String.ofList ('\n' :: text)) language =
      (extract options path (String.ofList text) language).moveDown 1 := by
  have hcontent : String.ofList ('\n' :: text) =
      String.ofList (List.replicate 1 '\n') ++ String.ofList text := by
    rw [← String.ofList_append]
    rfl
  cases hrules : Rules.of? language with
  | none =>
    simp only [extract, hrules, String.toList_ofList, LineCount.ofText_feed, Inventory.moveDown,
      List.map_nil, ← hcontent]
  | some rules =>
    have hsignature : ∀ pattern ∈ rules.signatures, pattern.isSignature = true :=
      fun pattern => Rules.isSignature_of_mem hrules
    simp only [Rules.signatures, List.mem_append] at hsignature
    have hfunctions := Source.recordsOf_feed text
      (fun pattern hpattern => hsignature pattern (Or.inl (Or.inl hpattern)))
      (FunctionRecord.moveDown 1) (Source.functionRecord?_feed text rules)
    have hclasses := Source.recordsOf_feed text
      (fun pattern hpattern => hsignature pattern (Or.inl (Or.inr hpattern)))
      (ClassRecord.moveDown 1) (Source.classRecord?_feed text rules)
    have hvars := Source.recordsOf_feed text
      (fun pattern hpattern => hsignature pattern (Or.inr hpattern))
      (VariableRecord.moveDown 1) (Source.variableRecord?_feed text rules)
    simp only [extract, hrules, String.toList_ofList, LineCount.ofText_feed, Inventory.moveDown,
      ← hcontent, hfunctions, hclasses, hvars]
    congr 1
    split
    · exact firstOccurrences_moveDown [] _
    · rfl

namespace Inventory

/-- Moving down by no line changes nothing. -/
theorem moveDown_zero (inventory : Inventory) : inventory.moveDown 0 = inventory := by
  have hfunctions : FunctionRecord.moveDown 0 = id := rfl
  have hclasses : ClassRecord.moveDown 0 = id := rfl
  have hvars : VariableRecord.moveDown 0 = id := rfl
  simp [moveDown, LineCount.addBlank, hfunctions, hclasses, hvars]

/-- Moving down by one line and then by more is moving down by all of them. -/
theorem moveDown_succ (inventory : Inventory) (count : Nat) :
    (inventory.moveDown count).moveDown 1 = inventory.moveDown (count + 1) := by
  have hcontent : String.ofList (List.replicate 1 '\n') ++
      (String.ofList (List.replicate count '\n') ++ inventory.content) =
      String.ofList (List.replicate (count + 1) '\n') ++ inventory.content := by
    rw [← String.append_assoc, ← String.ofList_append, List.replicate_append_replicate,
      Nat.add_comm]
  simp only [moveDown, hcontent, List.map_map]
  rfl

end Inventory

/-- Extraction does not depend on where in a file a text begins: line feeds put before it move
every record down by their number, count as blank lines and change nothing else. -/
theorem extract_lineFeeds (options : ExtractionOptions) (path : Path) (text : String)
    (language : Language) (count : Nat) :
    extract options path (String.ofList (List.replicate count '\n') ++ text) language =
      (extract options path text language).moveDown count := by
  induction count with
  | zero =>
    rw [Inventory.moveDown_zero, List.replicate_zero, String.ofList_nil, String.empty_append]
  | succ count ih =>
    have hfeed := extract_feed options path (List.replicate count '\n' ++ text.toList) language
    have htext : String.ofList (List.replicate count '\n' ++ text.toList) =
        String.ofList (List.replicate count '\n') ++ text := by
      rw [String.ofList_append, String.ofList_toList]
    rw [← List.cons_append, ← List.replicate_succ, htext, ih, Inventory.moveDown_succ,
      String.ofList_append, String.ofList_toList] at hfeed
    exact hfeed

end CodeQuality
