import CodeQuality.Extraction.Extract
import CodeQuality.Proofs.Extraction.Body
import CodeQuality.Proofs.Pattern.Search
import CodeQuality.Proofs.Rules.Signature

/-!
# Where records come from

Every record comes from a match of one of its language's patterns. What the match says about the
text is gathered here once: where the declaration begins, that its name is not empty, and where
its header ends. All that is proved about records starts from these facts.
-/

namespace CodeQuality

open Text

/-- The function or class is declared behind `head`, where the text goes on with `tail`. -/
structure Declared (rules : Rules) (head tail : List Char) (name body : String)
    (startLine endLine : Nat) : Prop where
  /-- The declaration has a first character, which opens no literal. -/
  first : ∃ c ∈ tail.head?, c ≠ '"'
  name_ne : name ≠ ""
  name_free : isReserved name = false
  startLine_eq : startLine = head.count '\n' + 1
  /-- The body is located from the end of a header that does not end with a line feed. -/
  located : ∃ headerEnd : Option Nat,
    (rules.body = .indentation → ∀ offset ∈ headerEnd, ∃ read rest, tail = read ++ rest ∧
      offset = byteLength (head ++ read) ∧ (read ++ Scan.lineHead rest).getLast? ≠ some '\n') ∧
    body = String.ofList
      ((Source.ofText (head ++ tail)).bodyAt rules (byteLength head) headerEnd).text ∧
    endLine = ((Source.ofText (head ++ tail)).bodyAt rules (byteLength head) headerEnd).endLine

namespace Pattern

/-- A match of a signature begins with a character that opens no literal. -/
theorem Occurs.first {pattern : Pattern} (hsignature : pattern.isSignature = true) {found : Match}
    {head read tail : List Char} (h : pattern.Occurs found head read tail) :
    ∃ c ∈ (read ++ tail).head?, c ≠ '"' := by
  obtain ⟨c, rest, rfl, -, hquote⟩ := h.spells.exists_cons hsignature
  exact ⟨c, by simp, hquote⟩

/-- A span recorded for a label covers a part of the match that a group of that label spells. -/
theorem Occurs.span {pattern : Pattern} {found : Match} {head read tail : List Char}
    (h : pattern.Occurs found head read tail) {label : Label} {span : Span}
    (hspan : found.span? label = some span) :
    ∃ body ahead part behind, (label, body) ∈ pattern.groups ∧ body.Spells part ∧
      read = ahead ++ part ++ behind ∧ span.start = byteLength (head ++ ahead) ∧
      span.stop = byteLength (head ++ ahead ++ part) := by
  rw [Match.span?, Cursor.span?, Option.map_eq_some_iff] at hspan
  obtain ⟨group, hgroup, rfl⟩ := hspan
  obtain rfl : group.1 = label := by simpa using List.find?_some hgroup
  obtain ⟨body, ahead, part, behind, hbody, hspells, hread, hstart, hstop⟩ :=
    h.records group (List.mem_of_find?_eq_some hgroup)
  refine ⟨body, ahead, part, behind, hbody, hspells, hread, ?_, ?_⟩
  · rw [hstart, byteLength_append]
  · simp only [hstop, byteLength_append, Nat.add_assoc]

/-- The name in a match of a signature is a part of the match with a character. -/
theorem Occurs.name {pattern : Pattern} (hsignature : pattern.isSignature = true) {found : Match}
    {head read tail : List Char} (h : pattern.Occurs found head read tail) {span : Span}
    (hspan : found.span? .name = some span) :
    ∃ ahead part behind, read = ahead ++ part ++ behind ∧ part ≠ [] ∧
      span.start = byteLength (head ++ ahead) ∧ span.stop = byteLength (head ++ ahead ++ part) := by
  obtain ⟨body, ahead, part, behind, hbody, hspells, hread, hstart, hstop⟩ := h.span hspan
  refine ⟨ahead, part, behind, hread, ?_, hstart, hstop⟩
  rintro rfl
  have hwidth := hspells.minWidth_le
  have hpos := minWidth_pos_of_mem_groups hsignature hbody
  simp only [List.length_nil] at hwidth
  omega

end Pattern

/-- A name of a function is neither empty nor reserved. -/
theorem functionName?_eq_some {raw : List Char} {name : String}
    (h : functionName? raw = some name) : name ≠ "" ∧ isReserved name = false := by
  simp only [functionName?] at h
  split at h
  · simp at h
  · rename_i hname
    obtain rfl := Option.some.inj h
    simpa [String.isEmpty_iff] using hname

namespace Source

/-- A function match in a text declares the function that is recorded for it. -/
theorem declared_of_functionRecord? {language : Language} {rules : Rules}
    (hrules : Rules.of? language = some rules) {pattern : Pattern}
    (hpattern : pattern ∈ rules.functionPatterns) {text : List Char} {found : Match}
    (hfound : found ∈ pattern.matchesIn text) {offset : Nat} {record : FunctionRecord}
    (h : (ofText text).functionRecord? rules found = some (offset, record)) :
    ∃ head tail, text = head ++ tail ∧ offset = byteLength head ∧
      Declared rules head tail record.name record.body record.startLine record.endLine := by
  have hsignature : pattern.isSignature = true :=
    Rules.isSignature_of_mem hrules (by simp [Rules.signatures, hpattern])
  obtain ⟨head, read, tail, rfl, hoccurs⟩ := Pattern.occurs_of_mem_matchesIn hfound
  simp only [functionRecord?] at h
  split at h
  · simp at h
  rename_i nameSpan hspan
  split at h
  · simp at h
  rename_i name hname
  split at h
  · simp at h
  simp only [Option.some.injEq, Prod.mk.injEq] at h
  obtain ⟨rfl, rfl⟩ := h
  obtain ⟨hne, hfree⟩ := functionName?_eq_some hname
  obtain ⟨ahead, part, behind, hread, -, -, hstop⟩ := hoccurs.name hsignature hspan
  have hstart := hoccurs.start_eq
  refine ⟨head, read ++ tail, by simp, hstart, hoccurs.first hsignature, hne, hfree, ?_, ?_⟩
  · rw [hstart, List.append_assoc, lineOf_append]
  · rw [List.append_assoc, hstart]
    refine ⟨_, fun _ stop hlist => ?_, rfl, rfl⟩
    rw [Option.mem_def, Option.map_eq_some_iff] at hlist
    obtain ⟨list, hlist, rfl⟩ := hlist
    have htext : head ++ (read ++ tail) = head ++ ahead ++ part ++ (behind ++ tail) := by
      simp [hread]
    rw [hstop, htext] at hlist
    obtain ⟨between, inner, rest, hrest, -, hlistStop⟩ := parameterList?_eq_some hlist
    refine ⟨ahead ++ part ++ (between ++ '(' :: inner), ')' :: rest, ?_, by simpa using hlistStop,
      ?_⟩
    · simp [hread, hrest]
    · exact Scan.getLast?_append_lineHead_ne (by simp [Scan.lineHead])

/-- A class match in a text declares the class that is recorded for it. -/
theorem declared_of_classRecord? {language : Language} {rules : Rules}
    (hrules : Rules.of? language = some rules) {pattern : Pattern}
    (hpattern : pattern ∈ rules.classPatterns) {text : List Char} {found : Match}
    (hfound : found ∈ pattern.matchesIn text) {offset : Nat} {record : ClassRecord}
    (h : (ofText text).classRecord? rules found = some (offset, record)) :
    ∃ head tail, text = head ++ tail ∧ offset = byteLength head ∧
      Declared rules head tail record.name record.body record.startLine record.endLine := by
  have hsignature : pattern.isSignature = true :=
    Rules.isSignature_of_mem hrules (by simp [Rules.signatures, hpattern])
  obtain ⟨head, read, tail, rfl, hoccurs⟩ := Pattern.occurs_of_mem_matchesIn hfound
  simp only [classRecord?] at h
  split at h
  · simp at h
  rename_i name hname
  split at h
  · simp at h
  rename_i hfree
  simp only [Option.some.injEq, Prod.mk.injEq] at h
  obtain ⟨rfl, rfl⟩ := h
  simp only [capture?, Option.map_map, Option.map_eq_some_iff] at hname
  obtain ⟨span, hspan, rfl⟩ := hname
  obtain ⟨ahead, part, behind, hread, hpart, hspanStart, hspanStop⟩ := hoccurs.name hsignature hspan
  have hstart := hoccurs.start_eq
  refine ⟨head, read ++ tail, by simp, hstart, hoccurs.first hsignature, ?_, by simpa using hfree,
    ?_, ?_⟩
  · have hslice : (ofText (head ++ read ++ tail)).textOf span = part := by
      rw [textOf, hspanStart, hspanStop]
      have htext : head ++ read ++ tail = head ++ ahead ++ part ++ (behind ++ tail) := by
        simp [hread]
      rw [htext]
      exact slice_append _ _ _
    rw [Function.comp_apply, hslice]
    simpa using hpart
  · rw [hstart, List.append_assoc, lineOf_append]
  · rw [List.append_assoc, hstart]
    refine ⟨_, fun hbody stop hheader => ?_, rfl, rfl⟩
    obtain rfl : found.stop = stop := by simpa using hheader
    refine ⟨read, tail, rfl, hoccurs.stop_eq, Scan.getLast?_append_lineHead_ne fun _ hlast => ?_⟩
    have hend := hoccurs.spells.mayEnd_of_getLast? hlast
    rw [Rules.mayEnd_of_mem_classPatterns hrules hbody hpattern] at hend
    simp at hend

/-- The name in a variable match has a first character, and the variable is recorded on its line. -/
theorem exists_append_of_variableRecord? {language : Language} {rules : Rules}
    (hrules : Rules.of? language = some rules) {pattern : Pattern}
    (hpattern : pattern ∈ rules.variablePatterns) {text : List Char} {found : Match}
    (hfound : found ∈ pattern.matchesIn text) {offset : Nat} {record : VariableRecord}
    (h : (ofText text).variableRecord? rules found = some (offset, record)) :
    ∃ head c tail, text = head ++ c :: tail ∧ offset = byteLength head ∧
      record.line = head.count '\n' + 1 := by
  have hsignature : pattern.isSignature = true :=
    Rules.isSignature_of_mem hrules (by simp [Rules.signatures, hpattern])
  obtain ⟨head, read, tail, rfl, hoccurs⟩ := Pattern.occurs_of_mem_matchesIn hfound
  simp only [variableRecord?] at h
  split at h
  · simp at h
  rename_i nameSpan hspan
  split at h
  · simp at h
  simp only [Option.some.injEq, Prod.mk.injEq] at h
  obtain ⟨rfl, rfl⟩ := h
  obtain ⟨ahead, part, behind, hread, hpart, hstart, -⟩ := hoccurs.name hsignature hspan
  obtain ⟨c, rest, rfl⟩ := List.exists_cons_of_ne_nil hpart
  have htext : head ++ read ++ tail = head ++ ahead ++ c :: (rest ++ behind ++ tail) := by
    simp [hread]
  refine ⟨head ++ ahead, c, rest ++ behind ++ tail, htext, hstart, ?_⟩
  rw [hstart, htext, lineOf_append]

/-- The records are those of the matches of the patterns. -/
theorem mem_recordsOf {α : Type} {source : Source} {patterns : List Pattern}
    {record? : Match → Option (Nat × α)} {record : α} :
    record ∈ source.recordsOf patterns record? ↔
      ∃ pattern ∈ patterns, ∃ found ∈ pattern.matchesIn source.chars,
        ∃ offset, record? found = some (offset, record) := by
  simp only [recordsOf, List.mem_map, List.mem_mergeSort, List.mem_filterMap, List.mem_flatMap]
  constructor
  · rintro ⟨⟨offset, _⟩, ⟨found, ⟨pattern, hpattern, hfound⟩, hrecord⟩, rfl⟩
    exact ⟨pattern, hpattern, found, hfound, offset, hrecord⟩
  · rintro ⟨pattern, hpattern, found, hfound, offset, hrecord⟩
    exact ⟨(offset, record), ⟨found, ⟨pattern, hpattern, hfound⟩, hrecord⟩, rfl⟩

/-- Without a match nothing is recorded. -/
theorem recordsOf_eq_nil {α : Type} {source : Source} {pattern : Pattern}
    {record? : Match → Option (Nat × α)} (h : pattern.matchesIn source.chars = []) :
    source.recordsOf [pattern] record? = [] := by
  simp [recordsOf, h]

/-- One match that is recorded makes one record. -/
theorem recordsOf_eq_singleton {α : Type} {source : Source} {pattern : Pattern}
    {record? : Match → Option (Nat × α)} {found : Match} {offset : Nat} {record : α}
    (h : pattern.matchesIn source.chars = [found])
    (hrecord : record? found = some (offset, record)) :
    source.recordsOf [pattern] record? = [record] := by
  simp [recordsOf, h, hrecord]

/-- Records that stand on the lines of their offsets are in the order of their lines. -/
theorem pairwise_recordsOf {α : Type} {text : List Char} {patterns : List Pattern}
    {record? : Match → Option (Nat × α)} {line : α → Nat}
    (h : ∀ pattern ∈ patterns, ∀ found ∈ pattern.matchesIn text, ∀ offset record,
      record? found = some (offset, record) → line record = (ofText text).lineOf offset) :
    ((ofText text).recordsOf patterns record?).Pairwise fun a b => line a ≤ line b := by
  have hline : ∀ entry ∈ (patterns.flatMap fun pattern => pattern.matchesIn text).filterMap record?,
      line entry.2 = (ofText text).lineOf entry.1 := by
    intro entry hentry
    obtain ⟨found, hfound, hrecord⟩ := List.mem_filterMap.mp hentry
    obtain ⟨pattern, hpattern, hfound⟩ := List.mem_flatMap.mp hfound
    exact h pattern hpattern found hfound entry.1 entry.2 hrecord
  have hchars : (ofText text).chars = text := rfl
  rw [recordsOf, List.pairwise_map, hchars]
  generalize (patterns.flatMap fun pattern => pattern.matchesIn text).filterMap record? = entries
    at hline ⊢
  have hsorted : (entries.mergeSort fun a b => a.1 ≤ b.1).Pairwise fun a b =>
      decide (a.1 ≤ b.1) = true :=
    List.pairwise_mergeSort
      (fun a b c hab hbc => by simpa using Nat.le_trans (by simpa using hab) (by simpa using hbc))
      (fun a b => by simpa using Nat.le_total a.1 b.1) entries
  refine hsorted.imp_of_mem fun {a b} ha hb hab => ?_
  rw [hline a (List.mem_mergeSort.mp ha), hline b (List.mem_mergeSort.mp hb)]
  exact lineOf_mono text (by simpa using hab)

end Source

/-- Leaving out repeated functions changes neither the others nor their order. -/
theorem firstOccurrences_sublist (seen : List (String × Nat)) (records : List FunctionRecord) :
    (firstOccurrences seen records).Sublist records := by
  induction records generalizing seen with
  | nil => exact List.Sublist.refl []
  | cons record rest ih =>
    rw [firstOccurrences]
    split
    · exact (ih seen).cons record
    · exact (ih _).cons_cons record

section Extract

variable {language : Language} {rules : Rules}

/-- The functions of an inventory are among those found, in the order they are found in. -/
theorem functions_extract_sublist (hrules : Rules.of? language = some rules)
    (options : ExtractionOptions) (path : Path) (text : String) :
    (extract options path text language).functions.Sublist
      ((Source.ofText text.toList).recordsOf rules.functionPatterns
        ((Source.ofText text.toList).functionRecord? rules)) := by
  simp only [extract, hrules]
  split
  · exact firstOccurrences_sublist [] _
  · exact List.Sublist.refl _

/-- The classes of an inventory are those found. -/
theorem classes_extract (hrules : Rules.of? language = some rules) (options : ExtractionOptions)
    (path : Path) (text : String) :
    (extract options path text language).classes =
      (Source.ofText text.toList).recordsOf rules.classPatterns
        ((Source.ofText text.toList).classRecord? rules) := by
  simp only [extract, hrules]

/-- The variables of an inventory are those found. -/
theorem vars_extract (hrules : Rules.of? language = some rules) (options : ExtractionOptions)
    (path : Path) (text : String) :
    (extract options path text language).vars =
      (Source.ofText text.toList).recordsOf rules.variablePatterns
        ((Source.ofText text.toList).variableRecord? rules) := by
  simp only [extract, hrules]

/-- The lines of an inventory are counted by its language's comments. -/
theorem lines_extract (hrules : Rules.of? language = some rules) (options : ExtractionOptions)
    (path : Path) (text : String) :
    (extract options path text language).lines = LineCount.ofText text.toList rules.comments := by
  simp only [extract, hrules]

/-- Every function of an inventory is declared in the text. -/
theorem declared_of_mem_functions (hrules : Rules.of? language = some rules)
    {options : ExtractionOptions} {path : Path} {text : String} {record : FunctionRecord}
    (h : record ∈ (extract options path text language).functions) :
    ∃ head tail, text.toList = head ++ tail ∧
      Declared rules head tail record.name record.body record.startLine record.endLine := by
  have hfound := (functions_extract_sublist hrules options path text).subset h
  obtain ⟨pattern, hpattern, found, hfound, offset, hrecord⟩ := Source.mem_recordsOf.mp hfound
  obtain ⟨head, tail, htext, -, hdeclared⟩ :=
    Source.declared_of_functionRecord? hrules hpattern hfound hrecord
  exact ⟨head, tail, htext, hdeclared⟩

/-- Every class of an inventory is declared in the text. -/
theorem declared_of_mem_classes (hrules : Rules.of? language = some rules)
    {options : ExtractionOptions} {path : Path} {text : String} {record : ClassRecord}
    (h : record ∈ (extract options path text language).classes) :
    ∃ head tail, text.toList = head ++ tail ∧
      Declared rules head tail record.name record.body record.startLine record.endLine := by
  rw [classes_extract hrules] at h
  obtain ⟨pattern, hpattern, found, hfound, offset, hrecord⟩ := Source.mem_recordsOf.mp h
  obtain ⟨head, tail, htext, -, hdeclared⟩ :=
    Source.declared_of_classRecord? hrules hpattern hfound hrecord
  exact ⟨head, tail, htext, hdeclared⟩

/-- Every variable of an inventory is recorded on the line of a character of the text. -/
theorem exists_append_of_mem_vars (hrules : Rules.of? language = some rules)
    {options : ExtractionOptions} {path : Path} {text : String} {record : VariableRecord}
    (h : record ∈ (extract options path text language).vars) :
    ∃ head c tail, text.toList = head ++ c :: tail ∧ record.line = head.count '\n' + 1 := by
  rw [vars_extract hrules] at h
  obtain ⟨pattern, hpattern, found, hfound, offset, hrecord⟩ := Source.mem_recordsOf.mp h
  obtain ⟨head, c, tail, htext, -, hline⟩ :=
    Source.exists_append_of_variableRecord? hrules hpattern hfound hrecord
  exact ⟨head, c, tail, htext, hline⟩

/-- The functions of an inventory are in the order of their lines. -/
theorem pairwise_functions (hrules : Rules.of? language = some rules) (options : ExtractionOptions)
    (path : Path) (text : String) :
    (extract options path text language).functions.Pairwise fun a b =>
      a.startLine ≤ b.startLine := by
  refine List.Pairwise.sublist (functions_extract_sublist hrules options path text) ?_
  refine Source.pairwise_recordsOf fun pattern hpattern found hfound offset record hrecord => ?_
  obtain ⟨head, tail, htext, rfl, hdeclared⟩ :=
    Source.declared_of_functionRecord? hrules hpattern hfound hrecord
  rw [hdeclared.startLine_eq, htext, Source.lineOf_append]

/-- The classes of an inventory are in the order of their lines. -/
theorem pairwise_classes (hrules : Rules.of? language = some rules) (options : ExtractionOptions)
    (path : Path) (text : String) :
    (extract options path text language).classes.Pairwise fun a b =>
      a.startLine ≤ b.startLine := by
  rw [classes_extract hrules]
  refine Source.pairwise_recordsOf fun pattern hpattern found hfound offset record hrecord => ?_
  obtain ⟨head, tail, htext, rfl, hdeclared⟩ :=
    Source.declared_of_classRecord? hrules hpattern hfound hrecord
  rw [hdeclared.startLine_eq, htext, Source.lineOf_append]

/-- The variables of an inventory are in the order of their lines. -/
theorem pairwise_vars (hrules : Rules.of? language = some rules) (options : ExtractionOptions)
    (path : Path) (text : String) :
    (extract options path text language).vars.Pairwise fun a b => a.line ≤ b.line := by
  rw [vars_extract hrules]
  refine Source.pairwise_recordsOf fun pattern hpattern found hfound offset record hrecord => ?_
  obtain ⟨head, c, tail, htext, rfl, hline⟩ :=
    Source.exists_append_of_variableRecord? hrules hpattern hfound hrecord
  rw [hline, htext, Source.lineOf_append]

end Extract

end CodeQuality
