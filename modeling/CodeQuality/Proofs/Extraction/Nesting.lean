import CodeQuality.Proofs.Extraction.Record
import CodeQuality.Proofs.Scan.Nesting

/-!
# Nested declarations

Where bodies go by indentation, the header of a function or class begins its line. So headers that
take one line are headers in the sense of the blocks they open, and the bodies of two declarations
are as the blocks are: one lies in the other, or they have nothing in common.
-/

namespace CodeQuality

open Text

namespace Pattern

/-- The pattern reads a header from the beginning of its line on: an indentation, and then a
character that is part of neither an indentation nor a comment. -/
def BeginsLine (pattern : Pattern) : Prop :=
  ∃ rest, pattern = seq lineStart (seq gap rest) ∧ 0 < rest.minWidth ∧
    ∀ c, rest.mayBegin c = true → isBlank c = false ∧ c ≠ '#'

/-- A gap is white space. -/
theorem isBlank_of_isGap {c : Char} (h : isGap c = true) : isBlank c = true := by
  have hc : c = ' ' ∨ c = '\t' := by simpa [isGap] using h
  rcases hc with rfl | rfl <;> decide

/-- A line is not idle when the first character behind its indentation opens no comment. -/
theorem isIdleLine_append {indent : List Char} (hindent : ∀ c ∈ indent, isBlank c = true) {c : Char}
    (hblank : isBlank c = false) (hhash : c ≠ '#') (rest : List Char) :
    Scan.isIdleLine (indent ++ c :: rest) = false := by
  obtain ⟨tail, htail⟩ := exists_trim_cons hblank rest
  simp [Scan.isIdleLine, trim_append_left hindent, htail, hhash]

/-- A match of a header stands at the beginning of a line, which is not idle. -/
theorem Occurs.begins_line {pattern : Pattern} (hline : pattern.BeginsLine) {found : Match}
    {head read tail : List Char} (h : pattern.Occurs found head read tail) :
    (head = [] ∨ head.getLast? = some '\n') ∧
      Scan.isIdleLine (Scan.lineHead (read ++ tail)) = false := by
  obtain ⟨rest, rfl, hwidth, hbegin⟩ := hline
  constructor
  · obtain ⟨middle, hmiddle, -⟩ := List.mem_flatMap.mp h.ends
    have hstart : Cursor.atLineStart ⟨head.getLast?, read ++ tail, byteLength head, []⟩ = true := by
      by_contra hnot
      simp [Pattern.ends, hnot] at hmiddle
    cases hlast : head.getLast? with
    | none => exact Or.inl (List.getLast?_eq_none_iff.mp hlast)
    | some c => exact Or.inr (by simpa [Cursor.atLineStart, hlast] using hstart)
  · have hspells := h.spells
    cases hspells with
    | @seq _ _ start more hstart hmore =>
      cases hstart
      cases hmore with
      | @seq _ _ indent word hindent hword =>
        cases hindent with
        | run hgap =>
          have hindent : ∀ c ∈ indent, isBlank c = true := fun c hc => isBlank_of_isGap (hgap c hc)
          have hlength := hword.minWidth_le
          obtain ⟨c, rest, rfl⟩ : ∃ c rest, word = c :: rest :=
            List.exists_cons_of_length_pos (by omega)
          obtain ⟨hblank, hhash⟩ := hbegin c (hword.mayBegin_of_head? rfl)
          have hfeed : '\n' ∉ indent ++ [c] := by
            intro hmem
            rcases List.mem_append.mp hmem with hmem | hmem
            · exact absurd (hgap _ hmem) (by decide)
            · rw [← List.mem_singleton.mp hmem] at hblank
              exact absurd hblank (by decide)
          have hsplit : [] ++ (indent ++ c :: rest) ++ tail = indent ++ [c] ++ (rest ++ tail) := by
            simp
          rw [hsplit, Scan.lineHead_append hfeed, List.append_assoc, List.singleton_append]
          exact isIdleLine_append hindent hblank hhash _

end Pattern

/-- In Python the headers of functions and classes begin their lines. -/
theorem Rules.beginsLine_python {pattern : Pattern}
    (h : pattern ∈ python.functionPatterns ++ python.classPatterns) : pattern.BeginsLine := by
  have hpattern : pattern = pythonFunction ∨ pattern = pythonClass := by
    simpa [python] using h
  rcases hpattern with rfl | rfl
  · refine ⟨_, rfl, by decide, fun c hc => ?_⟩
    have hletter : 'a' = c ∨ 'd' = c := by
      simpa [Pattern.mayBegin, Pattern.inOrder, Pattern.minWidth, Pattern.word,
        Pattern.maybeThenGap] using hc
    rcases hletter with rfl | rfl <;> decide
  · refine ⟨_, rfl, by decide, fun c hc => ?_⟩
    obtain rfl : 'c' = c := by
      simpa [Pattern.mayBegin, Pattern.inOrder, Pattern.minWidth, Pattern.word] using hc
    decide

/-! ## Sites -/

/-- A function or class by where it stands: the offset it begins at, the offset its header ends at,
unless its parameters have no end, and its body. -/
structure Site where
  start : Nat
  headerEnd : Option Nat
  body : String
  deriving DecidableEq

namespace Site

/-- The stretch of text that the body takes. -/
def span (site : Site) : Span :=
  ⟨site.start, site.start + byteLength site.body.toList⟩

/-- No line feed stands between the beginning and the end of the header. -/
def OnOneLine (site : Site) (text : List Char) : Prop :=
  ∀ stop ∈ site.headerEnd, '\n' ∉ slice text site.start stop

instance (site : Site) (text : List Char) : Decidable (site.OnOneLine text) :=
  inferInstanceAs (Decidable (∀ stop ∈ site.headerEnd, '\n' ∉ slice text site.start stop))

end Site

/-- One of the stretches lies in the other, or they have nothing in common. -/
def Span.NestedOrApart (a b : Span) : Prop :=
  (a.stop ≤ b.start ∨ b.stop ≤ a.start) ∨
    (a.start ≤ b.start ∧ b.stop ≤ a.stop) ∨ (b.start ≤ a.start ∧ a.stop ≤ b.stop)

namespace Source

/-- The site of a function match. Its header ends with the parameter list. -/
def functionSite? (source : Source) (rules : Rules) (found : Match) : Option Site :=
  match found.span? .name, source.functionRecord? rules found with
  | some name, some (start, record) =>
    some ⟨start, (source.parameterList? rules.comments name.stop).map Span.stop, record.body⟩
  | _, _ => none

/-- The site of a class match. Its header ends with the match. -/
def classSite? (source : Source) (rules : Rules) (found : Match) : Option Site :=
  (source.classRecord? rules found).map fun (start, record) => ⟨start, some found.stop, record.body⟩

/-- The sites of all functions and classes. -/
def sites (source : Source) (rules : Rules) : List Site :=
  (rules.functionPatterns.flatMap fun pattern => pattern.matchesIn source.chars).filterMap
      (source.functionSite? rules) ++
    (rules.classPatterns.flatMap fun pattern => pattern.matchesIn source.chars).filterMap
      (source.classSite? rules)

/-- The body of a recorded function is the one behind its parameter list. -/
theorem functionRecord?_eq_some {source : Source} {rules : Rules} {found : Match} {offset : Nat}
    {record : FunctionRecord} (h : source.functionRecord? rules found = some (offset, record)) :
    offset = found.start ∧ record.startLine = source.lineOf found.start ∧
      ∃ name, found.span? .name = some name ∧
        record.body = String.ofList (source.bodyAt rules found.start
          ((source.parameterList? rules.comments name.stop).map Span.stop)).text := by
  simp only [functionRecord?] at h
  split at h
  · simp at h
  rename_i name hname
  split at h
  · simp at h
  split at h
  · simp at h
  simp only [Option.some.injEq, Prod.mk.injEq] at h
  obtain ⟨rfl, rfl⟩ := h
  exact ⟨rfl, rfl, name, hname, rfl⟩

/-- The body of a recorded class is the one behind its signature. -/
theorem classRecord?_eq_some {source : Source} {rules : Rules} {found : Match} {offset : Nat}
    {record : ClassRecord} (h : source.classRecord? rules found = some (offset, record)) :
    offset = found.start ∧ record.startLine = source.lineOf found.start ∧
      record.body = String.ofList (source.bodyAt rules found.start (some found.stop)).text := by
  simp only [classRecord?] at h
  split at h
  · simp at h
  split at h
  · simp at h
  simp only [Option.some.injEq, Prod.mk.injEq] at h
  obtain ⟨rfl, rfl⟩ := h
  exact ⟨rfl, rfl, rfl⟩

/-- A site is found by a match of a header. Its own header ends behind the beginning of the match,
and its body is located from there. -/
theorem exists_occurs_of_mem_sites {rules : Rules} {text : List Char} {site : Site}
    (h : site ∈ (ofText text).sites rules) :
    ∃ pattern ∈ rules.functionPatterns ++ rules.classPatterns, ∃ found head read tail,
      pattern.Occurs found head read tail ∧ text = head ++ (read ++ tail) ∧
      site.start = byteLength head ∧
      (∀ stop ∈ site.headerEnd, ∃ header rest, read ++ tail = header ++ rest ∧
        stop = byteLength (head ++ header)) ∧
      site.body = String.ofList ((ofText text).bodyAt rules site.start site.headerEnd).text := by
  rcases List.mem_append.mp h with hfunction | hclass
  · obtain ⟨found, hfound, hsite⟩ := List.mem_filterMap.mp hfunction
    obtain ⟨pattern, hpattern, hfound⟩ := List.mem_flatMap.mp hfound
    obtain ⟨head, read, tail, htext, hoccurs⟩ := Pattern.occurs_of_mem_matchesIn hfound
    have hchars : text = head ++ (read ++ tail) := by rw [← List.append_assoc]; exact htext
    rw [functionSite?] at hsite
    split at hsite
    · rename_i name start record hname hrecord
      obtain ⟨rfl, -, name', hname', hbody⟩ := functionRecord?_eq_some hrecord
      obtain rfl : name = name' := Option.some.inj (hname.symm.trans hname')
      obtain rfl := Option.some.inj hsite
      refine ⟨pattern, List.mem_append_left _ hpattern, found, head, read, tail, hoccurs, hchars,
        hoccurs.start_eq, ?_, hbody⟩
      intro stop hstop
      obtain ⟨list, hlist, rfl⟩ := Option.map_eq_some_iff.mp hstop
      obtain ⟨-, ahead, part, behind, -, -, hread, -, hspan⟩ := hoccurs.span hname
      have hcut : text = head ++ ahead ++ part ++ (behind ++ tail) := by simp [hchars, hread]
      rw [hspan, hcut] at hlist
      obtain ⟨between, inner, rest, hrest, -, hclosing⟩ := parameterList?_eq_some hlist
      exact ⟨ahead ++ part ++ (between ++ '(' :: inner), ')' :: rest, by simp [hread, hrest],
        by simpa using hclosing⟩
    · simp at hsite
  · obtain ⟨found, hfound, hsite⟩ := List.mem_filterMap.mp hclass
    obtain ⟨pattern, hpattern, hfound⟩ := List.mem_flatMap.mp hfound
    obtain ⟨head, read, tail, htext, hoccurs⟩ := Pattern.occurs_of_mem_matchesIn hfound
    have hchars : text = head ++ (read ++ tail) := by rw [← List.append_assoc]; exact htext
    obtain ⟨⟨start, record⟩, hrecord, rfl⟩ := Option.map_eq_some_iff.mp hsite
    obtain ⟨rfl, -, hbody⟩ := classRecord?_eq_some hrecord
    refine ⟨pattern, List.mem_append_right _ hpattern, found, head, read, tail, hoccurs, hchars,
      hoccurs.start_eq, ?_, hbody⟩
    intro stop hstop
    obtain rfl := Option.some.inj hstop
    exact ⟨read, tail, rfl, hoccurs.stop_eq⟩

/-- A body by indentation reaches from its beginning to the end of its block. -/
theorem bodyAt_indentation {rules : Rules} (hbody : rules.body = .indentation)
    (head header rest : List Char) :
    ∃ body behind, header ++ rest = body ++ behind ∧
      ((ofText (head ++ (header ++ rest))).bodyAt rules (byteLength head)
        (some (byteLength (head ++ header)))).text = body ∧
      Scan.indentedBodyEnd (head ++ (header ++ rest)) (byteLength head)
        (byteLength (head ++ header)) = byteLength (head ++ body) := by
  obtain ⟨more, behind, hmore, -, -, hend⟩ :=
    Scan.exists_append_of_indentedBodyEnd (head ++ header) rest (byteLength head)
  rw [List.append_assoc] at hend
  have hchars : (ofText (head ++ (header ++ rest))).chars = head ++ (header ++ rest) := rfl
  have htext : head ++ (header ++ rest) = head ++ (header ++ more) ++ behind := by simp [hmore]
  refine ⟨header ++ more, behind, by simp [hmore], ?_, by rw [hend, List.append_assoc]⟩
  simp only [bodyAt, hbody, hchars, hend, List.append_assoc head header more]
  rw [htext, slice_append]

end Source

/-- What the site of a function or class by indentation says about the text: its body stands there,
and where the header takes one line it is the header of a block that ends with the body. -/
structure Site.Fits (site : Site) (text : List Char) : Prop where
  body_eq : slice text site.span.start site.span.stop = site.body.toList
  bodiless : site.headerEnd = none → site.body = ""
  block : site.OnOneLine text → ∀ stop ∈ site.headerEnd,
    (∃ line, Scan.IsHeader text site.start stop line) ∧
      site.span.stop = Scan.indentedBodyEnd text site.start stop

/-- The sites of functions and classes in Python fit the text. -/
theorem Source.fits_of_mem_sites {text : List Char} {site : Site}
    (h : site ∈ (ofText text).sites Rules.python) : site.Fits text := by
  obtain ⟨pattern, hpattern, found, head, read, tail, hoccurs, rfl, hstart, hheader, hbody⟩ :=
    exists_occurs_of_mem_sites h
  obtain ⟨hline, hidle⟩ := hoccurs.begins_line (Rules.beginsLine_python hpattern)
  obtain ⟨start, headerEnd, body⟩ := site
  simp only at hstart hheader hbody
  subst hstart
  cases headerEnd with
  | none =>
    have hempty : body = "" := hbody
    exact ⟨by simp [Site.span, hempty, slice, takeBytes], fun _ => hempty, by simp⟩
  | some stop =>
    obtain ⟨header, rest, htext, rfl⟩ := hheader stop rfl
    rw [htext] at hbody hidle ⊢
    have hpython : Rules.python.body = .indentation := rfl
    obtain ⟨inner, behind, hcut, hinner, hend⟩ := bodyAt_indentation hpython head header rest
    have hlist : body.toList = inner := by rw [hbody, hinner, String.toList_ofList]
    have hstop : byteLength head + byteLength inner = byteLength (head ++ inner) := by simp
    refine ⟨?_, by simp, fun hone stop hmem => ?_⟩
    · simp only [Site.span, hlist, hstop]
      rw [hcut, ← List.append_assoc, slice_append]
    · obtain rfl := Option.some.inj hmem
      have hfeed : '\n' ∉ header := by
        have hslice := hone _ rfl
        rwa [← List.append_assoc, slice_append] at hslice
      refine ⟨⟨_, Scan.isHeader_append hline hfeed hidle⟩, ?_⟩
      simp only [Site.span, hlist, hstop, hend]

/-- Bodies whose headers take one line each are nested or have nothing in common. -/
theorem Site.Fits.nestedOrApart {a b : Site} {text : List Char} (ha : a.Fits text)
    (hb : b.Fits text) (hlineA : a.OnOneLine text) (hlineB : b.OnOneLine text) :
    a.span.NestedOrApart b.span := by
  have hempty (site : Site) (hnone : site.body = "") : site.span.stop = site.span.start := by
    simp [Site.span, hnone]
  cases hstopA : a.headerEnd with
  | none =>
    have hpoint := hempty a (ha.bodiless hstopA)
    unfold Span.NestedOrApart
    omega
  | some stopA =>
    cases hstopB : b.headerEnd with
    | none =>
      have hpoint := hempty b (hb.bodiless hstopB)
      unfold Span.NestedOrApart
      omega
    | some stopB =>
      obtain ⟨⟨first, hfirst⟩, hendA⟩ := ha.block hlineA stopA hstopA
      obtain ⟨⟨second, hsecond⟩, hendB⟩ := hb.block hlineB stopB hstopB
      have hstartA : a.span.start = a.start := rfl
      have hstartB : b.span.start = b.start := rfl
      unfold Span.NestedOrApart
      rcases Nat.lt_trichotomy a.start b.start with hlt | heq | hgt
      · have hnested := hfirst.disjoint_or_nested hsecond hlt
        omega
      · omega
      · have hnested := hsecond.disjoint_or_nested hfirst hgt
        omega

/-- Every function that is found has a site. -/
theorem Source.exists_site_of_functionRecord? {rules : Rules} {source : Source}
    {record : FunctionRecord}
    (h : record ∈ source.recordsOf rules.functionPatterns (source.functionRecord? rules)) :
    ∃ site ∈ source.sites rules, site.body = record.body ∧
      source.lineOf site.start = record.startLine := by
  obtain ⟨pattern, hpattern, found, hfound, offset, hrecord⟩ := mem_recordsOf.mp h
  obtain ⟨rfl, hline, name, hname, -⟩ := functionRecord?_eq_some hrecord
  refine ⟨_, List.mem_append_left _ (List.mem_filterMap.mpr ⟨found,
    List.mem_flatMap.mpr ⟨pattern, hpattern, hfound⟩, by rw [functionSite?, hname, hrecord]⟩), rfl,
    hline.symm⟩

/-- Every class that is found has a site. -/
theorem Source.exists_site_of_classRecord? {rules : Rules} {source : Source}
    {record : ClassRecord}
    (h : record ∈ source.recordsOf rules.classPatterns (source.classRecord? rules)) :
    ∃ site ∈ source.sites rules, site.body = record.body ∧
      source.lineOf site.start = record.startLine := by
  obtain ⟨pattern, hpattern, found, hfound, offset, hrecord⟩ := mem_recordsOf.mp h
  obtain ⟨rfl, hline, -⟩ := classRecord?_eq_some hrecord
  refine ⟨_, List.mem_append_right _ (List.mem_filterMap.mpr ⟨found,
    List.mem_flatMap.mpr ⟨pattern, hpattern, hfound⟩, by rw [classSite?, hrecord]; rfl⟩), rfl,
    hline.symm⟩

/-- Blocks by indentation never overlap in part. Of two headers of one line each in a text, the
block of the earlier one ends before the later one or takes its whole block in. So it is with the
bodies of all functions and classes of a text in Python whose headers take one line. -/
theorem indented_bodies_nest :
    (∀ (text : List Char) (a b headerA headerB : Nat) (first second : List Char),
      Scan.IsHeader text a headerA first → Scan.IsHeader text b headerB second → a < b →
        Scan.indentedBodyEnd text a headerA ≤ b ∨
          Scan.indentedBodyEnd text b headerB ≤ Scan.indentedBodyEnd text a headerA) ∧
    ∀ (options : ExtractionOptions) (path : Path) (text : String),
      let source := Source.ofText text.toList
      let sites := source.sites Rules.python
      (∀ record ∈ (extract options path text .python).functions, ∃ site ∈ sites,
        site.body = record.body ∧ source.lineOf site.start = record.startLine) ∧
      (∀ record ∈ (extract options path text .python).classes, ∃ site ∈ sites,
        site.body = record.body ∧ source.lineOf site.start = record.startLine) ∧
      (∀ site ∈ sites, slice text.toList site.span.start site.span.stop = site.body.toList) ∧
      ∀ a ∈ sites, ∀ b ∈ sites, a.OnOneLine text.toList → b.OnOneLine text.toList →
        a.span.NestedOrApart b.span := by
  refine ⟨fun _ _ _ _ _ _ _ ha hb hlt => ha.disjoint_or_nested hb hlt, ?_⟩
  intro options path text source sites
  have hpython : Rules.of? .python = some Rules.python := rfl
  refine ⟨fun record hrecord => ?_, fun record hrecord => ?_,
    fun site hsite => (Source.fits_of_mem_sites hsite).body_eq, fun a ha b hb hlineA hlineB => ?_⟩
  · exact Source.exists_site_of_functionRecord?
      ((functions_extract_sublist hpython options path text).subset hrecord)
  · exact Source.exists_site_of_classRecord? (classes_extract hpython options path text ▸ hrecord)
  · exact (Source.fits_of_mem_sites ha).nestedOrApart (Source.fits_of_mem_sites hb) hlineA hlineB

/-- A class and its method, which end together, and a function behind them. A comment without
indentation and a blank line stand in both bodies. -/
theorem indented_bodies_nest_method :
    let text := "class A:\n\tdef f():\n#\n\n\t\tx\n\ndef g(): y\n"
    let outer : Site := ⟨0, some 8, "class A:\n\tdef f():\n#\n\n\t\tx"⟩
    let inner : Site := ⟨9, some 16, "\tdef f():\n#\n\n\t\tx"⟩
    let last : Site := ⟨27, some 33, "def g(): y"⟩
    (Source.ofText text.toList).sites Rules.python = [inner, last, outer] ∧
      (Scan.indentedBodyEnd text.toList 0 7 ≤ 9 ∨
        Scan.indentedBodyEnd text.toList 9 16 ≤ Scan.indentedBodyEnd text.toList 0 7) ∧
      outer.span.NestedOrApart inner.span ∧ inner.span.NestedOrApart last.span := by
  intro text outer inner last
  have hfirst : Scan.IsHeader text.toList 0 7 "class A:".toList :=
    ⟨⟨[], text.toList, rfl, rfl, Or.inl rfl, by decide +kernel⟩, by decide +kernel,
      by decide +kernel, by decide, by decide +kernel⟩
  have hsecond : Scan.IsHeader text.toList 9 16 "\tdef f():".toList :=
    ⟨⟨text.toList.take 9, text.toList.drop 9, by simp, by decide +kernel,
      Or.inr (by decide +kernel), by decide +kernel⟩, by decide +kernel, by decide +kernel,
      by decide, by decide +kernel⟩
  have hsites : (Source.ofText text.toList).sites Rules.python = [inner, last, outer] := by
    decide +kernel
  have hmem {site : Site} (h : site ∈ [inner, last, outer]) :
      site ∈ (Source.ofText text.toList).sites Rules.python := hsites ▸ h
  obtain ⟨hblocks, hbodies⟩ := indented_bodies_nest
  obtain ⟨-, -, -, hnest⟩ := hbodies {} "a.py" text
  exact ⟨hsites, hblocks text.toList 0 9 7 16 _ _ hfirst hsecond (by decide),
    hnest outer (hmem (by simp)) inner (hmem (by simp)) (by decide +kernel) (by decide +kernel),
    hnest inner (hmem (by simp)) last (hmem (by simp)) (by decide +kernel) (by decide +kernel)⟩

end CodeQuality
