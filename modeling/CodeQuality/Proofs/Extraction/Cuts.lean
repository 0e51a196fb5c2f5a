import CodeQuality.Proofs.Extraction.Record
import CodeQuality.Proofs.Scan.Cut

/-!
# Where the extraction cuts a text

The extraction cuts captures, parameter lists and bodies out of a text at offsets that searches in
other parts of the text have given. Main statement: whatever the text and the language, every scan
comes to an end and every cut is between two boundaries in order. A backslash may take a byte of a
longer character with it and a literal may have no end; neither moves a cut, since cuts are made
at ASCII marks, at line feeds and at the ends of matches.
-/

namespace CodeQuality

open Text

/-- What scans for brackets promise in a text. -/
structure Scan.Sound (text : List Char) (style : CommentStyle) : Prop where
  /-- Literals and comments begin where they are opened and end within the text. -/
  trivia : ∀ offset < byteLength text,
    offset ≤ triviaEnd (encode text) offset style ∧
      triviaEnd (encode text) offset style ≤ byteLength text ∧
      (offset < triviaEnd (encode text) offset style ↔ OpensTrivia (encode text) offset style)
  /-- No brace is closed that is not open. -/
  body : ∀ start, Completes bodyStep (encode text) style start (.outside 0)
    (fun state => state ≠ .inside 0) (braceBodyEnd (encode text) start style)
  body_end : ∀ start, ∀ closing ∈ braceBodyEnd (encode text) start style,
    MarkAt text start '}' closing
  list : ∀ opening, Completes parenStep (encode text) style opening 0 (fun _ => True)
    (matchingParen (encode text) opening style)
  list_end : ∀ opening, ∀ closing ∈ matchingParen (encode text) opening style,
    MarkAt text opening ')' closing

/-- Scans for brackets keep their promises in every text. -/
theorem Scan.sound (text : List Char) (style : CommentStyle) : Scan.Sound text style where
  trivia := by
    intro offset hoffset
    have hle : offset ≤ (encode text).length := by simpa using hoffset.le
    exact ⟨le_triviaEnd .., by simpa using triviaEnd_le hle style, lt_triviaEnd_iff ..⟩
  body start := completes_search (fun _ _ _ => bodyStep_onward_ne) _ _ _ (by simp)
  body_end start closing hclosing :=
    markAt_of_search (by decide) (fun _ _ => bodyStep_found) hclosing
  list opening := completes_search (fun _ _ _ _ _ => trivial) _ _ _ trivial
  list_end opening closing hclosing :=
    markAt_of_search (by decide) (fun _ _ => parenStep_found) hclosing

/-- The cuts that are made for the body of a declaration. -/
structure BodyCuts (rules : Rules) (text : List Char) (start : Nat) (headerEnd : Option Nat) :
    Prop where
  braces : rules.body = .braces →
    ∀ closing ∈ Scan.braceBodyEnd (encode text) start rules.comments,
      Sliceable text start (closing + 1)
  /-- The search for the end of the block is given boundaries in order, and gives one back. -/
  indentation : rules.body = .indentation → ∀ offset ∈ headerEnd,
    Sliceable text start offset ∧ Sliceable text start (Scan.indentedBodyEnd text start offset)

/-- The cuts that are made for a function match with the given name. -/
structure FunctionCuts (rules : Rules) (text : List Char) (found : Match) (name : Span) :
    Prop where
  /-- The text behind the name is searched for a parameter list. -/
  behind_name : Sliceable text name.stop (byteLength text)
  /-- The parameters and the text behind them. -/
  list : ∀ list ∈ (Source.ofText text).parameterList? rules.comments name.stop,
    Sliceable text (list.start + 1) list.stop ∧ Sliceable text (list.stop + 1) (byteLength text)
  body : BodyCuts rules text found.start
    (((Source.ofText text).parameterList? rules.comments name.stop).map Span.stop)

/-- Every cut that is made for a record is between two boundaries in order. -/
structure Rules.CutsSoundly (rules : Rules) (text : List Char) : Prop where
  captures : ∀ pattern ∈ rules.signatures, ∀ found ∈ pattern.matchesIn text, ∀ label,
    ∀ span ∈ found.span? label, Sliceable text span.start span.stop
  functions : ∀ pattern ∈ rules.functionPatterns, ∀ found ∈ pattern.matchesIn text,
    ∀ name ∈ found.span? .name, FunctionCuts rules text found name
  classes : ∀ pattern ∈ rules.classPatterns, ∀ found ∈ pattern.matchesIn text,
    BodyCuts rules text found.start (some found.stop)

/-- The cuts for a body are sound when the declaration begins at a boundary and its header ends at
one behind it. -/
theorem bodyCuts (rules : Rules) {text : List Char} {start : Nat} {headerEnd : Option Nat}
    (hstart : isBoundary text start = true)
    (hheader : ∀ offset ∈ headerEnd, Sliceable text start offset) :
    BodyCuts rules text start headerEnd where
  braces _ closing hclosing := by
    have hmark : Scan.MarkAt text start '}' closing :=
      Scan.markAt_of_search (by decide) (fun _ _ => Scan.bodyStep_found) hclosing
    exact {
      start_le := hmark.start_le.trans hmark.sliceable.start_le
      stop_le := hmark.sliceable.stop_le
      start_boundary := hstart
      stop_boundary := hmark.sliceable.stop_boundary }
  indentation _ offset hoffset := by
    have hcut := hheader offset hoffset
    have hends := Scan.blockEnds_indentedBodyEnd start hcut.stop_boundary
    refine ⟨hcut, ?_⟩
    exact {
      start_le := hcut.start_le.trans hends.headerEnd_le
      stop_le := hends.stop_le
      start_boundary := hstart
      stop_boundary := hends.boundary }

/-- The parameters in a list and the text behind it can be cut out. -/
theorem Source.sliceable_parameterList {head tail : List Char} {style : CommentStyle} {list : Span}
    (h : (ofText (head ++ tail)).parameterList? style (byteLength head) = some list) :
    byteLength head ≤ list.start ∧ Sliceable (head ++ tail) (list.start + 1) list.stop ∧
      Sliceable (head ++ tail) (list.stop + 1) (byteLength (head ++ tail)) := by
  obtain ⟨ahead, inner, rest, rfl, hopen, hclose⟩ := parameterList?_eq_some h
  have hinner : list.start + 1 = byteLength (head ++ (ahead ++ ['('])) := by
    rw [hopen]
    simp [show Char.utf8Size '(' = 1 by decide, Nat.add_assoc]
  have hstop : list.stop = byteLength (head ++ (ahead ++ ['(']) ++ inner) := by
    rw [hclose]
    simp
  have hbehind : list.stop + 1 = byteLength (head ++ (ahead ++ '(' :: (inner ++ [')']))) := by
    rw [hclose]
    simp [show Char.utf8Size ')' = 1 by decide, Nat.add_assoc]
  refine ⟨by simp [hopen], ?_, ?_⟩
  · rw [hinner, hstop]
    simpa using sliceable_append (head ++ (ahead ++ ['('])) inner (')' :: rest)
  · rw [hbehind]
    simpa using sliceable_behind (head ++ (ahead ++ '(' :: (inner ++ [')']))) rest

namespace Pattern.Occurs

variable {pattern : Pattern} {found : Match} {head read tail : List Char}

/-- A match can be cut out. -/
theorem sliceable (h : pattern.Occurs found head read tail) :
    Sliceable (head ++ read ++ tail) found.start found.stop := by
  rw [h.start_eq, h.stop_eq]
  simpa using sliceable_append head read tail

/-- The captures of a match can be cut out. -/
theorem sliceable_span (h : pattern.Occurs found head read tail) {label : Label} {span : Span}
    (hspan : found.span? label = some span) :
    Sliceable (head ++ read ++ tail) span.start span.stop := by
  obtain ⟨-, ahead, part, behind, -, -, rfl, hstart, hstop⟩ := h.span hspan
  rw [hstart, hstop]
  simpa using sliceable_append (head ++ ahead) part (behind ++ tail)

/-- The cuts for a function match are sound. -/
theorem functionCuts (h : pattern.Occurs found head read tail) (rules : Rules) {name : Span}
    (hname : found.span? .name = some name) :
    FunctionCuts rules (head ++ read ++ tail) found name := by
  obtain ⟨-, ahead, part, behind, -, -, hread, -, hstop⟩ := h.span hname
  have htext : head ++ read ++ tail = head ++ ahead ++ part ++ (behind ++ tail) := by simp [hread]
  have hlist (list : Span)
      (hsome : list ∈ (Source.ofText (head ++ read ++ tail)).parameterList? rules.comments
        name.stop) :
      name.stop ≤ list.start ∧ Sliceable (head ++ read ++ tail) (list.start + 1) list.stop ∧
        Sliceable (head ++ read ++ tail) (list.stop + 1) (byteLength (head ++ read ++ tail)) := by
    rw [htext, hstop] at hsome ⊢
    exact Source.sliceable_parameterList hsome
  have hbefore : found.start ≤ name.stop := by
    rw [h.start_eq, hstop]
    simp
  exact {
    behind_name := by
      rw [htext, hstop]
      exact sliceable_behind (head ++ ahead ++ part) (behind ++ tail)
    list := fun list hsome => (hlist list hsome).2
    body := by
      refine bodyCuts rules h.sliceable.start_boundary ?_
      intro offset hoffset
      obtain ⟨list, hsome, rfl⟩ := Option.map_eq_some_iff.mp hoffset
      obtain ⟨hopen, hinner, -⟩ := hlist list hsome
      have hordered := hinner.start_le
      exact {
        start_le := by omega
        stop_le := hinner.stop_le
        start_boundary := h.sliceable.start_boundary
        stop_boundary := hinner.stop_boundary } }

end Pattern.Occurs

/-- The cuts for the records of a text are sound, by whatever rules they are made. -/
theorem Rules.cutsSoundly (rules : Rules) (text : List Char) : rules.CutsSoundly text where
  captures pattern _ found hfound label span hspan := by
    obtain ⟨head, read, tail, rfl, hoccurs⟩ := Pattern.occurs_of_mem_matchesIn hfound
    exact hoccurs.sliceable_span hspan
  functions pattern _ found hfound name hname := by
    obtain ⟨head, read, tail, rfl, hoccurs⟩ := Pattern.occurs_of_mem_matchesIn hfound
    exact hoccurs.functionCuts rules hname
  classes pattern _ found hfound := by
    obtain ⟨head, read, tail, rfl, hoccurs⟩ := Pattern.occurs_of_mem_matchesIn hfound
    refine bodyCuts rules hoccurs.sliceable.start_boundary ?_
    intro offset hoffset
    obtain rfl := Option.some.inj hoffset
    exact hoccurs.sliceable

/-- Whatever the text and the language, every scan comes to its end and every cut that the
extraction makes is between two boundaries in order. -/
theorem extraction_cuts_between_boundaries (text : String) (language : Language) :
    (∀ style, Scan.Sound text.toList style) ∧
      (∀ start headerEnd, Sliceable text.toList start headerEnd →
        Scan.BlockEnds text.toList start headerEnd
          (Scan.indentedBodyEnd text.toList start headerEnd)) ∧
      ∀ rules ∈ Rules.of? language, rules.CutsSoundly text.toList :=
  ⟨fun style => Scan.sound text.toList style,
    fun start _ hheader => Scan.blockEnds_indentedBodyEnd start hheader.stop_boundary,
    fun rules _ => rules.cutsSoundly text.toList⟩

/-- A backslash that takes half of a character with it, and a block that ends with an open
literal. -/
theorem extraction_cuts_between_boundaries_escape :
    let script := "function f(a = \"\\é)\") \x7b return '\x7dé' \x7d"
    let block := "def f(x):\n  # ü\n  s = '\\é\n"
    isBoundary script.toList 18 = false ∧
      Scan.triviaEnd (encode script.toList) 15 .slashes = 21 ∧
      Scan.matchingParen (encode script.toList) 10 .slashes = some 21 ∧
      Scan.MarkAt script.toList 10 ')' 21 ∧
      Scan.braceBodyEnd (encode script.toList) 0 .slashes = some 38 ∧
      Scan.MarkAt script.toList 0 '}' 38 ∧
      Scan.indentedBodyEnd block.toList 0 7 = 27 ∧
      Scan.BlockEnds block.toList 0 7 27 := by
  intro script block
  have hlist : Scan.matchingParen (encode script.toList) 10 .slashes = some 21 := by
    decide +kernel
  have hbody : Scan.braceBodyEnd (encode script.toList) 0 .slashes = some 38 := by
    decide +kernel
  have hblock : Scan.indentedBodyEnd block.toList 0 7 = 27 := by decide +kernel
  have hheader : Sliceable block.toList 0 7 :=
    ⟨by decide, by decide +kernel, by decide +kernel, by decide +kernel⟩
  obtain ⟨hscan, -, -⟩ := extraction_cuts_between_boundaries script .javascript
  obtain ⟨-, hends, -⟩ := extraction_cuts_between_boundaries block .python
  refine ⟨by decide +kernel, by decide +kernel, hlist, (hscan .slashes).list_end 10 21 hlist, hbody,
    (hscan .slashes).body_end 0 38 hbody, hblock, ?_⟩
  exact hblock ▸ hends 0 7 hheader

end CodeQuality
