import CodeQuality.Extraction.Record
import CodeQuality.Extraction.Source
import CodeQuality.Rules.Table

/-!
# Extraction

The records of a file are read off the matches of its language's signature patterns. Matches of
all patterns are put in the order of their beginnings. Where two patterns match the same function,
the record of the earlier one stands for both unless duplicates are asked for.
-/

namespace CodeQuality

open Text

/-- The name of a function: the last segment of a qualified name without the destructor's mark,
unless it is reserved. -/
def functionName? (raw : List Char) : Option String :=
  let name := String.ofList (dropLeading (· == '~') (afterLast [':', ':'] raw))
  if name.isEmpty || isReserved name then none else some name

namespace Source

/-- The access of a declaration by what its match records. -/
def accessOf (source : Source) (rules : Rules) (found : Match) (name : String) : Access :=
  rules.access.resolve ((source.capture? found .access).map String.ofList) name
    (found.span? .staticWord).isSome

/-- The record of a function match, with the offset it begins at. -/
def functionRecord? (source : Source) (rules : Rules) (found : Match) :
    Option (Nat × FunctionRecord) :=
  match found.span? .name with
  | none => none
  | some nameSpan =>
    match functionName? (source.textOf nameSpan) with
    | none => none
    | some name =>
      let written := source.capture? found .returnType
      if Signature.isKeywordType written then none
      else
        let list := source.parameterList? rules.comments nameSpan.stop
        let inner := match list with
          | some span => slice source.chars (span.start + 1) span.stop
          | none => []
        let behind := match list with
          | some span => dropBytes (span.stop + 1) source.chars
          | none => []
        let body := source.bodyAt rules found.start (list.map Span.stop)
        some (found.start,
          { name := name
            body := String.ofList body.text
            startLine := source.lineOf found.start
            endLine := body.endLine
            parameters :=
              Signature.parameters rules.parameterOrder rules.implicitParameters inner
            returnType := String.ofList (Signature.returnType rules.returns written behind)
            access := source.accessOf rules found name })

/-- The record of a class match, with the offset it begins at. -/
def classRecord? (source : Source) (rules : Rules) (found : Match) :
    Option (Nat × ClassRecord) :=
  match (source.capture? found .name).map String.ofList with
  | none => none
  | some name =>
    if isReserved name then none
    else
      let body := source.bodyAt rules found.start (some found.stop)
      some (found.start,
        { name := name
          body := String.ofList body.text
          startLine := source.lineOf found.start
          endLine := body.endLine
          heritage :=
            Signature.heritage rules.heritage ((source.capture? found .heritage).getD [])
          access := source.accessOf rules found name })

/-- A name in capitals with at least one letter, where case makes constants. -/
def isConstantByCase (rules : Rules) (name : List Char) : Bool :=
  rules.constantByCase && name.any Char.isAlpha && Casing.screamingSnake.fits name

/-- The record of a variable match, with the offset of its name. -/
def variableRecord? (source : Source) (rules : Rules) (found : Match) :
    Option (Nat × VariableRecord) :=
  match found.span? .name with
  | none => none
  | some nameSpan =>
    let raw := source.textOf nameSpan
    let name := String.ofList raw
    let type := source.capture? found .declaredType
    if isReserved name || Signature.isKeywordType type then none
    else
      some (nameSpan.start,
        { name := name
          type := Signature.variableType type rules.dynamicTyping
          line := source.lineOf nameSpan.start
          access := source.accessOf rules found name
          isConst := (found.span? .constWord).isSome || isConstantByCase rules raw
          isStatic := (found.span? .staticWord).isSome })

/-- The records of all matches of the patterns, in the order of their offsets. Records with the
same offset keep the order of their patterns. -/
def recordsOf {α : Type} (source : Source) (patterns : List Pattern)
    (record? : Match → Option (Nat × α)) : List α :=
  let found := (patterns.flatMap fun pattern => pattern.matchesIn source.chars).filterMap record?
  (found.mergeSort fun a b => a.1 ≤ b.1).map Prod.snd

end Source

/-- The functions without those that repeat the name and line of an earlier one. -/
def firstOccurrences (seen : List (String × Nat)) : List FunctionRecord → List FunctionRecord
  | [] => []
  | record :: rest =>
    if seen.contains (record.name, record.startLine) then firstOccurrences seen rest
    else record :: firstOccurrences ((record.name, record.startLine) :: seen) rest

/-- What the extraction is asked to do. -/
structure ExtractionOptions where
  /-- Keep one record for each name and line. -/
  deduplicate : Bool := true
  deriving DecidableEq, Repr

/-- The inventory of a text. A file without rules has its lines counted and no records. -/
def extract (options : ExtractionOptions) (path : Path) (text : String) (language : Language) :
    Inventory :=
  let chars := text.toList
  match Rules.of? language with
  | none =>
    { path := path, language := language, content := text
      lines := LineCount.ofText chars .slashes }
  | some rules =>
    let source := Source.ofText chars
    let functions := source.recordsOf rules.functionPatterns (source.functionRecord? rules)
    { path := path
      language := language
      content := text
      lines := LineCount.ofText chars rules.comments
      functions := if options.deduplicate then firstOccurrences [] functions else functions
      classes := source.recordsOf rules.classPatterns (source.classRecord? rules)
      vars := source.recordsOf rules.variablePatterns (source.variableRecord? rules) }

end CodeQuality
