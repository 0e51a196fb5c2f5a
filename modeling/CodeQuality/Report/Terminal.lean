import CodeQuality.Decimal
import CodeQuality.Metric.Kind
import CodeQuality.Outcome.Project

/-!
# Reports for people

The report on a project as it is printed, with a grid of its metrics.
-/

namespace CodeQuality.Report

/-!
## Grids

Rows of texts drawn with box characters. Every column is as wide as its widest text with a blank
on either side. A double line divides the header from the rows and dashed lines divide the rows.
-/

/-- The characters of a horizontal line: its left end, its stroke, its crossings and its right
end. -/
structure Rule where
  left : String
  stroke : Char
  crossing : String
  right : String

/-- The line above the header. -/
def topRule : Rule := ⟨"┌", '─', "┬", "┐"⟩

/-- The line below the header. -/
def headerRule : Rule := ⟨"╞", '═', "╪", "╡"⟩

/-- The line between two rows. -/
def rowRule : Rule := ⟨"├", '╌', "┼", "┤"⟩

/-- The line below the last row. -/
def bottomRule : Rule := ⟨"└", '─', "┴", "┘"⟩

/-- A line over columns of the given widths. -/
def Rule.draw (rule : Rule) (widths : List Nat) : String :=
  rule.left ++
    rule.crossing.intercalate
      (widths.map fun width => String.ofList (List.replicate (width + 2) rule.stroke)) ++
    rule.right

/-- A text with blanks behind it up to the width, and one blank on either side. -/
def cell (width : Nat) (text : String) : String :=
  " " ++ text ++ String.ofList (List.replicate (width - text.length) ' ') ++ " "

/-- A row of texts. -/
def drawRow (widths : List Nat) (row : List String) : String :=
  "│" ++ "┆".intercalate ((widths.zip row).map fun (width, text) => cell width text) ++ "│"

/-- The widths of the columns. -/
def columnWidths (header : List String) (rows : List (List String)) : List Nat :=
  rows.foldl (fun widths row => widths.zipWith max (row.map String.length))
    (header.map String.length)

/-- The header and the rows as lines of text. -/
def gridLines (header : List String) (rows : List (List String)) : List String :=
  let widths := columnWidths header rows
  [topRule.draw widths, drawRow widths header, headerRule.draw widths] ++
    (rows.map (drawRow widths)).intersperse (rowRule.draw widths) ++
    [bottomRule.draw widths]

/-!
## The report

A summary of a project, a grid of the metrics, and the files with the highest scores with their
most serious issues. Colours are escape sequences around a text.
-/

/-- How a text is shown. -/
inductive Style where
  | bold
  | red
  | boldRed
  | yellow
  | green
  deriving DecidableEq, Repr

/-- The parameters of the escape sequence of a style. -/
def Style.code : Style → String
  | bold => "1"
  | red => "31"
  | boldRed => "1;31"
  | yellow => "33"
  | green => "32"

/-- The text in a style, where colours are shown. -/
def paint (color : Bool) (style : Style) (text : String) : String :=
  if color then "\x1b[" ++ style.code ++ "m" ++ text ++ "\x1b[0m" else text

/-- A score with three places, in the colour of its badness. -/
def scoreLabel (color : Bool) (score : Float) : String :=
  let style : Style := if 0.6 ≤ score then .boldRed else if 0.3 ≤ score then .yellow else .green
  paint color style (Decimal.fixed 3 score)

/-- The lines at the head of the report. -/
def summary (color : Bool) (outcome : ProjectOutcome) : List String :=
  [paint color .bold "Code quality report",
   "Overall score: " ++ scoreLabel color outcome.overallScore ++ "  (" ++
     toString outcome.totalFiles ++ " files, " ++ toString outcome.totalLines ++ " lines, " ++
     Decimal.fixed 2 outcome.seconds ++ "s)",
   "Issues: " ++ toString outcome.totalIssues ++ " total, " ++
     paint color .red (toString outcome.critical) ++ " critical, " ++
     paint color .yellow (toString outcome.warning) ++ " warning, " ++
     toString outcome.info ++ " info"] ++
  (if outcome.incomplete then
    [paint color .yellow "Analysis was cancelled; results are partial."] else []) ++
  (if outcome.skipped.isEmpty then []
    else ["Skipped " ++ toString outcome.skipped.length ++ " unreadable files"])

/-- The row of a metric, if the project has a mean for it. -/
def metricRow? (outcome : ProjectOutcome) (kind : MetricKind) : Option (List String) :=
  (outcome.metricMeans.get? kind.name).map fun mean =>
    let weight := match outcome.metrics.get? kind.name with
      | some metric => Decimal.fixed 2 metric.weight
      | none => ""
    [kind.label, Decimal.fixed 3 mean, weight]

/-- The grid of the metrics, behind an empty line. -/
def metricLines (outcome : ProjectOutcome) : List String :=
  if outcome.metricMeans.isEmpty then []
  else
    "" :: gridLines ["Metric", "Mean score", "Weight"]
      (MetricKind.all.filterMap (metricRow? outcome))

/-- The number of issues shown for a file. -/
def shownIssues : Nat := 3

/-- A file with its most serious issues. Issues of one severity keep their order. -/
def fileLines (color : Bool) (file : FileOutcome) : List String :=
  let lines := file.lines
  let issues := (file.issues.mergeSort fun a b => b.severity.rank ≤ a.severity.rank).take
    shownIssues
  ("  " ++ scoreLabel color file.score ++ " " ++ file.path ++ "  (" ++ toString lines.total ++
    " lines, " ++ toString lines.code ++ " code, " ++ toString lines.comment ++ " comment, " ++
    toString lines.blank ++ " blank)") ::
  issues.map fun issue =>
    "      [" ++ issue.severity.key ++ "] " ++ issue.metric ++ ": " ++ issue.message

/-- The files with the highest scores, behind a title. -/
def worstLines (color : Bool) (worst : List FileOutcome) : List String :=
  if worst.isEmpty then []
  else "" :: paint color .bold "Files needing attention" :: worst.flatMap (fileLines color)

/-- The report of a project for people, with at most `top` files. -/
def terminal (color : Bool) (outcome : ProjectOutcome) (top : Nat) : String :=
  String.join ((summary color outcome ++ metricLines outcome ++
    worstLines color (outcome.worstFiles top)).map (· ++ "\n"))

end CodeQuality.Report
