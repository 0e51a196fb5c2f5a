import CodeQuality.Analysis
import CodeQuality.Command.Settings
import CodeQuality.CommandLine.Command
import CodeQuality.Config.Encode
import CodeQuality.Files.Discovery
import CodeQuality.Report.Data
import CodeQuality.Report.Terminal

/-!
# Running commands

The commands that analyse files and write a configuration, and the choice among them.
-/

namespace CodeQuality

/-!
## Analysing files

The analysis of a file or of all selected files below a root, and the report on it.
-/

variable {m : Type → Type} [Monad m] [Host m]

/-- The selected files below a root, in the order of their paths. -/
def filesToAnalyze (config : Config) (root : Path) : ExceptT AnalysisError m (List Path) := do
  match ← (Host.kind? root : m _) with
  | none => throw (.pathNotFound root)
  | some _ =>
    match ← (Host.filesBelow root : m _) with
    | .error fault => throw (.walk fault.message)
    | .ok files => return config.discover root files

/-- What becomes of a file, given whether the analysis has been cancelled. -/
def analyzeAt (config : Config) (isCancelled : Bool) (path : Path) : m FileResult := do
  if isCancelled then return analyzeOne config true path none
  else return analyzeOne config false path (← Host.readText path).toOption

/-- The seconds since a reading of the clock. -/
def secondsSince (start : Nat) : m Float := do
  return secondsOf ((← Host.clock) - start)

/-- The outcome of all selected files below a root. -/
def analyzeFolder (config : Config) (isCancelled : Bool) (root : Path) :
    ExceptT AnalysisError m ProjectOutcome := do
  let start ← (Host.clock : m Nat)
  let files ← filesToAnalyze config root
  let results ← files.mapM fun path => (analyzeAt config isCancelled path : m FileResult)
  return ProjectOutcome.ofResults results (← (secondsSince start : m Float))

/-- The outcome of one file, whatever its language. -/
def analyzeFile (config : Config) (path : Path) : ExceptT AnalysisError m ProjectOutcome := do
  match ← (Host.kind? path : m _) with
  | none => throw (.pathNotFound path)
  | some _ =>
    let start ← (Host.clock : m Nat)
    match ← (Host.readText path : m _) with
    | .error fault => throw (.unreadable path fault)
    | .ok text =>
      let analysis := analyzeText config path text
      return ProjectOutcome.ofAnalyses [analysis] (← (secondsSince start : m Float))

/-- The text with a line break at its end. -/
def endLine (text : String) : String :=
  if text.toList.getLast? == some '\n' then text else text ++ "\n"

/-- Write the report to a file, or put it on the output. -/
def writeReport (project : ProjectOutcome) (format : ReportFormat) (output : Option Path)
    (top : Nat) : ExceptT AnalysisError m Unit := do
  let color ← (Host.hasColor : m Bool)
  let text := match format with
    | .json => Report.json project
    | .terminal => Report.terminal color project top
  match output with
  | none => (Host.print (endLine text) : m Unit)
  | some path =>
    match ← (Host.write path text : m _) with
    | .error fault => throw (.file fault)
    | .ok () => return ()

/-- Analyse what the options name and report on it. -/
def analyze (options : AnalyzeOptions) : ExceptT CommandError m Unit := do
  let config ← options.config
  let isFile := (← (Host.kind? options.path : m _)) == some .file
  let project ← whileDoing ("Failed to analyze " ++ options.path)
    (if isFile then analyzeFile config options.path else analyzeFolder config false options.path)
  whileDoing "Failed to write report"
    (writeReport project options.format options.output options.top)

/-! ## New configuration files -/

/-- Make a configuration file with the default settings in a folder. A file that is there is kept
unless the user insists. -/
def initConfig (folder : Path) (force : Bool) : ExceptT CommandError m Unit := do
  let path := Path.join folder configFileName
  if !force && (← (Host.kind? path : m _)).isSome then
    throw (.refused "Configuration file already exists. Use --force to overwrite.")
  match ← (Host.write path Config.defaultDocument : m _) with
  | .error fault => throw (.failed (.file fault))
  | .ok () => (Host.print ("Created " ++ path ++ "\n") : m Unit)

/-!
## Runs

A run reads the words of a command line and carries out the command that they ask for.
-/

/-- How a run ends: with an exit code and perhaps with a text for the user. -/
structure Ending where
  code : Nat
  complaint : String := ""
  deriving DecidableEq, Repr

/-- The name and version of the program. -/
def versionText : String := "qualmap 0.1.0\n"

/-- How the program is used. -/
def usageText : String :=
  "Heuristic multi-language code quality analyzer\n" ++
  "\n" ++
  "Usage: qualmap <COMMAND>\n" ++
  "\n" ++
  "Commands:\n" ++
  "  analyze  Analyze a file or directory tree\n" ++
  "  init     Write a default .qualmap.toml\n" ++
  "  help     Print this message or the help of the given subcommand(s)\n"

variable {m : Type → Type} [Monad m] [Host m]

/-- Carry out a command. -/
def Command.run : Command → ExceptT CommandError m Unit
  | .analyze options => CodeQuality.analyze options
  | .init folder force => initConfig folder force

/-- End a run that asks for no command. -/
def endUsage : CommandLine.UsageFault → m Ending
  | .helpRequested => do Host.print usageText; return ⟨0, ""⟩
  | .versionRequested => do Host.print versionText; return ⟨0, ""⟩
  | .nothingAsked => return ⟨CommandLine.UsageFault.nothingAsked.exitCode, usageText⟩
  | fault => return ⟨fault.exitCode, fault.message ++ "\n\n" ++ usageText⟩

/-- Run the words behind the program's name, where the environment may ask for a number of
workers. -/
def runWords (jobs : Option String) (words : List String) : m Ending := do
  match CommandLine.read jobs words with
  | .error fault => endUsage fault
  | .ok command =>
    match ← command.run.run with
    | .ok () => return ⟨0, ""⟩
    | .error error => return ⟨1, error.report ++ "\n"⟩

end CodeQuality
