import CodeQuality.Config.Decode
import CodeQuality.Files.Host
import CodeQuality.Path

/-!
# Commands and their settings

What the user can ask for, and the configuration of a run.
-/

namespace CodeQuality

/-!
## Commands

What the user can ask for.
-/

/-- The form of a report. -/
inductive ReportFormat where
  | terminal
  | json
  deriving DecidableEq, Repr

namespace ReportFormat

/-- The word that stands for the form. -/
def word : ReportFormat → String
  | terminal => "terminal"
  | json => "json"

/-- The form that a word stands for. -/
def ofWord? (text : String) : Option ReportFormat :=
  [terminal, json].find? fun format => format.word == text

end ReportFormat

/-- What is analysed and how the report is made. -/
structure AnalyzeOptions where
  path : Path
  /-- The configuration file, the nearest one when absent. -/
  configFile : Option Path := none
  /-- Exclude patterns on top of those of the configuration. -/
  exclude : List String := []
  /-- The names of the languages to analyse. -/
  languages : Option (List String) := none
  format : ReportFormat := .terminal
  /-- Where the report goes, the output when absent. -/
  output : Option Path := none
  /-- The number of files listed in a report for people. -/
  top : Nat := 10
  jobs : Option Nat := none
  parallel : Bool := true
  verbosity : Nat := 0
  deriving DecidableEq, Repr

/-- A command. -/
inductive Command where
  | analyze (options : AnalyzeOptions)
  /-- Make a configuration file in a folder. -/
  | init (folder : Path) (force : Bool)
  deriving DecidableEq, Repr

/-!
## Settings of a run

The configuration of a run is read from a file that the user names, or else from the nearest
configuration file above the path that is analysed. What the user asks for on the command line
comes on top of it.
-/

/-- The name of configuration files. -/
def configFileName : String := ".qualmap.toml"

/-- How many folders are searched for a configuration file. -/
def searchDepth : Nat := 10

variable {m : Type → Type} [Monad m] [Host m]

/-- The configuration in a file, if the file is there and has the right form. -/
def configAt? (path : Path) : m (Option Config) := do
  match ← Host.readText path with
  | .ok text => return Config.ofToml? text
  | .error _ => return none

/-- The configuration in the first of the folders that has a good configuration file. -/
def firstConfig? : List Path → m (Option Config)
  | [] => return none
  | folder :: rest => do
    match ← configAt? (Path.join folder configFileName) with
    | some config => return some config
    | none => firstConfig? rest

/-- The folder in which the search for a configuration file begins. -/
def searchStart (path : Path) : m Path := do
  let folder :=
    if (← Host.kind? path) == some .file then (Path.parent? path).getD "" else path
  return (← Host.resolve? folder).getD folder

/-- The configuration for a path. It is the default one when there is no good configuration file
near. -/
def nearestConfig (path : Path) : m Config := do
  let start ← searchStart path
  return (← firstConfig? (Path.ancestors searchDepth start)).getD {}

/-- The configuration in a file that has to be there and to have the right form. -/
def configIn (path : Path) : ExceptT AnalysisError m Config := do
  match ← (Host.readText path : m _) with
  | .error fault => throw (.configuration ("cannot read " ++ path ++ ": " ++ fault.message))
  | .ok text =>
    match Config.ofToml? text with
    | some config => return config
    | none => throw .malformedConfig

/-- The languages that the user names. -/
def languagesNamed : List String → Except CommandError (List Language)
  | [] => .ok []
  | name :: rest =>
    match Language.ofName? name with
    | none => .error (.refused ("Unknown language: " ++ name))
    | some language => (languagesNamed rest).map (language :: ·)

/-- The configuration with what the user asks for on top of it. -/
def AnalyzeOptions.override (options : AnalyzeOptions) (config : Config) :
    Except CommandError Config := do
  let config := options.exclude.foldl Config.addExclude config
  let languages ← match options.languages with
    | none => pure config.languages
    | some names => some <$> languagesNamed names
  return { config with
    languages := languages
    jobs := options.jobs.getD config.jobs
    parallel := config.parallel && options.parallel }

/-- What fails during an activity fails because of its cause. -/
def whileDoing {α : Type} (activity : String) (action : ExceptT AnalysisError m α) :
    ExceptT CommandError m α :=
  ExceptT.adapt (fun error => .during activity (.failed error)) action

/-- The configuration of a run. -/
def AnalyzeOptions.config (options : AnalyzeOptions) : ExceptT CommandError m Config := do
  let config ← match options.configFile with
    | some path => whileDoing ("Failed to load config " ++ path) (configIn path)
    | none => liftM (nearestConfig options.path : m Config)
  liftExcept (options.override config)
where
  /-- A result as one step of a program. -/
  liftExcept {α : Type} (result : Except CommandError α) : ExceptT CommandError m α :=
    ExceptT.mk (pure result)

end CodeQuality
