import CodeQuality.Command.Settings
import CodeQuality.CommandLine.Reading

/-!
# Command lines

The command that the words of a command line ask for.
-/

namespace CodeQuality.CommandLine

/-- The number of workers that the environment asks for, unless the words do. -/
def addJobs (environment : Option String) (reading : Reading) : Except UsageFault Reading :=
  match environment with
  | none => .ok reading
  | some value =>
    if reading.has "jobs" then .ok reading
    else
      match ValueForm.count.fault? value with
      | some fault => .error fault
      | none => .ok (reading.add "jobs" [value])

/-- The most that an argument counts. -/
def tallyLimit : Nat := 255

/-- The analysis that the words ask for. -/
def analyzeCommand (reading : Reading) : Except UsageFault Command :=
  match reading.values "path" with
  | [] => .error .missingArgument
  | path :: _ =>
    .ok <| .analyze
      { path := path
        configFile := (reading.values "config").head?
        exclude := reading.values "exclude"
        languages := if reading.has "languages" then some (reading.values "languages") else none
        format := ((reading.values "format").head?.bind ReportFormat.ofWord?).getD .terminal
        output := (reading.values "output").head?
        top := ((reading.values "top").head?.bind count?).getD 10
        jobs := (reading.values "jobs").head?.bind count?
        parallel := !reading.has "no-parallel"
        verbosity := min (reading.times "verbose") tallyLimit }

/-- The new configuration file that the words ask for. -/
def initCommand (reading : Reading) : Command :=
  .init ((reading.values "path").head?.getD ".") (reading.has "force")

/-- The names of the commands. -/
def commandNames : List String := ["analyze", "init", "help"]

/-- The request for help on the command that the words name. -/
def helpOn : List String → UsageFault
  | [] => .helpRequested
  | [name] => if commandNames.contains name then .helpRequested else .unknownCommand
  | _ => .unknownCommand

/-- An argument that stands where a command is due. -/
def leading (text : String) : UsageFault :=
  match text.toList with
  | '-' :: '-' :: body =>
    let name := String.ofList (body.takeWhile (· != '='))
    if name == "help" || name == "version" then
      if body.contains '=' then .needlessValue
      else if name == "help" then .helpRequested else .versionRequested
    else .unknownArgument
  | '-' :: 'h' :: _ => .helpRequested
  | '-' :: 'V' :: _ => .versionRequested
  | '-' :: _ :: _ => .unknownArgument
  | _ => .unknownCommand

/-- The command that the words behind the program's name ask for. -/
def read (environment : Option String) : List String → Except UsageFault Command
  | [] => .error .nothingAsked
  | ["--"] => .error .nothingAsked
  | "--" :: text :: _ =>
    .error (if commandNames.contains text then .unknownArgument else .unknownCommand)
  | "analyze" :: rest => do
    analyzeCommand (← addJobs environment (← Reading.words analyzeForm {} rest))
  | "init" :: rest => do return initCommand (← Reading.words initForm {} rest)
  | "help" :: rest => .error (helpOn rest)
  | text :: _ => .error (leading text)

end CodeQuality.CommandLine
