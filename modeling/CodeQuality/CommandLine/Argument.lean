import CodeQuality.Json.Reader

/-!
# Arguments

What a command takes, and why a command line may ask for no command.
-/

namespace CodeQuality.CommandLine

/-!
## Usage faults

Why a command line asks for no command. A request for help or for the version is one of them.
-/

/-- Why a command line asks for no command. -/
inductive UsageFault where
  | helpRequested
  | versionRequested
  /-- Nothing is asked for, so help is shown. -/
  | nothingAsked
  | unknownCommand
  | unknownArgument
  | missingArgument
  /-- A value is missing, or is not one of those allowed. -/
  | invalidValue
  /-- A value does not have the right form. -/
  | malformedValue
  /-- A value is given where none is taken. -/
  | needlessValue
  /-- An argument is given again that may be given once. -/
  | repeatedArgument
  deriving DecidableEq, Repr

namespace UsageFault

/-- The user asked for what is shown. -/
def isRequest : UsageFault → Bool
  | helpRequested | versionRequested => true
  | _ => false

/-- The exit code. -/
def exitCode (fault : UsageFault) : Nat :=
  if fault.isRequest then 0 else 2

/-- The fault in words. -/
def message : UsageFault → String
  | helpRequested | nothingAsked => ""
  | versionRequested => ""
  | unknownCommand => "error: unrecognized subcommand"
  | unknownArgument => "error: unexpected argument"
  | missingArgument => "error: a required argument was not provided"
  | invalidValue => "error: invalid value"
  | malformedValue => "error: malformed value"
  | needlessValue => "error: unexpected value"
  | repeatedArgument => "error: the argument cannot be used multiple times"

end UsageFault

/-!
## Forms of arguments

What a command takes: arguments with a name of several letters and perhaps one of a single letter,
and one argument without a name.
-/

/-- The form of a value. -/
inductive ValueForm where
  /-- Any text but the empty one. -/
  | path
  | text
  /-- Texts with commas between them. -/
  | texts
  | count
  /-- One of the given words. -/
  | word (choices : List String)
  deriving DecidableEq, Repr

/-- The count that a text of digits stands for. A plus sign may come first. -/
def count? (text : String) : Option Nat :=
  let body := match text.toList with
    | '+' :: rest => rest
    | chars => chars
  match Json.digits body with
  | ([], _) => none
  | (digits, []) =>
    let value := digits.foldl (fun value d => value * 10 + d) 0
    if value < wordCount then some value else none
  | (_, _ :: _) => none

namespace ValueForm

/-- The values that one text gives. -/
def values (form : ValueForm) (text : String) : List String :=
  match form with
  | texts => (text.toList.splitOn ',').map String.ofList
  | _ => [text]

/-- What is wrong with a value. -/
def fault? (form : ValueForm) (value : String) : Option UsageFault :=
  match form with
  | path => if value == "" then some .invalidValue else none
  | text => none
  | texts => none
  | count => if (count? value).isSome then none else some .malformedValue
  | word choices => if choices.contains value then none else some .invalidValue

end ValueForm

/-- What an argument does. -/
inductive Action where
  /-- Takes a value, once. -/
  | single (form : ValueForm)
  /-- Takes a value each time it is given. -/
  | repeated (form : ValueForm)
  /-- Is given or not. -/
  | flag
  /-- Counts how often it is given. -/
  | tally
  | help
  deriving DecidableEq, Repr

/-- The form of the value that the argument takes, if it takes one. -/
def Action.form? : Action → Option ValueForm
  | single form => some form
  | repeated form => some form
  | _ => none

/-- An argument of a command. -/
structure Argument where
  name : String
  letter : Option Char := none
  action : Action
  deriving DecidableEq, Repr

/-- The arguments of a command. -/
structure CommandForm where
  /-- The argument that is given without its name. -/
  positional : Argument
  named : List Argument

namespace CommandForm

/-- The argument of a name. -/
def ofName? (form : CommandForm) (name : String) : Option Argument :=
  form.named.find? fun argument => argument.name == name

/-- The argument of a letter. -/
def ofLetter? (form : CommandForm) (letter : Char) : Option Argument :=
  form.named.find? fun argument => argument.letter == some letter

end CommandForm

/-- The request for help. -/
def helpArgument : Argument := ⟨"help", some 'h', .help⟩

/-- The words for the form of a report. -/
def formatWords : List String := ["terminal", "json"]

/-- The arguments of the analysis. -/
def analyzeForm : CommandForm where
  positional := ⟨"path", none, .single .path⟩
  named :=
    [⟨"config", some 'c', .single .path⟩,
     ⟨"exclude", some 'x', .repeated .text⟩,
     ⟨"languages", none, .repeated .texts⟩,
     ⟨"format", some 'f', .single (.word formatWords)⟩,
     ⟨"output", some 'o', .single .path⟩,
     ⟨"top", none, .single .count⟩,
     ⟨"jobs", some 'j', .single .count⟩,
     ⟨"no-parallel", none, .flag⟩,
     ⟨"verbose", some 'v', .tally⟩,
     helpArgument]

/-- The arguments of the command that makes a configuration file. -/
def initForm : CommandForm where
  positional := ⟨"path", none, .single .path⟩
  named := [⟨"force", some 'f', .flag⟩, helpArgument]

end CodeQuality.CommandLine
