import CodeQuality.Path

/-!
# Failures

Why a file cannot be read or written, why an analysis has no outcome, and why a command ends
without success. Every failure has a message, and the failure of a command also has the messages
of what caused it.
-/

namespace CodeQuality

/-- Why a file cannot be read or written. -/
inductive FileFault where
  | notFound
  | alreadyExists
  | notADirectory
  | isADirectory
  | linkLoop
  /-- The bytes of the file are not UTF-8. -/
  | notText
  | other (message : String)
  deriving DecidableEq, Repr

/-- The fault in words. -/
def FileFault.message : FileFault → String
  | notFound => "No such file or directory (os error 2)"
  | alreadyExists => "File exists (os error 17)"
  | notADirectory => "Not a directory (os error 20)"
  | isADirectory => "Is a directory (os error 21)"
  | linkLoop => "Too many levels of symbolic links (os error 40)"
  | notText => "stream did not contain valid UTF-8"
  | other message => message

/-- Why an analysis has no outcome. -/
inductive AnalysisError where
  | pathNotFound (path : Path)
  /-- One file could not be processed, perhaps because it could not be read. -/
  | fileAnalysis (path : Path) (message : String) (cause : Option FileFault)
  | configuration (message : String)
  /-- The root is there but its files cannot be listed. -/
  | walk (message : String)
  | file (fault : FileFault)
  /-- A configuration document does not have the right form. -/
  | malformedConfig
  deriving DecidableEq, Repr

namespace AnalysisError

/-- The failure of one file that could not be read. -/
def unreadable (path : Path) (fault : FileFault) : AnalysisError :=
  .fileAnalysis path fault.message (some fault)

/-- The failure in words. -/
def message : AnalysisError → String
  | pathNotFound path => "Path not found: " ++ path
  | fileAnalysis path message _ => "Failed to analyze " ++ path ++ ": " ++ message
  | configuration message => "Configuration error: " ++ message
  | walk message => "Walk error: " ++ message
  | file fault => fault.message
  | malformedConfig => "TOML parse error"

/-- What caused the failure. -/
def cause? : AnalysisError → Option FileFault
  | fileAnalysis _ _ cause => cause
  | _ => none

/-- The other files of a project can still be analysed. -/
def isRecoverable : AnalysisError → Bool
  | fileAnalysis .. => true
  | _ => false

end AnalysisError

/-- Why a command ends without success. -/
inductive CommandError where
  | refused (message : String)
  | failed (error : AnalysisError)
  | during (activity : String) (cause : CommandError)
  deriving DecidableEq, Repr

namespace CommandError

/-- The messages from the outermost one to the first cause. -/
def chain : CommandError → List String
  | refused message => [message]
  | failed error => error.message :: (error.cause?.map FileFault.message).toList
  | during activity cause => activity :: cause.chain

/-- The message of a cause, whose further lines begin below its first character. -/
def indented (margin head message : String) : String :=
  head ++ ("\n" ++ margin).intercalate ((message.toList.splitOn '\n').map String.ofList)

/-- The causes one below the other, numbered when there are several. -/
def causeLines : List String → List String
  | [cause] => [indented "    " "    " cause]
  | causes => causes.zipIdx.map fun (cause, n) =>
    indented "       " ("    " ++ toString n ++ ": ") cause

/-- The error as it is shown to the user. -/
def report (error : CommandError) : String :=
  match error.chain with
  | [] => "Error: "
  | [message] => "Error: " ++ message
  | message :: causes =>
    "Error: " ++ message ++ "\n\nCaused by:\n" ++ "\n".intercalate (causeLines causes)

end CommandError

end CodeQuality
