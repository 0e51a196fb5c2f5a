import CodeQuality.Command.Run

/-!
# Program

The commands on the files of the machine.
-/

namespace CodeQuality

/-- The fault behind the number of a system error. -/
def FileFault.ofCode (code : UInt32) (details : String) : FileFault :=
  if code = 2 then .notFound
  else if code = 17 then .alreadyExists
  else if code = 20 then .notADirectory
  else if code = 21 then .isADirectory
  else if code = 40 then .linkLoop
  else .other (details ++ " (os error " ++ toString code ++ ")")

/-- The fault behind a failed system call. -/
def FileFault.ofError : IO.Error → FileFault
  | .noFileOrDirectory _ code details => .ofCode code details
  | .alreadyExists _ code details => .ofCode code details
  | .inappropriateType _ code details => .ofCode code details
  | .permissionDenied _ code details => .ofCode code details
  | .resourceExhausted _ code details => .ofCode code details
  | .invalidArgument _ code details => .ofCode code details
  | .otherError code details => .ofCode code details
  | error => .other (toString error)

/-- Make a system call and keep its fault. -/
def attempt {α : Type} (call : IO α) : IO (Except FileFault α) := do
  match ← call.toBaseIO with
  | .ok value => return .ok value
  | .error error => return .error (FileFault.ofError error)

/-- What a path leads to. -/
def kindOnMachine (path : Path) : IO (Option EntryKind) := do
  match ← attempt (do return (← (← IO.FS.realPath path).metadata).type) with
  | .ok .file => return some .file
  | .ok .dir => return some .folder
  | .ok _ => return some .special
  | .error _ => return none

/-- The paths of the regular files below a folder. Each is put behind the path from the root to
the folder. What cannot be listed is passed over, except for the folder itself. -/
partial def filesInFolder (folder relative : Path) : IO (List Path) := do
  let place ← IO.FS.realPath folder
  let mut files := []
  for entry in ← place.readDir do
    let path := if relative == "" then entry.fileName else relative ++ "/" ++ entry.fileName
    match ← attempt (do return (← entry.path.symlinkMetadata).type) with
    | .ok .file => files := path :: files
    | .ok .dir =>
      match ← attempt (filesInFolder (Path.join folder entry.fileName) path) with
      | .ok more => files := more ++ files
      | .error _ => pure ()
    | _ => pure ()
  return files

/-- The machine that the program runs on. -/
instance : Host IO where
  kind? := kindOnMachine
  read path := attempt (IO.FS.readBinFile path)
  write path text := attempt (IO.FS.writeFile path text)
  filesBelow root := do
    if root.isStandardInput then return .ok []
    match ← kindOnMachine root with
    | some .folder => attempt (filesInFolder root "")
    | some .file => return .ok [""]
    | _ => return .ok []
  resolve? path := do return (← attempt (do return toString (← IO.FS.realPath path))).toOption
  print text := do (← IO.getStdout).putStr text
  hasColor := do (← IO.getStdout).isTty
  clock := IO.monoNanosNow

end CodeQuality

/-- Run the command that the words behind the program's name ask for. -/
def main (words : List String) : IO UInt32 := do
  let ending ← CodeQuality.runWords (m := IO) (← IO.getEnv "QUALMAP_JOBS") words
  IO.eprint ending.complaint
  return ending.code.toUInt32
