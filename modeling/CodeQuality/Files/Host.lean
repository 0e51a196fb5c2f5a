import CodeQuality.Files.Disk

/-!
# Hosts

What the commands need from the machine they run on. One host is a disk in memory that records
what is printed.
-/

namespace CodeQuality

/-- What stands at a path. -/
inductive EntryKind where
  | file
  | folder
  | special
  deriving DecidableEq, Repr

/-- A machine with files, an output and a clock. -/
class Host (m : Type → Type) where
  /-- What a path leads to, through links. -/
  kind? : Path → m (Option EntryKind)
  /-- The bytes of a file. -/
  read : Path → m (Except FileFault ByteArray)
  /-- Set the text of a file. -/
  write : Path → String → m (Except FileFault Unit)
  /-- The paths from the root on of the regular files below it, in any order. Links below the root
  are not followed, and standard input is not searched. -/
  filesBelow : Path → m (Except FileFault (List Path))
  /-- The path from the top without links, if the path leads anywhere. -/
  resolve? : Path → m (Option Path)
  /-- Put a text on the output. -/
  print : String → m Unit
  /-- The output shows colours. -/
  hasColor : m Bool
  /-- The time in nanoseconds from a fixed moment. -/
  clock : m Nat

/-- The text of a file. -/
def Host.readText {m : Type → Type} [Monad m] [Host m] (path : Path) :
    m (Except FileFault String) := do
  match ← Host.read path with
  | .error fault => return .error fault
  | .ok bytes =>
    match String.fromUTF8? bytes with
    | some text => return .ok text
    | none => return .error .notText

/-- A disk in memory with what has been printed. -/
structure Desk where
  disk : Disk
  printed : String := ""

/-- The kind of a tree. A link that leads nowhere has none. -/
def Tree.kind? : Tree → Option EntryKind
  | file _ => some .file
  | folder _ => some .folder
  | link _ => none

/-- Programs that work on a disk in memory, on which no time passes. -/
instance : Host (StateM Desk) where
  kind? path := do return ((← get).disk.find? path).bind Tree.kind?
  read path := do return (← get).disk.read path
  write path text := do
    let desk ← get
    match desk.disk.write path text.toUTF8 with
    | .ok disk => set { desk with disk := disk }; return .ok ()
    | .error fault => return .error fault
  filesBelow path := do
    if path.isStandardInput then return .ok []
    else return .ok (((← get).disk.find? path).elim [] Tree.files)
  resolve? path := do return (← get).disk.resolve? path
  print text := modify fun desk => { desk with printed := desk.printed ++ text }
  hasColor := return false
  clock := return 0

end CodeQuality
