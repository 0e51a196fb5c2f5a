import CodeQuality.Failure
import CodeQuality.Path

/-!
# File trees and disks

Files, links and folders, and the paths that lead to them.
-/

namespace CodeQuality

/-!
## File trees

Files, links and folders. A place in a tree is the list of names that lead to it from the top.
-/

/-- A file with its bytes, a link to another path, or a folder with named entries. -/
inductive Tree where
  | file (content : ByteArray)
  | link (target : Path)
  | folder (entries : List (String × Tree))

namespace Tree

/-- The entry of a name. -/
def lookup (name : String) : List (String × Tree) → Option Tree
  | [] => none
  | (key, tree) :: rest => if key == name then some tree else lookup name rest

/-- The entries with a name set. -/
def setEntry (name : String) (tree : Tree) : List (String × Tree) → List (String × Tree)
  | [] => [(name, tree)]
  | (key, old) :: rest =>
    if key == name then (name, tree) :: rest else (key, old) :: setEntry name tree rest

/-- The tree at a place. -/
def at? : List String → Tree → Option Tree
  | [], tree => some tree
  | name :: rest, folder entries =>
    match lookup name entries with
    | some tree => at? rest tree
    | none => none
  | _ :: _, _ => none

/-- The tree with another one at a place. Missing folders on the way are made. -/
def put (new : Tree) : List String → Tree → Tree
  | [], _ => new
  | name :: rest, folder entries =>
    folder (setEntry name (put new rest ((lookup name entries).getD (folder []))) entries)
  | _ :: _, tree => tree

/-- The tree without what stands at a place. -/
def erase : List String → Tree → Tree
  | [name], folder entries => folder (entries.filter fun entry => entry.1 != name)
  | name :: rest, folder entries =>
    match lookup name entries with
    | some tree => folder (setEntry name (erase rest tree) entries)
    | none => folder entries
  | _, tree => tree

/-- The path that goes on behind a name. -/
def inside (name : String) (path : Path) : Path :=
  if path == "" then name else name ++ "/" ++ path

mutual

/-- The paths of all regular files, from the top of the tree. Links are not followed. The path of
a tree that is itself a file is empty. -/
def files : Tree → List Path
  | file _ => [""]
  | link _ => []
  | folder entries => entryFiles entries

/-- The paths of all regular files below the entries of a folder. -/
def entryFiles : List (String × Tree) → List Path
  | [] => []
  | (name, tree) :: rest => (files tree).map (inside name) ++ entryFiles rest

end

end Tree

/-!
## Disks

A disk is a file tree with a current folder from which relative paths start. Paths are followed
step by step, through links as well.
-/

/-- A file tree with a current folder. -/
structure Disk where
  top : Tree := .folder []
  current : List String := []

namespace Disk

/-- The disk on which the current folder is empty and nothing else is there. -/
def emptyAt (current : List String) : Disk where
  top := Tree.put (.folder []) current (.folder [])
  current := current

/-- The steps of a path. A slash at the end is a step that stays where it is, so that only a
folder can stand before it. -/
def steps (path : Path) : List String :=
  let named := path.segments.filter (· != "")
  if path.segments.getLast? == some "" then named ++ ["."] else named

/-- The place where a path starts. -/
def origin (disk : Disk) (path : Path) : List String :=
  if path.isAbsolute then [] else disk.current

/-- How many links may be followed on one path. -/
def linkLimit : Nat := 40

/-- A place with what stands there. Nothing may stand there only where the last step of the path
leads to a name that its folder does not have. -/
structure Found where
  place : List String
  tree : Option Tree

/-- Follow steps from a place. A link at the last step is followed if asked for. -/
def follow (top : Tree) (throughLast : Bool) (links : Nat) (place : List String)
    (path : List String) : Except FileFault Found :=
  match path with
  | [] => .ok ⟨place, top.at? place⟩
  | step :: rest =>
    match top.at? place with
    | some (.folder entries) =>
      if step == "." then follow top throughLast links place rest
      else if step == ".." then follow top throughLast links place.dropLast rest
      else
        match Tree.lookup step entries with
        | some (.link target) =>
          if rest.isEmpty && !throughLast then .ok ⟨place ++ [step], some (.link target)⟩
          else
            match links with
            | 0 => .error .linkLoop
            | links + 1 =>
              follow top throughLast links (if target.isAbsolute then [] else place)
                (steps target ++ rest)
        | some _ => follow top throughLast links (place ++ [step]) rest
        | none => if rest.isEmpty then .ok ⟨place ++ [step], none⟩ else .error .notFound
    | some _ => .error .notADirectory
    | none => .error .notFound
termination_by (links, path.length)

/-- The place of a path, with or without following a link at its end. -/
def locate (disk : Disk) (throughLast : Bool) (path : Path) : Except FileFault Found :=
  if path == "" then .error .notFound
  else follow disk.top throughLast linkLimit (disk.origin path) (steps path)

/-- What a path leads to. -/
def find? (disk : Disk) (path : Path) : Option Tree :=
  match disk.locate true path with
  | .ok found => found.tree
  | .error _ => none

/-- The path from the top without links, if the path leads anywhere. -/
def resolve? (disk : Disk) (path : Path) : Option Path :=
  match disk.locate true path with
  | .ok ⟨place, some _⟩ => some ("/" ++ "/".intercalate place)
  | _ => none

/-- The bytes of a file. -/
def read (disk : Disk) (path : Path) : Except FileFault ByteArray :=
  match disk.locate true path with
  | .ok ⟨_, some (.file content)⟩ => .ok content
  | .ok ⟨_, some (.folder _)⟩ => .error .isADirectory
  | .ok ⟨_, _⟩ => .error .notFound
  | .error fault => .error fault

/-- The steps up to the folder of a path that ends in a name with a slash behind it. -/
def slashedFolder? (path : Path) : Option (List String) :=
  let named := path.segments.filter (· != "")
  match path.segments.getLast?, named.getLast? with
  | some "", some last =>
    if last == "." || last == ".." then none else some (named.dropLast ++ ["."])
  | _, _ => none

/-- The disk with the bytes of a file set. The file is made where its folder is there. A name with a
slash behind it is taken for a folder, whether or not it is there. -/
def write (disk : Disk) (path : Path) (content : ByteArray) : Except FileFault Disk :=
  match slashedFolder? path with
  | some folder =>
    match follow disk.top true linkLimit (disk.origin path) folder with
    | .ok _ => .error .isADirectory
    | .error fault => .error fault
  | none =>
    match disk.locate true path with
    | .ok ⟨_, some (.folder _)⟩ => .error .isADirectory
    | .ok ⟨place, _⟩ => .ok { disk with top := Tree.put (.file content) place disk.top }
    | .error fault => .error fault

/-- The disk with a folder at a place, and folders at the steps that follow. -/
def makeAlong (disk : Disk) (start : List String) :
    List String → List String → Except FileFault Disk
  | _, [] => .ok disk
  | walked, step :: rest =>
    match follow disk.top true linkLimit start (walked ++ [step]) with
    | .error fault => .error fault
    | .ok ⟨_, some (.folder _)⟩ => makeAlong disk start (walked ++ [step]) rest
    | .ok ⟨_, some _⟩ => .error (if rest.isEmpty then .alreadyExists else .notADirectory)
    | .ok ⟨place, none⟩ =>
      makeAlong { disk with top := Tree.put (.folder []) place disk.top } start
        (walked ++ [step]) rest

/-- The disk with a folder at the path, and all folders above it. -/
def makeFolders (disk : Disk) (path : Path) : Except FileFault Disk :=
  disk.makeAlong (disk.origin path) [] (steps path)

/-- The disk with a link at the path. -/
def makeLink (disk : Disk) (path target : Path) : Except FileFault Disk :=
  match disk.locate false path with
  | .ok ⟨place, none⟩ => .ok { disk with top := Tree.put (.link target) place disk.top }
  | .ok ⟨_, some _⟩ => .error .alreadyExists
  | .error fault => .error fault

/-- The disk without the file, link or folder at the path. -/
def remove (disk : Disk) (path : Path) : Except FileFault Disk :=
  match disk.locate false path with
  | .ok ⟨place, some _⟩ => .ok { disk with top := Tree.erase place disk.top }
  | .ok ⟨_, none⟩ => .error .notFound
  | .error fault => .error fault

end Disk

end CodeQuality
