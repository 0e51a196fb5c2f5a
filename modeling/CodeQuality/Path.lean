/-!
# Paths

A path is a text whose segments are divided by slashes. It is read as a list of components: empty
segments and single dots count for nothing, except for a dot that begins the path. Paths are
compared by their components, so `a/b` and `a//b` are the same place and `a/b` comes before `a.b`.
-/

namespace CodeQuality

/-- The location of a file or directory. -/
abbrev Path := String

namespace Path

/-- One step of a path. -/
inductive Component where
  | root
  | current
  | parent
  | name (text : String)
  deriving DecidableEq, Repr

/-- The root comes before a leading dot, then the step upwards, then names in code point order. -/
def Component.compare : Component → Component → Ordering
  | .name a, .name b => Ord.compare a b
  | a, b => Ord.compare (rank a) (rank b)
where
  /-- The place of a component among the four kinds. -/
  rank : Component → Nat
    | .root => 0
    | .current => 1
    | .parent => 2
    | .name _ => 3

/-- The texts between slashes. -/
def segments (path : Path) : List String :=
  (path.toList.splitOn '/').map String.ofList

/-- The segment takes no step. -/
def isIdle (segment : String) : Bool :=
  segment == "" || segment == "."

/-- The step that a segment other than an idle one takes. -/
def stepOf (segment : String) : Component :=
  if segment == ".." then .parent else .name segment

/-- The path starts at the root. -/
def isAbsolute (path : Path) : Bool :=
  path.toList.head? == some '/'

/-- The steps of a path. -/
def components (path : Path) : List Component :=
  let steps := (path.segments.filter fun segment => !isIdle segment).map stepOf
  if path.isAbsolute then .root :: steps
  else if path.segments.head? == some "." then .current :: steps
  else steps

/-- The order of paths by their components. -/
def compare (a b : Path) : Ordering :=
  go a.components b.components
where
  /-- The lexicographic order of lists of components. -/
  go : List Component → List Component → Ordering
    | [], [] => .eq
    | [], _ :: _ => .lt
    | _ :: _, [] => .gt
    | a :: as, b :: bs => (Component.compare a b).then (go as bs)

/-- The path does not come behind the other. -/
def le (a b : Path) : Bool :=
  (compare a b).isLE

/-- The name that the path ends in. -/
def fileName? (path : Path) : Option String :=
  match path.components.getLast? with
  | some (.name text) => some text
  | _ => none

/-- The part of the file name behind its last dot, when something stands before that dot. -/
def extension? (path : Path) : Option String :=
  match path.fileName? with
  | none => none
  | some name =>
    match name.toList.reverse.span (· != '.') with
    | (after, _ :: before) =>
      if before.isEmpty then none else some (String.ofList after.reverse)
    | (_, []) => none

/-- The segments without the idle ones at the end. -/
def trimIdle (segments : List String) : List String :=
  (segments.reverse.dropWhile isIdle).reverse

/-- The path without its last component, when there is one to leave. -/
def parent? (path : Path) : Option Path :=
  let drop (body : List String) : Option (List String) :=
    match trimIdle body with
    | [] => none
    | kept => some (trimIdle kept.dropLast)
  match path.segments with
  | "" :: body =>
    if path.isAbsolute then (drop body).map fun kept => "/" ++ "/".intercalate kept else none
  | "." :: body =>
    match trimIdle body with
    | [] => some ""
    | kept => some ("/".intercalate ("." :: trimIdle kept.dropLast))
  | body => (drop body).map "/".intercalate

/-- The other path, taken from this one unless it starts at the root. -/
def join (path other : Path) : Path :=
  if other.isAbsolute then other
  else if path == "" || path.toList.getLast? == some '/' then path ++ other
  else path ++ "/" ++ other

/-- The segments behind the given number of steps. -/
def dropSteps : Nat → List String → List String
  | 0, segments => segments.dropWhile isIdle
  | _ + 1, [] => []
  | steps + 1, segment :: rest =>
    if isIdle segment then dropSteps (steps + 1) rest else dropSteps steps rest

/-- What the path goes on with behind another one, when it begins with all of that one's
components. -/
def behind? (path base : Path) : Option Path :=
  if base.components.isPrefixOf path.components then
    let steps := (base.segments.filter fun segment => !isIdle segment).length
    some ("/".intercalate (trimIdle (dropSteps steps path.segments)))
  else none

/-- The path of a file below a root, which is the root itself when the path below it is empty. -/
def under (root relative : Path) : Path :=
  if relative == "" then root else root.join relative

/-- The path stands for standard input, below which there are no files. -/
def isStandardInput (path : Path) : Bool :=
  path.components == [.name "-"]

/-- The path and the paths above it, nearest first, at most `depth` of them. -/
def ancestors : Nat → Path → List Path
  | 0, _ => []
  | depth + 1, path =>
    path :: match path.parent? with
      | none => []
      | some above => ancestors depth above

end Path

end CodeQuality
