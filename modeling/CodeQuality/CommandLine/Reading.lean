import CodeQuality.CommandLine.Argument

/-!
# Reading arguments

The words behind a command are read one by one. A value is looked at only when its argument is
settled, which happens when the next known argument begins or the words end. An unknown argument
is therefore reported before a bad value that stands right before it.
-/

namespace CodeQuality.CommandLine

/-- An argument that waits for its value, or whose value is not looked at yet. -/
structure Pending where
  argument : Argument
  value : Option String

/-- What has been read so far. -/
structure Reading where
  /-- The arguments given, with their values, in order. -/
  given : List (String × List String) := []
  pending : Option Pending := none
  /-- The argument without a name has been given. -/
  hasPositional : Bool := false

namespace Reading

/-- The argument has been given. -/
def has (reading : Reading) (name : String) : Bool :=
  reading.given.any fun entry => entry.1 == name

/-- The values of all times an argument was given. -/
def values (reading : Reading) (name : String) : List String :=
  (reading.given.filter fun entry => entry.1 == name).flatMap Prod.snd

/-- The number of times an argument was given. -/
def times (reading : Reading) (name : String) : Nat :=
  (reading.given.filter fun entry => entry.1 == name).length

/-- One more argument with its values. -/
def add (reading : Reading) (name : String) (values : List String) : Reading :=
  { reading with given := reading.given ++ [(name, values)] }

/-- Take an argument with its value, if there is one. -/
def take (reading : Reading) (argument : Argument) (value : Option String) :
    Except UsageFault Reading :=
  match argument.action with
  | .help => .error .helpRequested
  | .tally => .ok (reading.add argument.name [])
  | .flag =>
    if reading.has argument.name then .error .repeatedArgument
    else .ok (reading.add argument.name [])
  | .single form =>
    match value with
    | none => .error .invalidValue
    | some value =>
      if reading.has argument.name then .error .repeatedArgument
      else
        match form.fault? value with
        | some fault => .error fault
        | none => .ok (reading.add argument.name [value])
  | .repeated form =>
    match value with
    | none => .error .invalidValue
    | some value => .ok (reading.add argument.name (form.values value))

/-- Take the argument that is pending. -/
def settle (reading : Reading) : Except UsageFault Reading :=
  match reading.pending with
  | none => .ok reading
  | some pending => { reading with pending := none }.take pending.argument pending.value

/-- The pending argument waits for its value. -/
def isWaiting (reading : Reading) : Bool :=
  reading.pending.any fun pending => pending.value.isNone

/-- The pending argument with a value. -/
def fill (reading : Reading) (value : String) : Reading :=
  { reading with
    pending := reading.pending.map fun pending => { pending with value := some value } }

/-- Begin with an argument. One that takes a value and has none attached waits for it. -/
def start (reading : Reading) (argument : Argument) (attached : Option String) :
    Except UsageFault Reading := do
  let reading ← reading.settle
  if argument.action.form?.isSome && attached.isNone then
    return { reading with pending := some ⟨argument, none⟩ }
  else reading.take argument attached

/-- The argument that is given without its name. It is given at most once. -/
def positional (form : CommandForm) (reading : Reading) (value : String) :
    Except UsageFault Reading :=
  if reading.hasPositional then .error .unknownArgument
  else do
    let reading ← reading.settle
    return { reading with pending := some ⟨form.positional, some value⟩, hasPositional := true }

/-- An argument by its name, perhaps with a value behind an equality sign. -/
def named (form : CommandForm) (reading : Reading) (body : List Char) :
    Except UsageFault Reading :=
  let name := String.ofList (body.takeWhile (· != '='))
  let attached := match body.dropWhile (· != '=') with
    | [] => none
    | _ :: value => some (String.ofList value)
  match form.ofName? name with
  | none => .error .unknownArgument
  | some argument =>
    if argument.action.form?.isNone && attached.isSome then .error .needlessValue
    else reading.start argument attached

/-- The value attached to a letter, without its equality sign. -/
def attachedValue : List Char → Option String
  | [] => none
  | '=' :: value => some (String.ofList value)
  | value => some (String.ofList value)

/-- Arguments by their letters. The letters behind one that takes a value are its value. -/
def letters (form : CommandForm) (reading : Reading) : List Char → Except UsageFault Reading
  | [] => .ok reading
  | letter :: rest =>
    match form.ofLetter? letter with
    | none => .error .unknownArgument
    | some argument =>
      if argument.action.form?.isSome then reading.start argument (attachedValue rest)
      else
        match reading.start argument none with
        | .ok reading => letters form reading rest
        | .error fault => .error fault

/-- A word before the mark that ends the named arguments. -/
def word (form : CommandForm) (reading : Reading) (text : String) : Except UsageFault Reading :=
  match text.toList with
  | '-' :: '-' :: body => reading.named form body
  | '-' :: c :: rest => reading.letters form (c :: rest)
  | _ => if reading.isWaiting then .ok (reading.fill text) else reading.positional form text

/-- All words. Behind a double dash every word is given without a name. -/
def words (form : CommandForm) : Reading → List String → Except UsageFault Reading
  | reading, [] => reading.settle
  | reading, text :: rest =>
    if text == "--" then (rest.foldlM (positional form) reading).bind settle
    else
      match reading.word form text with
      | .ok reading => words form reading rest
      | .error fault => .error fault

end Reading

end CodeQuality.CommandLine
