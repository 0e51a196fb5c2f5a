import CodeQuality.Value

/-!
# Reading JSON

A reader for one JSON document. A number without a point and an exponent is whole if it fits into
64 bits. Any other number is its significant digits, up to the last that fits into 64 bits, scaled
by a power of ten in floating point arithmetic.
-/

namespace CodeQuality.Json

/-- The character is white space between tokens. -/
def isSpace (c : Char) : Bool :=
  c == ' ' || c == '\n' || c == '\t' || c == '\r'

/-- The text without leading white space. -/
def skipSpace (text : List Char) : List Char :=
  text.dropWhile isSpace

/-- The value of a digit. -/
def digit? (c : Char) : Option Nat :=
  if c.isDigit then some (c.toNat - '0'.toNat) else none

/-- The value of a hexadecimal digit. -/
def hexDigit? (c : Char) : Option Nat :=
  if c.isDigit then some (c.toNat - '0'.toNat)
  else if 'a' ≤ c && c ≤ 'f' then some (c.toNat - 'a'.toNat + 10)
  else if 'A' ≤ c && c ≤ 'F' then some (c.toNat - 'A'.toNat + 10)
  else none

/-- Four hexadecimal digits and the text behind them. -/
def hexFour? : List Char → Option (Nat × List Char)
  | a :: b :: c :: d :: rest => do
    let a ← hexDigit? a
    let b ← hexDigit? b
    let c ← hexDigit? c
    let d ← hexDigit? d
    return (((a * 16 + b) * 16 + c) * 16 + d, rest)
  | _ => none

/-- The character of an escape by code units, where a leading surrogate takes a trailing one with
it. -/
def unicodeEscape? (text : List Char) : Option (Char × List Char) := do
  let (unit, rest) ← hexFour? text
  if 0xDC00 ≤ unit && unit ≤ 0xDFFF then none
  else if 0xD800 ≤ unit && unit ≤ 0xDBFF then
    match rest with
    | '\\' :: 'u' :: more => do
      let (second, rest) ← hexFour? more
      if 0xDC00 ≤ second && second ≤ 0xDFFF then
        return (Char.ofNat (0x10000 + (unit - 0xD800) * 0x400 + (second - 0xDC00)), rest)
      else none
    | _ => none
  else return (Char.ofNat unit, rest)

/-- The character of a one-letter escape. -/
def simpleEscape? (c : Char) : Option Char :=
  if c == Char.ofNat 0x22 || c == '\\' || c == '/' then some c
  else if c == 'b' then some (Char.ofNat 8)
  else if c == 'f' then some (Char.ofNat 12)
  else if c == 'n' then some '\n'
  else if c == 'r' then some '\r'
  else if c == 't' then some '\t'
  else none

/-- The characters of a string up to its closing quote, and the text behind it. The characters
read so far are kept backwards. -/
def string? : Nat → List Char → List Char → Option (String × List Char)
  | 0, _, _ => none
  | _, _, [] => none
  | limit + 1, read, c :: rest =>
    if c == Char.ofNat 0x22 then some (String.ofList read.reverse, rest)
    else if c == '\\' then
      match rest with
      | [] => none
      | e :: more =>
        if e == 'u' then
          match unicodeEscape? more with
          | some (c, rest) => string? limit (c :: read) rest
          | none => none
        else
          match simpleEscape? e with
          | some c => string? limit (c :: read) more
          | none => none
    else if c.toNat < 0x20 then none
    else string? limit (c :: read) rest

/-- Divide by powers of ten of at most `10 ^ 308` until the exponent is used up. -/
def scaleDown : Nat → Float → Nat → Float
  | 0, value, _ => value
  | limit + 1, value, exponent =>
    if exponent ≤ 308 then value / Float.ofScientific 1 false exponent
    else if value == 0 then value
    else scaleDown limit (value / 1e308) (exponent - 308)

/-- A significand scaled by a power of ten, unless it grows beyond all doubles. -/
def scale? (significand : Nat) (exponent : Int) : Option Float :=
  let value := Float.ofNat significand
  if exponent < 0 then some (scaleDown 20 value (-exponent).toNat)
  else if exponent ≤ 308 then
    let scaled := value * Float.ofScientific 1 false exponent.toNat
    if scaled.isInf then none else some scaled
  else if value == 0 then some value
  else none

/-- The digits at the head of a text and the text behind them. -/
def digits (text : List Char) : List Nat × List Char :=
  (text.takeWhile Char.isDigit |>.filterMap digit?, text.dropWhile Char.isDigit)

/-- The significand of the digits as far as it fits, and how many digits are left over. -/
def significand : List Nat → Nat → Nat × Nat
  | [], value => (value, 0)
  | d :: rest, value =>
    if value * 10 + d < wordCount then significand rest (value * 10 + d)
    else (value, rest.length + 1)

/-- The value of an exponent behind its letter, and the text behind it. -/
def exponent? (text : List Char) : Option (Int × List Char) :=
  let (negative, body) := match text with
    | '-' :: rest => (true, rest)
    | '+' :: rest => (false, rest)
    | rest => (false, rest)
  match digits body with
  | ([], _) => none
  | (ds, rest) =>
    let size : Int := Int.ofNat (ds.foldl (fun value d => min (value * 10 + d) 100000) 0)
    some (if negative then -size else size, rest)

/-- The number with its significand and its power of ten. -/
def signed (negative : Bool) (value : Float) : Value :=
  .float (if negative then -value else value)

/-- The fraction digits, the exponent and the text behind them, where present. -/
def fractionAndExponent? (text : List Char) : Option (Option (List Nat) × Option Int × List Char) :=
  let withExponent (fraction : Option (List Nat)) (rest : List Char) :
      Option (Option (List Nat) × Option Int × List Char) :=
    match rest with
    | c :: more =>
      if c == 'e' || c == 'E' then
        (exponent? more).map fun (exponent, rest) => (fraction, some exponent, rest)
      else some (fraction, none, rest)
    | [] => some (fraction, none, [])
  match text with
  | '.' :: more =>
    match digits more with
    | ([], _) => none
    | (ds, rest) => withExponent (some ds) rest
  | _ => withExponent none text

/-- A number and the text behind it. -/
def number? (text : List Char) : Option (Value × List Char) :=
  let (negative, body) := match text with
    | '-' :: rest => (true, rest)
    | rest => (false, rest)
  match digits body with
  | ([], _) => none
  | (0 :: _ :: _, _) => none
  | (whole, rest) =>
    match fractionAndExponent? rest with
    | none => none
    | some (fraction, exponent, rest) =>
      let (start, dropped) := significand whole 0
      if fraction.isNone && exponent.isNone && dropped == 0 then
        if !negative then some (.int start, rest)
        else if start == 0 || halfWordCount < start then
          some (signed true (Float.ofNat start), rest)
        else some (.int (-start), rest)
      else
        let places := fraction.getD []
        let (value, left) :=
          if dropped == 0 then significand places start else (start, places.length)
        let used : Nat := places.length - left
        let power : Int := (dropped : Int) - used + exponent.getD 0
        (scale? value power).map fun scaled => (signed negative scaled, rest)

mutual

/-- A value and the text behind it, nested at most `depth` deep. -/
def value? : Nat → Nat → List Char → Option (Value × List Char)
  | 0, _, _ => none
  | limit + 1, depth, text =>
    match skipSpace text with
    | [] => none
    | c :: rest =>
      if c == Char.ofNat 0x22 then
        (string? (rest.length + 1) [] rest).map fun (value, rest) => (.text value, rest)
      else if c == '[' then
        match depth with
        | 0 => none
        | depth + 1 =>
          match skipSpace rest with
          | ']' :: rest => some (.list [], rest)
          | rest => (items? limit depth rest).map fun (items, rest) => (.list items, rest)
      else if c == '{' then
        match depth with
        | 0 => none
        | depth + 1 =>
          match skipSpace rest with
          | '}' :: rest => some (.table [], rest)
          | rest => (entries? limit depth rest).map fun (entries, rest) => (.table entries, rest)
      else if c == 't' then
        if ['r', 'u', 'e'].isPrefixOf rest then some (.bool true, rest.drop 3) else none
      else if c == 'f' then
        if ['a', 'l', 's', 'e'].isPrefixOf rest then some (.bool false, rest.drop 4) else none
      else if c == 'n' then
        if ['u', 'l', 'l'].isPrefixOf rest then some (.null, rest.drop 3) else none
      else number? (c :: rest)

/-- The items of a list from the first one on, and the text behind the closing bracket. -/
def items? : Nat → Nat → List Char → Option (List Value × List Char)
  | 0, _, _ => none
  | limit + 1, depth, text =>
    match value? limit depth text with
    | none => none
    | some (value, rest) =>
      match skipSpace rest with
      | ',' :: rest => (items? limit depth rest).map fun (items, rest) => (value :: items, rest)
      | ']' :: rest => some ([value], rest)
      | _ => none

/-- The entries of an object from the first key on, and the text behind the closing brace. -/
def entries? : Nat → Nat → List Char → Option (List (String × Value) × List Char)
  | 0, _, _ => none
  | limit + 1, depth, text =>
    match skipSpace text with
    | c :: rest =>
      if c != Char.ofNat 0x22 then none
      else
        match string? (rest.length + 1) [] rest with
        | none => none
        | some (key, rest) =>
          match skipSpace rest with
          | ':' :: rest =>
            match value? limit depth rest with
            | none => none
            | some (value, rest) =>
              match skipSpace rest with
              | ',' :: rest =>
                (entries? limit depth rest).map fun (entries, rest) =>
                  ((key, value) :: entries, rest)
              | '}' :: rest => some ([(key, value)], rest)
              | _ => none
          | _ => none
    | [] => none

end

/-- How deep lists and objects may be nested. -/
def depthLimit : Nat := 127

/-- The value of a JSON document. -/
def read? (text : String) : Option Value :=
  let chars := text.toList
  match value? (chars.length + 1) depthLimit chars with
  | some (value, rest) => if (skipSpace rest).isEmpty then some value else none
  | none => none

end CodeQuality.Json
