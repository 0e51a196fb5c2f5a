import CodeQuality.Json.Reader

/-!
# Texts and keys of TOML

The four kinds of strings, and keys, which are bare words or one-line strings, joined by dots.
-/

namespace CodeQuality.Toml

/-- The double quote. -/
def doubleQuote : Char := Char.ofNat 0x22

/-- The single quote. -/
def singleQuote : Char := Char.ofNat 0x27

/-- The character is a blank inside a line. -/
def isGap (c : Char) : Bool :=
  c == ' ' || c == '\t'

/-- The text without leading blanks. -/
def skipGap (text : List Char) : List Char :=
  text.dropWhile isGap

/-- The character may stand in comments and one-line strings. -/
def isPrintable (c : Char) : Bool :=
  c == '\t' || (0x20 ≤ c.toNat && c.toNat != 0x7F)

/-- The rest of the text behind a line break, when it begins with one. -/
def newline? : List Char → Option (List Char)
  | '\n' :: rest => some rest
  | '\r' :: '\n' :: rest => some rest
  | _ => none

/-- The number of the given count of hexadecimal digits, and the text behind them. -/
def hexNumber? : Nat → Nat → List Char → Option (Nat × List Char)
  | 0, value, rest => some (value, rest)
  | _ + 1, _, [] => none
  | count + 1, value, c :: rest =>
    match Json.hexDigit? c with
    | some d => hexNumber? count (value * 16 + d) rest
    | none => none

/-- The character with the given code, unless it is a surrogate or out of range. -/
def scalar? (code : Nat) : Option Char :=
  if code < 0xD800 || (0xDFFF < code && code < 0x110000) then some (Char.ofNat code) else none

/-- The character of an escape behind its backslash, and the text behind it. -/
def escape? : List Char → Option (Char × List Char)
  | [] => none
  | c :: rest =>
    let byCode (count : Nat) : Option (Char × List Char) :=
      match hexNumber? count 0 rest with
      | some (code, rest) => (scalar? code).map fun c => (c, rest)
      | none => none
    if c == doubleQuote || c == '\\' then some (c, rest)
    else if c == 'b' then some (Char.ofNat 8, rest)
    else if c == 't' then some ('\t', rest)
    else if c == 'n' then some ('\n', rest)
    else if c == 'f' then some (Char.ofNat 12, rest)
    else if c == 'r' then some ('\r', rest)
    else if c == 'e' then some (Char.ofNat 27, rest)
    else if c == 'x' then byCode 2
    else if c == 'u' then byCode 4
    else if c == 'U' then byCode 8
    else none

/-- A one-line string with escapes, from behind its opening quote. -/
def basic? : Nat → List Char → List Char → Option (String × List Char)
  | 0, _, _ => none
  | _, _, [] => none
  | limit + 1, read, c :: rest =>
    if c == doubleQuote then some (String.ofList read.reverse, rest)
    else if c == '\\' then
      match escape? rest with
      | some (c, rest) => basic? limit (c :: read) rest
      | none => none
    else if isPrintable c then basic? limit (c :: read) rest
    else none

/-- A one-line string without escapes, from behind its opening quote. -/
def literal? : List Char → List Char → Option (String × List Char)
  | _, [] => none
  | read, c :: rest =>
    if c == singleQuote then some (String.ofList read.reverse, rest)
    else if isPrintable c then literal? (c :: read) rest
    else none

/-- The text behind the blanks and line breaks that follow a backslash at the end of a line. -/
def foldLines : List Char → List Char
  | [] => []
  | '\r' :: '\n' :: rest => foldLines rest
  | c :: rest => if isGap c || c == '\n' then foldLines rest else c :: rest

/-- A string over several lines, from behind its three opening quotes. Up to two quotes may stand
right before the three closing ones. Line breaks are kept as they are written. -/
def manyLines? (quote : Char) (escapes : Bool) :
    Nat → List Char → List Char → Option (String × List Char)
  | 0, _, _ => none
  | _, _, [] => none
  | limit + 1, read, c :: rest =>
    if c == quote then
      let quotes := (c :: rest).takeWhile (· == quote)
      if quotes.length < 3 then manyLines? quote escapes limit (c :: read) rest
      else if quotes.length ≤ 5 then
        some (String.ofList (List.replicate (quotes.length - 3) quote ++ read).reverse,
          (c :: rest).drop quotes.length)
      else
        some (String.ofList (quote :: quote :: read).reverse, (c :: rest).drop 5)
    else if c == '\\' && escapes then
      match newline? (skipGap rest) with
      | some rest => manyLines? quote escapes limit read (foldLines rest)
      | none =>
        match escape? rest with
        | some (c, rest) => manyLines? quote escapes limit (c :: read) rest
        | none => none
    else if isPrintable c || c == '\n' || (c == '\r' && rest.head? == some '\n') then
      manyLines? quote escapes limit (c :: read) rest
    else none

/-- The text without one leading line break. -/
def skipNewline (text : List Char) : List Char :=
  (newline? text).getD text

/-- A string of any kind and the text behind it. -/
def text? (text : List Char) : Option (String × List Char) :=
  match text with
  | a :: rest =>
    let triple := rest.take 2 == [a, a]
    if a == doubleQuote then
      if triple then manyLines? a true (text.length + 1) [] (skipNewline (rest.drop 2))
      else basic? (text.length + 1) [] rest
    else if a == singleQuote then
      if triple then manyLines? a false (text.length + 1) [] (skipNewline (rest.drop 2))
      else literal? [] rest
    else none
  | [] => none

/-- The character can stand in a bare key. -/
def isBare (c : Char) : Bool :=
  c.isAlphanum || c == '_' || c == '-'

/-- One part of a key and the text behind it. -/
def keyPart? (text : List Char) : Option (String × List Char) :=
  match text with
  | [] => none
  | a :: rest =>
    if a == doubleQuote then
      if rest.take 2 == [a, a] then none else basic? (text.length + 1) [] rest
    else if a == singleQuote then
      if rest.take 2 == [a, a] then none else literal? [] rest
    else if isBare a then
      some (String.ofList (text.takeWhile isBare), text.dropWhile isBare)
    else none

/-- The parts of a key between dots, at most as many as the limit, and the text behind the key. -/
def keyParts? : Nat → List Char → Option (List String × List Char)
  | 0, _ => none
  | limit + 1, text =>
    match keyPart? (skipGap text) with
    | none => none
    | some (part, rest) =>
      match skipGap rest with
      | '.' :: rest => (keyParts? limit rest).map fun (parts, rest) => (part :: parts, rest)
      | rest => some ([part], rest)

/-- How many parts a key may have. -/
def keyLimit : Nat := 80

/-- The parts of a key, and the text behind the key. -/
def key? (text : List Char) : Option (List String × List Char) :=
  keyParts? keyLimit text

end CodeQuality.Toml
