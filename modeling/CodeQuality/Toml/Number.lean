import CodeQuality.Json.Reader

/-!
# Numbers, truth values and moments of TOML

Scalars other than strings are read as one token of letters, digits and a few signs. A number may
have underscores between its digits, and a decimal number has no needless leading zero. A number
that is out of range or has no digits behind the mark of its base is still a scalar, but not one
that can be read.
-/

namespace CodeQuality.Toml

open Json

/-- The digits in order without the underscores between them, each of which has digits on both
sides. -/
def ungroup? : List Char → Option (List Char)
  | [] => some []
  | ['_'] => none
  | c :: '_' :: d :: rest =>
    if c == '_' || d == '_' then none else (ungroup? (d :: rest)).map (c :: ·)
  | c :: rest => if c == '_' then none else (ungroup? rest).map (c :: ·)

/-- The number of digits in a base, at least one of them. -/
def inBase? (base : Nat) (digits : List Char) : Option Nat :=
  if digits.isEmpty then none
  else
    match ungroup? digits with
    | none => none
    | some digits =>
      digits.foldl (fun value c =>
        match value, hexDigit? c with
        | some value, some d => if d < base then some (value * base + d) else none
        | _, _ => none) (some 0)

/-- A decimal number without a needless leading zero. -/
def decimal? (digits : List Char) : Option Nat :=
  match digits with
  | '0' :: _ :: _ => none
  | _ => inBase? 10 digits

/-- A sign, if there is one, and the token behind it. -/
def sign (token : List Char) : Bool × List Char :=
  match token with
  | '-' :: rest => (true, rest)
  | '+' :: rest => (false, rest)
  | _ => (false, token)

/-- A whole number. -/
def integer? (token : List Char) : Option Int :=
  match token with
  | '0' :: 'x' :: digits => (inBase? 16 digits).map Int.ofNat
  | '0' :: 'o' :: digits => (inBase? 8 digits).map Int.ofNat
  | '0' :: 'b' :: digits => (inBase? 2 digits).map Int.ofNat
  | _ =>
    let (negative, digits) := sign token
    (decimal? digits).map fun n => if negative then -(n : Int) else n

/-- The digits of a fraction and the rest of the token behind them. -/
def span (token : List Char) : List Char × List Char :=
  (token.takeWhile fun c => c.isDigit || c == '_', token.dropWhile fun c => c.isDigit || c == '_')

/-- The exponent behind its letter, at the end of the token. -/
def exponent? (token : List Char) : Option Int :=
  let (negative, digits) := sign token
  (inBase? 10 digits).map fun n => if negative then -(n : Int) else n

/-- The double nearest to a decimal, infinite if the decimal lies beyond all of them. -/
def nearest (digits : Nat) (power : Int) : Float :=
  if power + Nat.log2 digits < -500 then 0
  else if 500 < power then if digits = 0 then 0 else Float.ofScientific 1 false 400
  else Float.ofScientific digits (power < 0) power.natAbs

/-- The value with the sign. -/
def signed (negative : Bool) (value : Float) : Float :=
  if negative then -value else value

/-- A floating point value that is written as a word. -/
def special? (token : List Char) : Option Float :=
  let (negative, body) := sign token
  if body == ['i', 'n', 'f'] then some (signed negative (1.0 / 0.0))
  else if body == ['n', 'a', 'n'] then some (signed negative (0.0 / 0.0))
  else none

/-- A floating point number, infinite if it is out of range. -/
def float? (token : List Char) : Option Float :=
  let (negative, body) := sign token
  let (whole, rest) := span body
  match decimal? whole with
  | none => none
  | some value =>
    let finish (digits : Nat) (places : Nat) (rest : List Char) : Option Float :=
      match rest with
      | [] => some (signed negative (nearest digits (-(places : Int))))
      | c :: more =>
        if c == 'e' || c == 'E' then
          (exponent? more).map fun power => signed negative (nearest digits (power - places))
        else none
    match rest with
    | '.' :: more =>
      let (fraction, rest) := span more
      match inBase? 10 fraction with
      | none => none
      | some value' =>
        let places := (fraction.filter (· != '_')).length
        finish (value * Nat.pow 10 places + value') places rest
    | [] => none
    | _ => finish value 0 rest

/-- Two digits as a number. -/
def two? (a b : Char) : Option Nat := do
  return (← digit? a) * 10 + (← digit? b)

/-- The number of days of a month. -/
def daysIn (year month : Nat) : Nat :=
  if month == 2 then
    if year % 4 == 0 && (year % 100 != 0 || year % 400 == 0) then 29 else 28
  else if month == 4 || month == 6 || month == 9 || month == 11 then 30
  else 31

/-- The rest of the token behind a date. -/
def date? : List Char → Option (List Char)
  | a :: b :: c :: d :: '-' :: e :: f :: '-' :: g :: h :: rest => do
    let year := (← two? a b) * 100 + (← two? c d)
    let month ← two? e f
    let day ← two? g h
    if 1 ≤ month && month ≤ 12 && 1 ≤ day && day ≤ daysIn year month then some rest else none
  | _ => none

/-- The rest of the token behind the fraction of a second, if there is one. -/
def secondFraction? : List Char → Option (List Char)
  | '.' :: rest =>
    if (rest.takeWhile Char.isDigit).isEmpty then none else some (rest.dropWhile Char.isDigit)
  | rest => some rest

/-- The rest of the token behind a time of day. -/
def time? : List Char → Option (List Char)
  | a :: b :: ':' :: c :: d :: rest => do
    let hour ← two? a b
    let minute ← two? c d
    if hour ≤ 23 && minute ≤ 59 then
      match rest with
      | ':' :: e :: f :: rest => do
        let second ← two? e f
        if second ≤ 60 then secondFraction? rest else none
      | rest => some rest
    else none
  | _ => none

/-- The token is an offset from universal time, or empty. -/
def isOffset : List Char → Bool
  | [] => true
  | [c] => c == 'Z' || c == 'z'
  | [s, a, b, ':', c, d] =>
    (s == '+' || s == '-') &&
      ((two? a b).any (· ≤ 23)) && ((two? c d).any (· ≤ 59))
  | _ => false

/-- The token is a date, a time, or both. -/
def isMoment (token : List Char) : Bool :=
  match date? token with
  | some [] => true
  | some (c :: rest) => (c == 'T' || c == 't' || c == ' ') && (time? rest).any isOffset
  | none => time? token == some []

/-- The whole number can be read: it fits into 128 bits, with or without a sign. -/
def isReadableInteger (n : Int) : Bool :=
  -170141183460469231731687303715884105728 ≤ n && n < 340282366920938463463374607431768211456

/-- The token is the mark of a base without digits behind it. -/
def isBareMark (token : List Char) : Bool :=
  token == ['0', 'x'] || token == ['0', 'o'] || token == ['0', 'b']

/-- The scalar that a token stands for. -/
def scalar (token : List Char) : Option Value :=
  if token == ['t', 'r', 'u', 'e'] then some (.bool true)
  else if token == ['f', 'a', 'l', 's', 'e'] then some (.bool false)
  else if isBareMark token then some .unreadable
  else
    match integer? token, special? token, float? token with
    | some n, _, _ => some (if isReadableInteger n then .int n else .unreadable)
    | none, some x, _ => some (.float x)
    | none, none, some x => some (if x.isInf then .unreadable else .float x)
    | none, none, none => if isMoment token then some .moment else none

/-- The character can stand in a scalar. -/
def isScalarChar (c : Char) : Bool :=
  c.isAlphanum || c == '+' || c == '-' || c == '.' || c == '_' || c == ':'

/-- The token at the head of a text and the text behind it. A date takes the time behind one
blank with it. -/
def token (text : List Char) : List Char × List Char :=
  let head := text.takeWhile isScalarChar
  let rest := text.dropWhile isScalarChar
  match date? head, rest with
  | some [], ' ' :: a :: b :: ':' :: more =>
    if a.isDigit && b.isDigit then
      (head ++ ' ' :: a :: b :: ':' :: more.takeWhile isScalarChar, more.dropWhile isScalarChar)
    else (head, rest)
  | _, _ => (head, rest)

end CodeQuality.Toml
