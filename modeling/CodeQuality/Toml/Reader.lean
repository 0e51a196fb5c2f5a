import CodeQuality.Toml.Number
import CodeQuality.Toml.Text
import CodeQuality.Toml.Tree

/-!
# Reading TOML

A document is read line by line. Each line holds a header, a key with its value, or neither, and
may end in a comment. Lists and inline tables may run over several lines.
-/

namespace CodeQuality.Toml

/-- The text behind a comment, which runs up to the end of the line, when one begins here. -/
def skipComment? (text : List Char) : Option (List Char) :=
  match text with
  | '#' :: rest =>
    let behind := rest.dropWhile isPrintable
    match behind with
    | [] => some []
    | '\n' :: _ => some behind
    | '\r' :: '\n' :: _ => some behind
    | _ => none
  | _ => some text

/-- The text behind blanks, comments and line breaks. -/
def skipTrivia? : Nat → List Char → Option (List Char)
  | 0, _ => none
  | limit + 1, text =>
    match skipComment? (skipGap text) with
    | none => none
    | some rest =>
      match newline? rest with
      | some rest => skipTrivia? limit rest
      | none => some rest

/-- How deep lists and inline tables may be nested. -/
def depthLimit : Nat := 80

mutual

/-- A value and the text behind it, with at most `depth` levels of lists and inline tables. -/
def value? : Nat → Nat → List Char → Option (Item × List Char)
  | 0, _, _ => none
  | limit + 1, depth, text =>
    match text, depth with
    | [], _ => none
    | '[' :: _, 0 => none
    | '{' :: _, 0 => none
    | '[' :: rest, depth + 1 =>
      (items? limit depth rest).map fun (items, rest) => (.leaf (.list items), rest)
    | '{' :: rest, depth + 1 =>
      (pairs? limit depth [] rest).map fun (entries, rest) => (.table .inline entries, rest)
    | c :: _, _ =>
      if c == doubleQuote || c == singleQuote then
        (text? text).map fun (value, rest) => (.leaf (.text value), rest)
      else
        let (head, rest) := token text
        (scalar head).map fun value => (.leaf value, rest)

/-- The items of a list up to its closing bracket, and the text behind it. -/
def items? : Nat → Nat → List Char → Option (List Value × List Char)
  | 0, _, _ => none
  | limit + 1, depth, text =>
    match skipTrivia? (text.length + 1) text with
    | none => none
    | some (']' :: rest) => some ([], rest)
    | some rest =>
      match value? limit depth rest with
      | none => none
      | some (item, rest) =>
        match skipTrivia? (rest.length + 1) rest with
        | some (',' :: rest) =>
          (items? limit depth rest).map fun (items, rest) => (item.value :: items, rest)
        | some (']' :: rest) => some ([item.value], rest)
        | _ => none

/-- The entries of an inline table up to its closing brace, behind those already read, and the
text behind it. -/
def pairs? : Nat → Nat → Entries → List Char → Option (Entries × List Char)
  | 0, _, _, _ => none
  | limit + 1, depth, entries, text =>
    match skipTrivia? (text.length + 1) text with
    | none => none
    | some ('}' :: rest) => some (entries, rest)
    | some rest =>
      match key? rest with
      | some (key, '=' :: rest) =>
        match value? limit depth (skipGap rest) with
        | none => none
        | some (item, rest) =>
          match setDotted? key item entries, skipTrivia? (rest.length + 1) rest with
          | some entries, some (',' :: rest) => pairs? limit depth entries rest
          | some entries, some ('}' :: rest) => some (entries, rest)
          | _, _ => none
      | _ => none

end

/-- A document as far as it has been read: its entries, and the header that is open. -/
structure Draft where
  entries : Entries := []
  opened : List String := []

/-- The document behind one line, and the text behind what the line holds. -/
def statement? (draft : Draft) (text : List Char) : Option (Draft × List Char) :=
  match text with
  | '[' :: '[' :: rest =>
    match key? rest with
    | some (path, ']' :: ']' :: rest) =>
      (onPath? appendTable? path draft.entries).map fun entries => (⟨entries, path⟩, rest)
    | _ => none
  | '[' :: rest =>
    match key? rest with
    | some (path, ']' :: rest) =>
      (onPath? openTable? path draft.entries).map fun entries => (⟨entries, path⟩, rest)
    | _ => none
  | _ =>
    match key? text with
    | some (key, '=' :: rest) =>
      match value? (text.length + 1) depthLimit (skipGap rest) with
      | some (item, rest) =>
        (onOpened? (setDotted? key item) draft.opened draft.entries).map fun entries =>
          ({ draft with entries := entries }, rest)
      | none => none
    | _ => none

/-- The document behind the remaining lines. -/
def lines? : Nat → Draft → List Char → Option Draft
  | 0, _, _ => none
  | limit + 1, draft, text =>
    match skipTrivia? (text.length + 1) text with
    | none => none
    | some [] => some draft
    | some rest =>
      match statement? draft rest with
      | none => none
      | some (draft, rest) =>
        match skipComment? (skipGap rest) with
        | some [] => some draft
        | some rest =>
          match newline? rest with
          | some rest => lines? limit draft rest
          | none => none
        | none => none

/-- The value of a TOML document. A byte order mark at its beginning is ignored. -/
def read? (text : String) : Option Value :=
  let chars := match text.toList with
    | c :: rest => if c.toNat == 0xFEFF then rest else c :: rest
    | [] => []
  (lines? (chars.length + 1) {} chars).map fun draft => (Item.table .header draft.entries).value

end CodeQuality.Toml
