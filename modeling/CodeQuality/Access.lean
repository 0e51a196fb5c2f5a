/-!
# Access

Who may use a declaration, and how a language says so: by a keyword, by the case or the
underscores of the name, or by its linkage.
-/

namespace CodeQuality

/-- Who may use a declaration. -/
inductive Access where
  | publicAccess
  | privateAccess
  | protectedAccess
  | internalAccess
  | unspecified
  deriving DecidableEq, Repr

namespace Access

/-- The access that a keyword grants. -/
def ofKeyword (keyword : String) : Access :=
  if keyword == "public" || keyword == "export" then publicAccess
  else if keyword == "private" then privateAccess
  else if keyword == "protected" then protectedAccess
  else if keyword == "internal" then internalAccess
  else unspecified

/-- The word that reports write. -/
def display : Access → String
  | publicAccess => "Public"
  | privateAccess => "Private"
  | protectedAccess => "Protected"
  | internalAccess => "Internal"
  | unspecified => "None"

/-- All values. -/
def all : List Access :=
  [publicAccess, privateAccess, protectedAccess, internalAccess, unspecified]

/-- The access that reports write as the given word. -/
def ofDisplay? (text : String) : Option Access :=
  all.find? fun access => access.display == text

end Access

/-- How a language expresses access. -/
inductive AccessConvention where
  /-- Only a keyword counts. -/
  | keyword
  /-- A keyword counts, and without one the declaration is public. -/
  | keywordOrPublic
  /-- Names that begin with an ASCII capital are public. -/
  | capitalization
  /-- Leading underscores restrict access. -/
  | underscore
  /-- Static declarations stay in their file. -/
  | linkage
  deriving DecidableEq, Repr

namespace AccessConvention

/-- The two characters are underscores. -/
def isDunder (pair : List Char) : Bool :=
  pair == ['_', '_']

/-- The access of a declaration by its keyword, its name and whether it is static. -/
def resolve (convention : AccessConvention) (word : Option String) (name : String)
    (isStatic : Bool) : Access :=
  match convention with
  | keyword => (word.map Access.ofKeyword).getD .unspecified
  | keywordOrPublic =>
    match word.map Access.ofKeyword with
    | none => .publicAccess
    | some .unspecified => .publicAccess
    | some access => access
  | capitalization =>
    if name.toList.head?.any Char.isUpper then .publicAccess else .privateAccess
  | underscore =>
    let chars := name.toList
    if isDunder (chars.take 2) then
      if isDunder (chars.reverse.take 2) then .publicAccess else .privateAccess
    else if chars.head? == some '_' then .protectedAccess
    else .publicAccess
  | linkage => if isStatic then .privateAccess else .publicAccess

end AccessConvention

end CodeQuality
