import CodeQuality.Proofs.Signature.Depth
import CodeQuality.Proofs.Signature.Identifier
import CodeQuality.Rules.Basic

/-!
# The name in a declaration

A declaration gives up its default value and the array brackets at its end before its name is
looked for. The two scans count brackets each by its own rule, and they agree on a text without the
signs that arrows begin with. White space around a declaration never matters, so parameters can be
read off the pieces of a list as they are.
-/

namespace CodeQuality.Signature

open Text

/-! ## Default values -/

/-- An equals sign between the two texts, the first of which is given backwards, is not part of a
comparison or an arrow. -/
def beginsDefault (read rest : List Char) : Bool :=
  rest.head? != some '=' && rest.head? != some '>' &&
    !read.head?.any (['=', '!', '<', '>'].contains ·)

/-- White space before the sign does not matter. -/
theorem beginsDefault_left {blanks : List Char} (h : ∀ c ∈ blanks, isBlank c = true)
    (rest : List Char) : beginsDefault blanks rest = beginsDefault [] rest := by
  cases blanks with
  | nil => rfl
  | cons c blanks =>
    have hc : c ∉ ['=', '!', '<', '>'] :=
      notMem_of_kind (h c List.mem_cons_self) (by decide)
    have hsign : ['=', '!', '<', '>'].contains c = false := by simpa using hc
    rw [beginsDefault, List.head?_cons, Option.any_some, hsign]
    rfl

/-- White space behind the sign does not matter. -/
theorem beginsDefault_right {blanks : List Char} (h : ∀ c ∈ blanks, isBlank c = true)
    (read rest : List Char) : beginsDefault read (rest ++ blanks) = beginsDefault read rest := by
  cases rest with
  | cons d rest => rfl
  | nil =>
    cases blanks with
    | nil => rfl
    | cons c blanks =>
      have hc : c ∉ ['=', '>'] := notMem_of_kind (h c List.mem_cons_self) (by decide)
      have hsigns : (some c != some '=') = true ∧ (some c != some '>') = true := by simpa using hc
      rw [beginsDefault, List.nil_append, List.head?_cons, hsigns.1, hsigns.2]
      rfl

/-- At such a sign outside of brackets a default value begins. -/
theorem beforeDefault_sign (depth : Nat) (read rest : List Char) :
    beforeDefault depth read ('=' :: rest) =
      if depth = 0 ∧ beginsDefault read rest = true then read.reverse
      else beforeDefault depth ('=' :: read) rest := by
  simp [beforeDefault, beginsDefault, isOpening, isClosing, and_assoc]

/-- Every other character is kept, and counts if it is a bracket. -/
theorem beforeDefault_cons {c : Char} (hc : c ≠ '=') (depth : Nat) (read rest : List Char) :
    beforeDefault depth read (c :: rest) =
      beforeDefault (if isOpening c then depth + 1 else if isClosing c then depth - 1 else depth)
        (c :: read) rest := by
  have hsign : (c == '=') = false := by simpa using hc
  rw [beforeDefault, hsign]
  split_ifs <;> simp_all

/-- Without an equals sign all is kept. -/
theorem beforeDefault_of_notMem {text : List Char} (h : '=' ∉ text) (depth : Nat)
    (read : List Char) : beforeDefault depth read text = read.reverse ++ text := by
  induction text generalizing depth read with
  | nil => simp [beforeDefault]
  | cons c rest ih =>
    rw [List.mem_cons, not_or] at h
    rw [beforeDefault_cons (Ne.symm h.1), ih h.2, List.reverse_cons, List.append_assoc,
      List.singleton_append]

/-- Where no arrow can stand, the brackets are counted as they are for commas. -/
theorem beforeDefault_append (count : BracketCount) {text : List Char}
    (hbefore : count.before ≠ some '=' ∧ count.before ≠ some '-') (heq : '=' ∉ text)
    (hminus : '-' ∉ text) (read rest : List Char) :
    beforeDefault count.depth read (text ++ rest) =
      beforeDefault (count.read text).depth (text.reverse ++ read) rest := by
  induction text generalizing count read with
  | nil => rfl
  | cons c text ih =>
    rw [List.mem_cons, not_or] at heq hminus
    have hnext : (count.next c).depth =
        if isOpening c then count.depth + 1
        else if isClosing c then count.depth - 1 else count.depth := by
      simp [BracketCount.next, isOpening, isClosing, hbefore, or_assoc]
    have hc : (count.next c).before ≠ some '=' ∧ (count.next c).before ≠ some '-' := by
      simpa [BracketCount.next] using ⟨Ne.symm heq.1, Ne.symm hminus.1⟩
    rw [List.cons_append, beforeDefault_cons (Ne.symm heq.1), ← hnext, ih _ hc heq.2 hminus.2,
      BracketCount.read_cons, List.reverse_cons, List.append_assoc, List.singleton_append]

/-- A declaration without an arrow keeps all that stands before the equals sign of its default
value. -/
theorem stripDefault_append {declared rest : List Char} (heq : '=' ∉ declared)
    (hminus : '-' ∉ declared) (hdepth : bracketDepth declared = 0)
    (hbegins : beginsDefault declared.reverse rest = true) :
    stripDefault (declared ++ '=' :: rest) = trim declared := by
  have hkept : beforeDefault 0 [] (declared ++ '=' :: rest) =
      beforeDefault (bracketDepth declared) (declared.reverse ++ []) ('=' :: rest) :=
    beforeDefault_append {} (by simp) heq hminus [] ('=' :: rest)
  rw [stripDefault, hkept, hdepth, List.append_nil, beforeDefault_sign, if_pos ⟨rfl, hbegins⟩,
    List.reverse_reverse]

/-- What was read before the last character does not matter. -/
theorem beforeDefault_append_read {read extra : List Char}
    (h : read = [] → ∀ rest, beginsDefault extra rest = beginsDefault [] rest) (depth : Nat)
    (text : List Char) :
    beforeDefault depth (read ++ extra) text = extra.reverse ++ beforeDefault depth read text := by
  induction text generalizing depth read with
  | nil => simp [beforeDefault]
  | cons c rest ih =>
    have hkept (depth : Nat) : beforeDefault depth (c :: (read ++ extra)) rest =
        extra.reverse ++ beforeDefault depth (c :: read) rest :=
      ih (fun hnil => absurd hnil (List.cons_ne_nil _ _)) depth
    by_cases hc : c = '='
    · have hbegins : beginsDefault (read ++ extra) rest = beginsDefault read rest := by
        cases read with
        | nil => exact h rfl rest
        | cons d read => rfl
      rw [hc] at hkept ⊢
      rw [beforeDefault_sign, beforeDefault_sign, hbegins, hkept, apply_ite (extra.reverse ++ ·),
        List.reverse_append]
    · rw [beforeDefault_cons hc, beforeDefault_cons hc, hkept]

/-- White space behind a declaration is at most put to what is kept of it. -/
theorem beforeDefault_append_blank {back : List Char} (h : ∀ c ∈ back, isBlank c = true)
    (depth : Nat) (read text : List Char) :
    ∃ kept, (∀ c ∈ kept, isBlank c = true) ∧
      beforeDefault depth read (text ++ back) = beforeDefault depth read text ++ kept := by
  induction text generalizing depth read with
  | nil =>
    have hsign : '=' ∉ back := fun hmem => absurd (h '=' hmem) (by decide)
    exact ⟨back, h, beforeDefault_of_notMem hsign depth read⟩
  | cons c rest ih =>
    by_cases hc : c = '='
    · obtain rfl := hc
      rw [List.cons_append, beforeDefault_sign, beforeDefault_sign, beginsDefault_right h]
      split_ifs
      · exact ⟨[], by simp, by simp⟩
      · exact ih _ _
    · rw [List.cons_append, beforeDefault_cons hc, beforeDefault_cons hc]
      exact ih _ _

/-- White space around a declaration does not matter for its default value. -/
theorem stripDefault_trim (text : List Char) : stripDefault (trim text) = stripDefault text := by
  obtain ⟨back, htext, hback⟩ := eq_append_trim text
  have hfront : ∀ c ∈ text.takeWhile isBlank, isBlank c = true := fun _ => List.mem_takeWhile_imp
  generalize text.takeWhile isBlank = front at htext hfront
  obtain ⟨kept, hkept, hbehind⟩ := beforeDefault_append_blank hback 0 [] (trim text)
  have hbefore : beforeDefault 0 [] text = front ++ (beforeDefault 0 [] (trim text) ++ kept) := by
    have hsign : '=' ∉ front ∧ '-' ∉ front := by
      constructor <;> exact fun hmem => absurd (hfront _ hmem) (by decide)
    have hdepth : bracketDepth front = 0 :=
      (isClosed_of_plain fun c hc => notMem_of_kind (hfront c hc) (by decide)).settled
    have hread : beforeDefault 0 [] (front ++ (trim text ++ back)) =
        beforeDefault (bracketDepth front) (front.reverse ++ []) (trim text ++ back) :=
      beforeDefault_append {} (by simp) hsign.1 hsign.2 [] _
    have hblanks : ∀ rest, beginsDefault front.reverse rest = beginsDefault [] rest :=
      beginsDefault_left fun c hc => hfront c (List.mem_reverse.mp hc)
    conv_lhs => rw [htext, hread, hdepth, List.append_nil, ← List.nil_append front.reverse,
      beforeDefault_append_read fun _ => hblanks, List.reverse_reverse, hbehind]
  rw [stripDefault, stripDefault, hbefore, trim_append_left hfront, trim_append_right hkept]

/-! ## Names -/

/-- The name is one that the rules of a language can find. -/
structure IsParameterName (rules : Rules) (name : String) : Prop where
  identifier : IsIdentifier name.toList
  explicit : name ∉ rules.implicitParameters
  /-- Where names come first, words before them are taken for modifiers. -/
  unmodified : rules.parameterOrder = .nameFirst →
    name ∉ ["public", "private", "protected", "readonly", "override"]

instance (rules : Rules) (name : String) : Decidable (IsParameterName rules name) :=
  decidable_of_iff
    (IsIdentifier name.toList ∧ name ∉ rules.implicitParameters ∧
      (rules.parameterOrder = .nameFirst →
        name ∉ ["public", "private", "protected", "readonly", "override"]))
    ⟨fun ⟨h1, h2, h3⟩ => ⟨h1, h2, h3⟩, fun ⟨h1, h2, h3⟩ => ⟨h1, h2, h3⟩⟩

/-- A declaration that does not end with a bracket has no array suffix. -/
theorem stripArraySuffix_of_getLast? {declaration : List Char}
    (h : (trimEnd declaration).getLast? ≠ some ']') :
    stripArraySuffix declaration = trimEnd declaration := by
  rw [stripArraySuffix]
  cases declaration.length with
  | zero => rfl
  | succ limit => simp [stripArraySuffixes, h]

/-- White space around a declaration does not matter for its name. -/
theorem parameterName?_trim (order : ParameterOrder) (declaration : List Char) :
    parameterName? order (trim declaration) = parameterName? order declaration := by
  cases order <;> simp only [parameterName?, stripDefault_trim]

/-- A space in front of a declaration does not matter for its name. -/
theorem parameterName?_space (order : ParameterOrder) (declaration : List Char) :
    parameterName? order (' ' :: declaration) = parameterName? order declaration := by
  have hblank : ∀ c ∈ [' '], isBlank c = true := List.forall_mem_singleton.mpr (by decide)
  have htrim : trim (' ' :: declaration) = trim declaration := trim_append_left hblank declaration
  rw [← parameterName?_trim, htrim, parameterName?_trim]

@[simp] theorem parameterName?_nil (order : ParameterOrder) : parameterName? order [] = none := by
  cases order <;> rfl

/-- Behind its type and a space, an identifier is the name of a declaration. -/
theorem parameterName?_typeFirst {declaration type : List Char} {name : String}
    (h : stripDefault declaration = trim (type ++ ' ' :: name.toList))
    (hname : IsIdentifier name.toList) : parameterName? .typeFirst declaration = some name := by
  obtain ⟨before, c, hlast, hc⟩ := hname.exists_append
  have hblank : isBlank c = false := by
    by_contra hblank
    simp [isIdentifierChar_of_isBlank (by simpa using hblank)] at hc
  obtain ⟨head, hhead⟩ := exists_trim_append hblank (type ++ ' ' :: before)
  have htrim : trim (type ++ ' ' :: name.toList) = head ++ [c] := by
    rw [hlast, ← hhead, List.append_assoc, List.cons_append]
  have hbracket : (trimEnd (trim (type ++ ' ' :: name.toList))).getLast? ≠ some ']' := by
    rw [trimEnd_trim, htrim, List.getLast?_concat]
    rintro ⟨⟩
    exact absurd hc (by decide)
  rw [parameterName?, h, stripArraySuffix_of_getLast? hbracket, trimEnd_trim, identifiers_trim,
    identifiers_append_cons (by decide), hname.identifiers_eq, List.getLast?_concat,
    Option.map_some, String.ofList_toList]

/-- Before any other character, an identifier that is no modifier is the name of a declaration. -/
theorem parameterName?_nameFirst {declaration rest : List Char} {name : String}
    (h : stripDefault declaration = trim (name.toList ++ rest))
    (hname : IsIdentifier name.toList) (hmodifier : name ∉ parameterModifiers)
    (hrest : ∀ c ∈ rest.head?, isIdentifierChar c = false) :
    parameterName? .nameFirst declaration = some name := by
  have hfirst : ∃ others, identifiers (name.toList ++ rest) = name.toList :: others := by
    cases rest with
    | nil => exact ⟨[], by rw [List.append_nil, hname.identifiers_eq]⟩
    | cons c rest =>
      rw [identifiers_append_cons (hrest c rfl), hname.identifiers_eq]
      exact ⟨_, rfl⟩
  obtain ⟨others, hothers⟩ := hfirst
  simp [parameterName?, h, identifiers_trim, hothers, hmodifier]

/-- The parameters of a list are the names in its pieces: neither trimming the pieces nor dropping
the empty ones changes them. -/
theorem parameters_eq (order : ParameterOrder) (implicit : List String) (text : List Char) :
    parameters order implicit text =
      ((BracketCount.pieces {} [] text).filterMap (parameterName? order)).filter fun name =>
        !implicit.contains name := by
  have hpiece (piece : List Char) :
      (if (!(trim piece).isEmpty) = true then parameterName? order (trim piece) else none) =
        parameterName? order piece := by
    rw [← parameterName?_trim order piece]
    cases htrim : trim piece with
    | nil => simp
    | cons c rest => simp
  rw [parameters, splitTopLevel_eq_pieces, List.filterMap_filter, List.filterMap_map]
  congr 2
  exact funext hpiece

/-- A list without commas outside of brackets declares one parameter. -/
theorem parameters_of_passes {order : ParameterOrder} {implicit : List String} {text : List Char}
    {name : String} (h : BracketCount.Passes {} text)
    (hname : parameterName? order text = some name) (hexplicit : name ∉ implicit) :
    parameters order implicit text = [name] := by
  have hpieces := BracketCount.pieces_append h [] []
  rw [List.append_nil, List.append_nil, BracketCount.pieces_nil, List.reverse_reverse] at hpieces
  simp [parameters_eq, hpieces, hname, hexplicit]

/-- A closed declaration before a comma declares one parameter, and the others are declared behind
the comma. -/
theorem parameters_append_comma {order : ParameterOrder} {implicit : List String}
    {text : List Char} {name : String} (h : IsClosed text)
    (hname : parameterName? order text = some name) (hexplicit : name ∉ implicit)
    (rest : List Char) :
    parameters order implicit (text ++ ',' :: rest) = name :: parameters order implicit rest := by
  simp [parameters_eq, BracketCount.pieces_append_comma h, hname, hexplicit]

end CodeQuality.Signature
