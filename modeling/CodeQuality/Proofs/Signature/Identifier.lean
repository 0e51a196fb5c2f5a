import CodeQuality.Proofs.Text.Blank
import CodeQuality.Signature.Parameter

/-!
# Identifiers in a text

Identifiers are the runs of identifier characters that begin like one. No such character is white
space, so trimming a text changes nothing in them, and what stands on the two sides of any other
character has its identifiers by itself.
-/

namespace CodeQuality.Signature

open Text

/-- The name is made of letters, numbers, underscores and dollar signs, and does not begin with a
number. -/
structure IsIdentifier (name : List Char) : Prop where
  begins : ∃ c ∈ name.head?, isAlphabetic c = true ∨ c = '_' ∨ c = '$'
  chars : ∀ c ∈ name, isAlphanumeric c = true ∨ c = '_' ∨ c = '$'

/-- An identifier begins with a character that can begin one and is made of identifier
characters. -/
theorem isIdentifier_iff {name : List Char} :
    IsIdentifier name ↔
      name.head?.any isIdentifierStart = true ∧ name.all isIdentifierChar = true := by
  simp only [Option.any_eq_true, List.all_eq_true, isIdentifierStart, isIdentifierChar,
    Bool.or_eq_true, beq_iff_eq, or_assoc]
  exact ⟨fun h => ⟨h.begins, h.chars⟩, fun h => ⟨h.1, h.2⟩⟩

instance (name : List Char) : Decidable (IsIdentifier name) :=
  decidable_of_iff _ isIdentifier_iff.symm

/-! ## Identifier characters -/

/-- None of the white space can stand in an identifier. -/
theorem isIdentifierChar_blankRanges :
    ((blankRanges.flatMap fun range => List.range' range.1 (range.2 + 1 - range.1)).all fun code =>
      !isIdentifierChar (Char.ofNat code)) = true := by
  decide +kernel

/-- White space can not stand in an identifier. -/
theorem isIdentifierChar_of_isBlank {c : Char} (h : isBlank c = true) :
    isIdentifierChar c = false :=
  kind_of_isBlank isIdentifierChar_blankRanges h

namespace IsIdentifier

variable {name : List Char}

/-- The characters of an identifier are identifier characters. -/
theorem isIdentifierChar (h : IsIdentifier name) {c : Char} (hc : c ∈ name) :
    Signature.isIdentifierChar c = true :=
  List.all_eq_true.mp (isIdentifier_iff.mp h).2 c hc

/-- A character that is no identifier character is not in an identifier. -/
theorem notMem (h : IsIdentifier name) {c : Char} (hc : Signature.isIdentifierChar c = false) :
    c ∉ name := by
  intro hmem
  simp [h.isIdentifierChar hmem] at hc

/-- An identifier holds no brackets and no commas. -/
theorem plain (h : IsIdentifier name) :
    ∀ c ∈ name, c ∉ ['(', '[', '{', '<', ')', ']', '}', '>', ','] := by
  intro c hc
  exact notMem_of_kind (h.isIdentifierChar hc) (by decide)

/-- An identifier has a last character. -/
theorem exists_append (h : IsIdentifier name) :
    ∃ before c, name = before ++ [c] ∧ Signature.isIdentifierChar c = true := by
  obtain ⟨c, hc, -⟩ := h.begins
  have hne : name ≠ [] := by
    rintro rfl
    simp at hc
  exact ⟨_, _, (List.dropLast_append_getLast hne).symm,
    h.isIdentifierChar (List.getLast_mem hne)⟩

end IsIdentifier

/-! ## The identifiers of a text -/

/-- The identifiers on the two sides of another character follow each other. -/
theorem identifiers_append_cons {c : Char} (hc : isIdentifierChar c = false)
    (head tail : List Char) :
    identifiers (head ++ c :: tail) = identifiers head ++ identifiers tail := by
  rw [identifiers, List.splitOnP_append_cons _ _ (by simp [hc]), List.filter_append]
  rfl

/-- An identifier is the only one of its text. -/
theorem IsIdentifier.identifiers_eq {name : List Char} (h : IsIdentifier name) :
    identifiers name = [name] := by
  have hsplit : (name.splitOnP fun c => !Signature.isIdentifierChar c) = [name] :=
    List.splitOnP_eq_singleton fun c hc => by simp [h.isIdentifierChar hc]
  simp [identifiers, hsplit, (isIdentifier_iff.mp h).1]

/-- White space in front of a text holds no identifiers. -/
theorem identifiers_append_left {front : List Char} (h : ∀ c ∈ front, isBlank c = true)
    (text : List Char) : identifiers (front ++ text) = identifiers text := by
  induction front with
  | nil => rfl
  | cons c front ih =>
    have hc := isIdentifierChar_of_isBlank (h c List.mem_cons_self)
    have hempty := identifiers_append_cons hc [] (front ++ text)
    rw [List.cons_append, ← List.nil_append (c :: _), hempty,
      ih fun d hd => h d (List.mem_cons_of_mem _ hd)]
    rfl

/-- White space behind a text holds no identifiers. -/
theorem identifiers_append_right {back : List Char} (h : ∀ c ∈ back, isBlank c = true)
    (text : List Char) : identifiers (text ++ back) = identifiers text := by
  cases back with
  | nil => rw [List.append_nil]
  | cons c back =>
    have hback := identifiers_append_left (fun d hd => h d (List.mem_cons_of_mem _ hd)) []
    rw [identifiers_append_cons (isIdentifierChar_of_isBlank (h c List.mem_cons_self)),
      ← List.append_nil back, hback]
    exact List.append_nil _

/-- Trimming a text keeps its identifiers. -/
theorem identifiers_trim (text : List Char) : identifiers (trim text) = identifiers text := by
  obtain ⟨back, htext, hback⟩ := eq_append_trim text
  conv_rhs => rw [htext]
  rw [identifiers_append_left fun c hc => List.mem_takeWhile_imp hc,
    identifiers_append_right hback]

end CodeQuality.Signature
