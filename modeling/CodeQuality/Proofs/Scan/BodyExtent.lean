import CodeQuality.Proofs.Scan.Balance

/-!
# The extent of a body in braces

The search for the end of a body has two phases. Before the body it counts parentheses and waits
for a brace or a semicolon outside of them. In the body it counts braces until as many are closed
as were opened. Here both phases are described by the code positions alone: the body opens at the
first brace outside of parentheses, unless a semicolon outside of parentheses comes before it, and
it closes at the first position up to which the braces are balanced.
-/

namespace CodeQuality.Scan

/-- The parentheses that are open behind the code, when some are open before it. One that closes
none is not counted. -/
def parensAfter (parens : Nat) (code : List (Nat × UInt8)) : Nat :=
  code.foldl (fun parens p => countBracket (byte '(') (byte ')') parens p.2) parens

/-- The byte stands at a code position outside of parentheses. -/
def StandsOutside (code : List (Nat × UInt8)) (b : UInt8) (offset : Nat) : Prop :=
  (offset, b) ∈ code ∧ parensAfter 0 (codeBefore code offset) = 0

/-- A body opens at the offset: the first brace outside of parentheses stands there, and no
semicolon outside of parentheses stands before it. -/
structure OpensBody (code : List (Nat × UInt8)) (opening : Nat) : Prop where
  first : IsLeast {offset | StandsOutside code (byte '{') offset} opening
  continued : ∀ offset < opening, ¬ StandsOutside code (byte ';') offset

/-- Outside of parentheses the byte opens a body or shows that there is none. -/
def Decides (parens : Nat) (head : List (Nat × UInt8)) (position : Nat × UInt8) : Prop :=
  parensAfter parens head = 0 ∧ (position.2 = byte '{' ∨ position.2 = byte ';')

/-- Before the body a byte decides or counts. -/
theorem bodyStep_outside (parens : Nat) (b : UInt8) :
    bodyStep (.outside parens) b =
      if parens = 0 ∧ b = byte '{' then .onward (.inside 1)
      else if parens = 0 ∧ b = byte ';' then .absent
      else .onward (.outside (countBracket (byte '(') (byte ')') parens b)) := by
  have hopen : byte '{' ≠ byte '(' ∧ byte '{' ≠ byte ')' ∧ byte '{' ≠ byte ';' := by decide
  have hsemi : byte ';' ≠ byte '(' ∧ byte ';' ≠ byte ')' := by decide
  by_cases hbrace : b = byte '{'
  · by_cases hzero : parens = 0 <;> simp [bodyStep, countBracket, hbrace, hopen, hzero]
  · by_cases hsemicolon : b = byte ';'
    · by_cases hzero : parens = 0 <;>
        simp [bodyStep, countBracket, hsemicolon, hsemi, hopen.2.2.symm, hzero]
    · simp only [bodyStep, countBracket, hbrace, hsemicolon]
      split_ifs <;> simp_all

/-- In the body a byte closes the last brace or counts. -/
theorem bodyStep_inside (depth : Nat) (b : UInt8) (hdepth : 0 < depth) :
    bodyStep (.inside depth) b =
      if countBracket (byte '{') (byte '}') depth b = 0 then .found
      else .onward (.inside (countBracket (byte '{') (byte '}') depth b)) := by
  have hne : byte '}' ≠ byte '{' := by decide
  by_cases hopen : b = byte '{'
  · simp [bodyStep, countBracket, hopen]
  · by_cases hclose : b = byte '}'
    · simp [bodyStep, countBracket, hclose, hne]
    · simp [bodyStep, countBracket, hopen, hclose, Nat.ne_of_gt hdepth]

/-- The search comes into a body exactly at the first byte that decides, when that is a brace. -/
theorem readCode_outside {parens : Nat} {code : List (Nat × UInt8)} {answer : Nat} :
    readCode bodyStep (.outside parens) code = some answer ↔
      ∃ head opening tail, FirstAt (Decides parens) code head (opening, byte '{') tail ∧
        readCode bodyStep (.inside 1) tail = some answer := by
  induction code generalizing parens with
  | nil => simp [readCode, not_firstAt_nil]
  | cons p rest ih =>
    obtain ⟨offset, b⟩ := p
    rw [readCode, bodyStep_outside]
    split_ifs with hbrace hsemicolon
    · obtain ⟨rfl, rfl⟩ := hbrace
      have hdecides : Decides 0 [] (offset, byte '{') := ⟨rfl, Or.inl rfl⟩
      simp [firstAt_cons_of_has hdecides]
    · obtain ⟨rfl, rfl⟩ := hsemicolon
      have hdecides : Decides 0 [] (offset, byte ';') := ⟨rfl, Or.inr rfl⟩
      have hne : byte '{' ≠ byte ';' := by decide
      simp [firstAt_cons_of_has hdecides, hne]
    · have hundecided : ¬ Decides parens [] (offset, b) := by
        rintro ⟨hzero, hb | hb⟩
        · exact hbrace ⟨hzero, hb⟩
        · exact hsemicolon ⟨hzero, hb⟩
      simp only [firstAt_cons_of_not hundecided, ih]
      constructor
      · rintro ⟨more, opening, tail, hfirst, h⟩
        exact ⟨_, opening, tail, ⟨more, rfl, hfirst⟩, h⟩
      · rintro ⟨_, opening, tail, ⟨more, -, hfirst⟩, h⟩
        exact ⟨more, opening, tail, hfirst, h⟩

/-- The first byte that decides is a brace exactly where a body opens. -/
theorem exists_firstAt_decides_iff {code : List (Nat × UInt8)}
    (hsorted : code.Pairwise fun p q => p.1 < q.1) {opening : Nat} :
    (∃ head tail, FirstAt (Decides 0) code head (opening, byte '{') tail) ↔
      OpensBody code opening := by
  rw [exists_firstAt_iff hsorted]
  constructor
  · rintro ⟨hmem, ⟨hzero, -⟩, hleast⟩
    refine ⟨⟨⟨hmem, hzero⟩, ?_⟩, ?_⟩
    · rintro offset ⟨hbrace, houtside⟩
      exact hleast offset _ hbrace ⟨houtside, Or.inl rfl⟩
    · rintro offset hlt ⟨hsemicolon, houtside⟩
      exact absurd (hleast offset _ hsemicolon ⟨houtside, Or.inr rfl⟩) (Nat.not_le_of_lt hlt)
  · rintro ⟨⟨⟨hmem, hzero⟩, hleast⟩, hcontinued⟩
    refine ⟨hmem, ⟨hzero, Or.inl rfl⟩, ?_⟩
    rintro earlier c hearlier ⟨houtside, hbrace | hsemicolon⟩
    · exact hleast ⟨hbrace ▸ hearlier, houtside⟩
    · exact Nat.le_of_not_lt fun hlt => hcontinued earlier hlt ⟨hsemicolon ▸ hearlier, houtside⟩

/-- The search for the end of a body reads the code positions of its scan, the offsets it stands at
where no literal or comment begins, and it ends exactly where a body that opens closes. When none
opens or the one that opens does not close, there is no end. -/
theorem braceBodyEnd_eq_some_iff (bytes : List UInt8) (start : Nat) (style : CommentStyle) :
    let code := codePositions bytes start style
    (∀ offset b, (offset, b) ∈ code ↔ Visits bytes style start offset ∧
      bytes[offset]? = some b ∧ triviaEnd bytes offset style = offset) ∧
    code.Pairwise (fun p q => p.1 < q.1) ∧
    (∀ closing, braceBodyEnd bytes start style = some closing ↔
      ∃ opening, OpensBody code opening ∧
        ClosesAt (byte '{') (byte '}') code opening closing) ∧
    (braceBodyEnd bytes start style = none ↔
      ¬ ∃ opening closing, OpensBody code opening ∧
        ClosesAt (byte '{') (byte '}') code opening closing) := by
  intro code
  have hbraces : byte '{' ≠ byte '}' := by decide
  have hsorted : code.Pairwise fun p q => p.1 < q.1 := pairwise_codePositions bytes start style
  have hsome (closing : Nat) : braceBodyEnd bytes start style = some closing ↔
      ∃ opening, OpensBody code opening ∧
        ClosesAt (byte '{') (byte '}') code opening closing := by
    rw [braceBodyEnd, search_eq_readCode, readCode_outside]
    constructor
    · rintro ⟨head, opening, tail, hfirst, hread⟩
      refine ⟨opening, (exists_firstAt_decides_iff hsorted).mp ⟨head, tail, hfirst⟩, ?_⟩
      rw [readCode_counting hbraces bodyStep_inside Nat.one_pos] at hread
      exact (exists_firstAt_balances_iff hbraces hsorted hfirst.split).mp hread
    · rintro ⟨opening, hopens, hcloses⟩
      obtain ⟨head, tail, hfirst⟩ := (exists_firstAt_decides_iff hsorted).mpr hopens
      refine ⟨head, opening, tail, hfirst, ?_⟩
      rw [readCode_counting hbraces bodyStep_inside Nat.one_pos]
      exact (exists_firstAt_balances_iff hbraces hsorted hfirst.split).mpr hcloses
  refine ⟨fun offset b => mem_codePositions, hsorted, hsome, ?_⟩
  rw [Option.eq_none_iff_forall_ne_some]
  constructor
  · rintro hnone ⟨opening, closing, hbody⟩
    exact hnone closing ((hsome closing).mpr ⟨opening, hbody⟩)
  · intro hnone closing hclosing
    obtain ⟨opening, hbody⟩ := (hsome closing).mp hclosing
    exact hnone ⟨opening, closing, hbody⟩

end CodeQuality.Scan
