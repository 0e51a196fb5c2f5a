import CodeQuality.Proofs.Scan.Balance
import CodeQuality.Proofs.Scan.Bracket
import CodeQuality.Proofs.Scan.Run

/-!
# The parenthesis that closes another

The search for the end of a parameter list begins at an opening parenthesis and counts the ones
that are open. It ends at the first code position up to which as many are closed as were opened.
From the second byte of code on one parenthesis at least is open, so that every closing one closes
another.
-/

namespace CodeQuality.Scan

/-- No literal or comment begins with an opening parenthesis. -/
theorem triviaEnd_of_paren {bytes : List UInt8} {opening : Nat}
    (h : bytes[opening]? = some (byte '(')) (style : CommentStyle) :
    triviaEnd bytes opening style = opening := by
  obtain ⟨hlt, hbyte⟩ := List.getElem?_eq_some_iff.mp h
  have hquotes : byte '(' ≠ doubleQuote ∧ byte '(' ≠ singleQuote ∧ byte '(' ≠ backQuote := by
    decide
  have hmarks : byte '(' ≠ byte '#' ∧ byte '(' ≠ byte '/' := by decide
  rw [triviaEnd, List.drop_eq_getElem_cons hlt, hbyte]
  cases style <;> simp [triviaLength, hquotes, hmarks]

/-- While a parenthesis is open, a byte closes the last one or counts. -/
theorem parenStep_eq (depth : Nat) (b : UInt8) (hdepth : 0 < depth) :
    parenStep depth b =
      if countBracket (byte '(') (byte ')') depth b = 0 then .found
      else .onward (countBracket (byte '(') (byte ')') depth b) := by
  have hne : byte ')' ≠ byte '(' := by decide
  by_cases hopen : b = byte '('
  · simp [parenStep, countBracket, hopen]
  · by_cases hclose : b = byte ')'
    · simp [parenStep, countBracket, hclose, hne]
    · simp [parenStep, countBracket, hopen, hclose, Nat.ne_of_gt hdepth]

/-- A search that goes on while a parenthesis is open leaves one open. -/
theorem parenStep_pos {depth : Nat} {b : UInt8} {next : Nat} (hdepth : 0 < depth)
    (h : parenStep depth b = .onward next) : 0 < next := by
  rw [parenStep_eq depth b hdepth] at h
  split_ifs at h with hzero
  obtain rfl := Step.onward.inj h
  exact Nat.pos_of_ne_zero hzero

/-- What a search finds is a byte at which its machine ends. -/
theorem Runs.exists_found {σ : Type} {step : σ → UInt8 → Step σ} {bytes : List UInt8}
    {style : CommentStyle} {offset : Nat} {state : σ} {trail : List (Nat × σ)} {answer : Nat}
    (h : Runs step bytes style offset state trail (some answer)) :
    ∃ b last, bytes[answer]? = some b ∧ step last b = .found := by
  generalize hanswer : some answer = result at h
  induction h with
  | ended => cases hanswer
  | jumped _ _ _ ih => exact ih hanswer
  | onward _ _ _ _ ih => exact ih hanswer
  | @found _ last b hb _ hstep =>
    obtain rfl := Option.some.inj hanswer
    exact ⟨b, last, hb, hstep⟩
  | absent => cases hanswer

section Opening

variable {bytes : List UInt8} {opening : Nat} (hopening : bytes[opening]? = some (byte '('))
  (style : CommentStyle)
include hopening

/-- The search ends where the parenthesis that it begins at closes. -/
theorem matchingParen_eq_some (closing : Nat) :
    matchingParen bytes opening style = some closing ↔
      ClosesAt (byte '(') (byte ')') (codePositions bytes opening style) opening closing := by
  have hne : byte '(' ≠ byte ')' := by decide
  have hcode : codePositions bytes opening style =
      [] ++ (opening, byte '(') :: codePositions bytes (opening + 1) style :=
    codePositions_of_triviaEnd_eq hopening (triviaEnd_of_paren hopening style)
  rw [← exists_firstAt_balances_iff hne (pairwise_codePositions bytes opening style) hcode,
    ← readCode_counting hne parenStep_eq Nat.one_pos, matchingParen, search_eq_readCode, hcode]
  rfl

/-- Every closing parenthesis that the search stands at finds one open. -/
theorem exists_runs_paren :
    ∃ trail, Runs parenStep bytes style opening 0 trail (matchingParen bytes opening style) ∧
      ∀ visit ∈ trail, bytes[visit.1]? = some (byte ')') → 0 < visit.2 := by
  have hcode := triviaEnd_of_paren hopening style
  have hstep : parenStep 0 (byte '(') = .onward 1 := rfl
  obtain ⟨trail, hruns⟩ := exists_runs parenStep bytes style (opening + 1) 1
  refine ⟨(opening, 0) :: trail, ?_, ?_⟩
  · rw [matchingParen, search_of_triviaEnd_eq hopening hcode, hstep]
    exact .onward hopening hcode hstep hruns
  · intro visit hvisit hclosing
    rcases List.mem_cons.mp hvisit with rfl | hlater
    · rw [hopening] at hclosing
      exact absurd (Option.some.inj hclosing) (by decide)
    · exact hruns.mem_invariant (fun _ _ _ => parenStep_pos) Nat.one_pos visit hlater

end Opening

/-- The search from an opening parenthesis reads the code positions of its scan, the offsets it
stands at where no literal or comment begins. It ends at the least of them behind the opening
parenthesis such that from the one through the other as many parentheses are closed as opened, and
has no answer when there is none. It ends at a closing parenthesis, and at every one that it comes
to some parenthesis is open, so the count of open ones is never cut off at zero. -/
theorem matchingParen_closes {bytes : List UInt8} {opening : Nat}
    (hopening : bytes[opening]? = some (byte '(')) (style : CommentStyle) :
    let code := codePositions bytes opening style
    (∀ offset b, (offset, b) ∈ code ↔ Visits bytes style opening offset ∧
      bytes[offset]? = some b ∧ triviaEnd bytes offset style = offset) ∧
    (∀ closing, matchingParen bytes opening style = some closing ↔
      ClosesAt (byte '(') (byte ')') code opening closing) ∧
    (matchingParen bytes opening style = none ↔
      ¬ ∃ closing, ClosesAt (byte '(') (byte ')') code opening closing) ∧
    (∀ closing, matchingParen bytes opening style = some closing →
      opening < closing ∧ bytes[closing]? = some (byte ')')) ∧
    ∃ trail, Runs parenStep bytes style opening 0 trail (matchingParen bytes opening style) ∧
      ∀ visit ∈ trail, bytes[visit.1]? = some (byte ')') → 0 < visit.2 := by
  intro code
  have hsome := matchingParen_eq_some hopening style
  obtain ⟨trail, hruns, hpositive⟩ := exists_runs_paren hopening style
  refine ⟨fun offset b => mem_codePositions, hsome, ?_, ?_, trail, hruns, hpositive⟩
  · simp only [Option.eq_none_iff_forall_ne_some, ne_eq, hsome, not_exists, code]
  · intro closing hclosing
    refine ⟨((hsome closing).mp hclosing).1.1, ?_⟩
    rw [hclosing] at hruns
    obtain ⟨b, last, hb, hfound⟩ := hruns.exists_found
    rw [hb, parenStep_found hfound]

/-- A list with a parenthesis in a literal, one in a comment and a pair in a default value. -/
theorem matchingParen_closes_nested :
    let bytes := Text.encode "f(a=')', b /* ) */ = (1))".toList
    bytes[1]? = some (byte '(') ∧ matchingParen bytes 1 .slashes = some 24 ∧
      ClosesAt (byte '(') (byte ')') (codePositions bytes 1 .slashes) 1 24 ∧
      bytes[24]? = some (byte ')') := by
  intro bytes
  have hopening : bytes[1]? = some (byte '(') := by decide
  have hclosing : matchingParen bytes 1 .slashes = some 24 := by decide
  obtain ⟨-, hsome, -, hends, -⟩ := matchingParen_closes hopening .slashes
  exact ⟨hopening, hclosing, (hsome 24).mp hclosing, (hends 24 hclosing).2⟩

end CodeQuality.Scan
