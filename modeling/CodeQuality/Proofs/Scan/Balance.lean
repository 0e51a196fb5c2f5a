import CodeQuality.Proofs.Scan.CodePositions
import Mathlib.Order.Bounds.Basic

/-!
# Balanced brackets

A search in brackets counts how many are open and ends when none is left. This is the first code
position up to which as many brackets are closed as were opened. Braces and parentheses are
counted alike, so both marks are parameters.
-/

namespace CodeQuality.Scan

/-- The positions of the code that hold a byte. -/
def countOf (b : UInt8) (code : List (Nat × UInt8)) : Nat :=
  code.countP fun p => p.2 = b

/-- The code from one offset through another. -/
def codeWithin (code : List (Nat × UInt8)) (first last : Nat) : List (Nat × UInt8) :=
  code.filter fun p => first ≤ p.1 ∧ p.1 ≤ last

/-- One byte of code opens a bracket, closes one if there is one to close, or does neither. -/
def countBracket (opener closer : UInt8) (depth : Nat) (b : UInt8) : Nat :=
  if b = opener then depth + 1 else if b = closer then depth - 1 else depth

/-- Through the position as many brackets are closed as were opened, when some are open before. -/
def Balances (opener closer : UInt8) (depth : Nat) (head : List (Nat × UInt8))
    (position : Nat × UInt8) : Prop :=
  depth + countOf opener (head ++ [position]) = countOf closer (head ++ [position])

/-- The bracket at the first offset closes at the second: this is the first code position behind it
such that from the one through the other as many brackets are closed as opened. -/
def ClosesAt (opener closer : UInt8) (code : List (Nat × UInt8)) (opening closing : Nat) : Prop :=
  IsLeast {offset | opening < offset ∧ (∃ b, (offset, b) ∈ code) ∧
    countOf opener (codeWithin code opening offset) =
      countOf closer (codeWithin code opening offset)} closing

variable {opener closer : UInt8}

/-! ## Counting -/

section Counting

variable {depth : Nat}

/-- A byte changes the number of open brackets by what it adds to the two counts. -/
theorem countBracket_add (hne : opener ≠ closer) (hdepth : 0 < depth) (p : Nat × UInt8) :
    countBracket opener closer depth p.2 + countOf closer [p] = depth + countOf opener [p] := by
  by_cases hopen : p.2 = opener
  · simp [countBracket, countOf, hopen, hne]
  · by_cases hclose : p.2 = closer
    · have hcount : countBracket opener closer depth p.2 = depth - 1 := by
        rw [countBracket, if_neg hopen, if_pos hclose]
      have hcloser : countOf closer [p] = 1 := by simp [countOf, hclose]
      have hopener : countOf opener [p] = 0 := by simp [countOf, hopen]
      omega
    · simp [countBracket, countOf, hopen, hclose]

/-- A single byte balances the brackets when it closes the last one. -/
theorem balances_nil (hne : opener ≠ closer) (hdepth : 0 < depth) (p : Nat × UInt8) :
    Balances opener closer depth [] p ↔ countBracket opener closer depth p.2 = 0 := by
  have hcount := countBracket_add hne hdepth p
  rw [Balances, List.nil_append]
  omega

/-- A first byte counts towards the balance of what follows. -/
theorem balances_cons (hne : opener ≠ closer) (hdepth : 0 < depth) (p : Nat × UInt8) :
    (fun front => Balances opener closer depth (p :: front)) =
      Balances opener closer (countBracket opener closer depth p.2) := by
  funext front q
  have hcount := countBracket_add hne hdepth p
  have hsplit (b : UInt8) :
      countOf b (p :: front ++ [q]) = countOf b [p] + countOf b (front ++ [q]) := by
    rw [countOf, countOf, countOf, ← List.countP_append]
    rfl
  rw [Balances, Balances, hsplit, hsplit, eq_iff_iff]
  omega

/-- A search that counts brackets and ends when none is open ends at the first position that
balances them. -/
theorem readCode_counting {σ : Type} {step : σ → UInt8 → Step σ} {state : Nat → σ}
    (hne : opener ≠ closer)
    (hstep : ∀ depth b, 0 < depth → step (state depth) b =
      if countBracket opener closer depth b = 0 then .found
      else .onward (state (countBracket opener closer depth b)))
    (hdepth : 0 < depth) {code : List (Nat × UInt8)} {answer : Nat} :
    readCode step (state depth) code = some answer ↔
      ∃ head b tail, FirstAt (Balances opener closer depth) code head (answer, b) tail := by
  induction code generalizing depth with
  | nil => simp [readCode, not_firstAt_nil]
  | cons p rest ih =>
    obtain ⟨offset, b⟩ := p
    have hbalances := balances_nil hne hdepth (offset, b)
    rw [readCode, hstep depth b hdepth]
    split_ifs with hlast
    · simp [firstAt_cons_of_has (hbalances.mpr hlast), eq_comm]
    · simp only [firstAt_cons_of_not (hbalances.mp.mt hlast), balances_cons hne hdepth,
        ih (Nat.pos_of_ne_zero hlast)]
      constructor
      · rintro ⟨more, c, tail, hfirst⟩
        exact ⟨_, c, tail, more, rfl, hfirst⟩
      · rintro ⟨_, c, tail, more, -, hfirst⟩
        exact ⟨more, c, tail, hfirst⟩

end Counting

/-! ## Closing positions -/

section Closing

variable {code head tail : List (Nat × UInt8)} {opening offset : Nat} {b : UInt8}

/-- The positions behind an opening bracket are those of the code behind it. -/
theorem mem_tail_iff (hsorted : code.Pairwise fun p q => p.1 < q.1)
    (hsplit : code = head ++ (opening, opener) :: tail) :
    (offset, b) ∈ tail ↔ opening < offset ∧ (offset, b) ∈ code := by
  subst hsplit
  obtain ⟨-, hrest, hcross⟩ := List.pairwise_append.mp hsorted
  obtain ⟨hbehind, -⟩ := List.pairwise_cons.mp hrest
  constructor
  · intro hmem
    exact ⟨hbehind _ hmem, by simp [hmem]⟩
  · rintro ⟨hlt, hmem⟩
    rcases List.mem_append.mp hmem with hhead | hlater
    · exact absurd (hcross _ hhead _ List.mem_cons_self) (Nat.lt_asymm hlt)
    · rcases List.mem_cons.mp hlater with heq | htail
      · exact absurd hlt (Nat.not_lt_of_le (Nat.le_of_eq (congrArg Prod.fst heq)))
      · exact htail

/-- The code from an opening bracket through a later position. -/
theorem codeWithin_eq (hsorted : code.Pairwise fun p q => p.1 < q.1)
    (hsplit : code = head ++ (opening, opener) :: tail) (hmem : (offset, b) ∈ tail) :
    codeWithin code opening offset =
      (opening, opener) :: (codeBefore tail offset ++ [(offset, b)]) := by
  subst hsplit
  obtain ⟨-, hrest, hcross⟩ := List.pairwise_append.mp hsorted
  obtain ⟨hbehind, htail⟩ := List.pairwise_cons.mp hrest
  obtain ⟨front, back, rfl⟩ := List.append_of_mem hmem
  obtain ⟨-, hback, hfront⟩ := List.pairwise_append.mp htail
  let within (p : Nat × UInt8) : Bool := opening ≤ p.1 ∧ p.1 ≤ offset
  have hheadOut : head.filter within = [] := by
    rw [List.filter_eq_nil_iff]
    intro p hp
    have hlt := hcross p hp _ List.mem_cons_self
    simp only [within, decide_eq_true_eq] at hlt ⊢
    omega
  have hfrontIn : front.filter within = front := by
    rw [List.filter_eq_self]
    intro p hp
    have hlow := hbehind p (by simp [hp])
    have hhigh := hfront p hp _ List.mem_cons_self
    simp only [within, decide_eq_true_eq] at hlow hhigh ⊢
    omega
  have hbackOut : back.filter within = [] := by
    rw [List.filter_eq_nil_iff]
    intro p hp
    have hlt := (List.pairwise_cons.mp hback).1 p hp
    simp only [within, decide_eq_true_eq] at hlt ⊢
    omega
  have hle : opening ≤ offset := Nat.le_of_lt (hbehind _ hmem)
  have hopeningIn : within (opening, opener) = true := by simpa [within] using hle
  have hoffsetIn : within (offset, b) = true := by simpa [within] using hle
  rw [codeBefore_append htail]
  change (head ++ (opening, opener) :: (front ++ (offset, b) :: back)).filter within = _
  rw [List.filter_append, List.filter_cons_of_pos hopeningIn, List.filter_append,
    List.filter_cons_of_pos hoffsetIn, hheadOut, hfrontIn, hbackOut, List.nil_append]

/-- Behind an opening bracket the first position that balances it is where it closes. -/
theorem exists_firstAt_balances_iff (hne : opener ≠ closer)
    (hsorted : code.Pairwise fun p q => p.1 < q.1)
    (hsplit : code = head ++ (opening, opener) :: tail) {closing : Nat} :
    (∃ front b back, FirstAt (Balances opener closer 1) tail front (closing, b) back) ↔
      ClosesAt opener closer code opening closing := by
  have htail : tail.Pairwise fun p q => p.1 < q.1 := by
    subst hsplit
    exact (List.pairwise_cons.mp (List.pairwise_append.mp hsorted).2.1).2
  have hmem {offset : Nat} {b : UInt8} :
      (offset, b) ∈ tail ↔ opening < offset ∧ (offset, b) ∈ code := mem_tail_iff hsorted hsplit
  have hbalances {offset : Nat} {b : UInt8} (hin : (offset, b) ∈ tail) :
      Balances opener closer 1 (codeBefore tail offset) (offset, b) ↔
        countOf opener (codeWithin code opening offset) =
          countOf closer (codeWithin code opening offset) := by
    rw [codeWithin_eq hsorted hsplit hin, Balances, countOf, countOf, countOf, countOf,
      List.countP_cons_of_pos (by simp), List.countP_cons_of_neg (by simp [hne]), Nat.add_comm]
  constructor
  · rintro ⟨front, b, back, hfirst⟩
    obtain ⟨hin, hbalanced, hleast⟩ := (exists_firstAt_iff htail).mp ⟨front, back, hfirst⟩
    obtain ⟨hlt, hcode⟩ := hmem.mp hin
    refine ⟨⟨hlt, ⟨b, hcode⟩, (hbalances hin).mp hbalanced⟩, ?_⟩
    rintro earlier ⟨hbehind, ⟨c, hc⟩, hcount⟩
    have hearlier := hmem.mpr ⟨hbehind, hc⟩
    exact hleast earlier c hearlier ((hbalances hearlier).mpr hcount)
  · rintro ⟨⟨hlt, ⟨b, hb⟩, hcount⟩, hleast⟩
    have hin := hmem.mpr ⟨hlt, hb⟩
    have hfirst : ∃ front back,
        FirstAt (Balances opener closer 1) tail front (closing, b) back := by
      refine (exists_firstAt_iff htail).mpr ⟨hin, (hbalances hin).mpr hcount, ?_⟩
      intro earlier c hearlier hbalanced
      obtain ⟨hbehind, hc⟩ := hmem.mp hearlier
      exact hleast ⟨hbehind, ⟨c, hc⟩, (hbalances hearlier).mp hbalanced⟩
    obtain ⟨front, back, hfirst⟩ := hfirst
    exact ⟨front, b, back, hfirst⟩

end Closing

end CodeQuality.Scan
