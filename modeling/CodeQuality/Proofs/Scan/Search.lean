import CodeQuality.Scan.Code
import Mathlib.Data.List.Basic

/-!
# What a bracket search depends on

A search that ends at a byte has read the bytes up to there and one byte ahead of each code
position at most. So its answer stays the same when the text behind that byte is replaced, and it
moves along when the whole search is moved. Of what stands before its first byte, a search only
asks whether it is an at sign, and only in front of a double quote.
-/

namespace CodeQuality.Scan

/-! ## Literals and comments -/

/-- A stretch that ends at or before a mark does so whatever stands behind the mark. -/
def Settled (measure : List UInt8 → Nat) : Prop :=
  ∀ (head : List UInt8) (mark : UInt8) (tail other : List UInt8),
    measure (head ++ mark :: tail) ≤ head.length →
      measure (head ++ mark :: other) = measure (head ++ mark :: tail)

/-- The rest of a line is settled by its line feed. -/
theorem lineLength_settled : Settled lineLength := by
  intro head mark tail other h
  induction head with
  | nil =>
    by_cases hmark : mark = byte '\n'
    · simp [lineLength, hmark]
    · simp [lineLength, hmark] at h
  | cons b rest ih =>
    by_cases hb : b = byte '\n'
    · simp [lineLength, hb]
    · simp only [List.cons_append, lineLength, hb, if_false, List.length_cons] at h ⊢
      rw [ih (by omega)]

/-- A block comment is settled by the star and the slash at its end. -/
theorem blockLength_settled : Settled blockLength := by
  intro head mark tail other h
  induction head with
  | nil =>
    simp only [List.nil_append, blockLength, List.length_nil] at h
    split at h <;> omega
  | cons b rest ih =>
    have hnext : (rest ++ mark :: other).head? = (rest ++ mark :: tail).head? := by
      cases rest <;> rfl
    simp only [List.cons_append, blockLength, hnext, List.length_cons] at h ⊢
    split
    · rfl
    · rename_i hstar
      rw [if_neg hstar] at h
      rw [ih (by omega)]

/-- A raw literal is settled by its closing quote. -/
theorem rawLength_settled (quote : UInt8) : Settled (rawLength quote) := by
  intro head mark tail other h
  induction head with
  | nil =>
    simp only [List.nil_append, rawLength, List.length_nil] at h
    split at h <;> omega
  | cons b rest ih =>
    by_cases hb : b = quote
    · simp [rawLength, hb]
    · simp only [List.cons_append, rawLength, hb, if_false, List.length_cons] at h ⊢
      rw [ih (by omega)]

/-- A literal has no more bytes exactly when its line ends. -/
theorem quotedLength_cons_eq_zero_iff {quote : UInt8} (hquote : quote ≠ byte '\n') (b : UInt8)
    (rest : List UInt8) : quotedLength quote (b :: rest) = 0 ↔ b = byte '\n' := by
  have hslash : byte '\n' ≠ byte '\\' := by decide
  cases rest with
  | nil => simp [quotedLength]
  | cons c rest =>
    by_cases hb : b = byte '\n'
    · simp [quotedLength, hb, hslash, hquote.symm]
    · simp only [quotedLength, hb, if_false, iff_false]
      split_ifs <;> simp

/-- A literal is settled by its closing quote or the end of its line. -/
theorem quotedLength_settled {quote : UInt8} (hquote : quote ≠ byte '\n') :
    Settled (quotedLength quote) := by
  intro head mark tail other h
  have hmark (hzero : quotedLength quote (mark :: tail) = 0) :
      quotedLength quote (mark :: other) = 0 :=
    (quotedLength_cons_eq_zero_iff hquote mark other).mpr
      ((quotedLength_cons_eq_zero_iff hquote mark tail).mp hzero)
  fun_induction quotedLength quote head with
  | case1 =>
    have hzero : quotedLength quote (mark :: tail) = 0 := by simpa using h
    simp [hzero, hmark hzero]
  | case2 =>
    have hzero (more : List UInt8) : quotedLength quote (byte '\n' :: more) = 0 :=
      (quotedLength_cons_eq_zero_iff hquote _ more).mpr rfl
    simp [hzero]
  | case3 b hb =>
    simp only [List.cons_append, List.nil_append, quotedLength, hb, if_false,
      List.length_singleton] at h ⊢
    split_ifs at h ⊢
    · omega
    · rfl
    · have hzero : quotedLength quote (mark :: tail) = 0 := by omega
      rw [hzero, hmark hzero]
  | case4 c rest ih =>
    simp only [List.cons_append, quotedLength, if_true, List.length_cons] at h ⊢
    rw [ih (by omega)]
  | case5 c rest hslash => simp [quotedLength, hslash]
  | case6 c rest hslash hne => simp [quotedLength, hslash, hne]
  | case7 b c rest hslash hne hline ih =>
    simp only [List.cons_append, quotedLength, hslash, hne, hline, if_false,
      List.length_cons] at h ih ⊢
    rw [ih (by omega)]

/-- A verbatim literal is settled by its closing quote and the byte behind it. -/
theorem verbatimLength_settled : Settled verbatimLength := by
  intro head mark tail other h
  have hpos (more : List UInt8) : 0 < verbatimLength (mark :: more) := by
    cases more with
    | nil => simp [verbatimLength]
    | cons c more => simp only [verbatimLength]; split_ifs <;> omega
  fun_induction verbatimLength head with
  | case1 =>
    have := hpos tail
    simp only [List.nil_append, List.length_nil] at h
    omega
  | case2 b =>
    have := hpos tail
    simp only [List.cons_append, List.nil_append, verbatimLength, List.length_singleton] at h ⊢
    split_ifs at h ⊢ <;> omega
  | case3 rest ih =>
    simp only [List.cons_append, verbatimLength, if_true, List.length_cons] at h ⊢
    rw [ih (by omega)]
  | case4 c rest hdouble => simp [verbatimLength, hdouble]
  | case5 b c rest hquote ih =>
    simp only [List.cons_append, verbatimLength, hquote, if_false, List.length_cons] at h ih ⊢
    rw [ih (by omega)]

/-- A literal or comment is settled by its end, and a mark other than a slash is known to begin
none by itself. -/
theorem triviaLength_append (style : CommentStyle) (before : Option UInt8) (head : List UInt8)
    {mark : UInt8} (hmark : mark ≠ byte '/') (tail other : List UInt8)
    (h : triviaLength style before (head ++ mark :: tail) ≤ head.length) :
    triviaLength style before (head ++ mark :: other) =
      triviaLength style before (head ++ mark :: tail) := by
  cases head with
  | nil =>
    cases style <;>
      · simp only [List.nil_append, triviaLength, hmark, if_false, List.length_nil] at h ⊢
        split_ifs at h ⊢ <;> omega
  | cons b rest =>
    have hnext : (rest ++ mark :: other).head? = (rest ++ mark :: tail).head? := by
      cases rest <;> rfl
    have hquoted (hline : b ≠ byte '\n') :
        quotedLength b (rest ++ mark :: tail) + 1 ≤ rest.length + 1 →
          quotedLength b (rest ++ mark :: other) = quotedLength b (rest ++ mark :: tail) :=
      fun hle => quotedLength_settled hline rest mark tail other (by omega)
    simp only [List.cons_append, triviaLength, hnext, List.length_cons] at h ⊢
    by_cases hdouble : b = doubleQuote
    · simp only [if_pos hdouble] at h ⊢
      split_ifs at h ⊢
      · rw [verbatimLength_settled rest mark tail other (by omega)]
      · rw [hquoted (by subst b; decide) h]
    by_cases hsingle : b = singleQuote
    · simp only [if_neg hdouble, if_pos hsingle] at h ⊢
      rw [hquoted (by subst b; decide) h]
    by_cases hback : b = backQuote
    · simp only [if_neg hdouble, if_neg hsingle, if_pos hback] at h ⊢
      rw [rawLength_settled b rest mark tail other (by omega)]
    simp only [if_neg hdouble, if_neg hsingle, if_neg hback] at h ⊢
    cases style with
    | hash =>
      simp only at h ⊢
      split_ifs at h ⊢
      · rw [lineLength_settled rest mark tail other (by omega)]
      · rfl
    | slashes =>
      simp only at h ⊢
      split_ifs at h ⊢
      · rw [lineLength_settled rest mark tail other (by omega)]
      · -- A comment that opens right before the mark would have to end behind it.
        cases rest with
        | nil =>
          simp only [List.nil_append, List.tail_cons, List.length_nil] at h
          omega
        | cons c rest =>
          simp only [List.cons_append, List.tail_cons, List.length_cons] at h ⊢
          rw [blockLength_settled rest mark tail other (by omega)]
      · rfl
      · rfl

/-- What stands before matters only in front of a double quote, and there only whether it is an
at sign. -/
theorem triviaLength_before (style : CommentStyle) {before other : Option UInt8}
    (bytes : List UInt8)
    (h : bytes.head? = some doubleQuote → (before = some (byte '@') ↔ other = some (byte '@'))) :
    triviaLength style before bytes = triviaLength style other bytes := by
  cases bytes with
  | nil => rfl
  | cons b rest =>
    by_cases hdouble : b = doubleQuote
    · simp only [triviaLength, if_pos hdouble, h (by simp [hdouble])]
    · simp only [triviaLength, if_neg hdouble]

/-! ## Searches -/

section Search

variable {σ : Type} (style : CommentStyle) (step : σ → UInt8 → Step σ)

/-- A search ends at a byte behind what it had to skip, and its machine accepts that byte. -/
theorem searchFrom_eq_some {skip : Nat} {before : Option UInt8} {offset : Nat}
    {bytes : List UInt8} {state : σ} {found : Nat}
    (h : searchFrom style step skip before offset bytes state = some found) :
    ∃ head b tail last, bytes = head ++ b :: tail ∧ found = offset + head.length ∧
      skip ≤ head.length ∧ step last b = .found := by
  fun_induction searchFrom style step skip before offset bytes state with
  | case1 => simp at h
  | case2 skip before offset b rest state ih =>
    obtain ⟨head, b', tail, last, rfl, rfl, hskip, hfound⟩ := ih h
    exact ⟨b :: head, b', tail, last, rfl, by simp; omega, by simpa using hskip, hfound⟩
  | case3 before offset b rest state n htrivia ih =>
    obtain ⟨head, b', tail, last, rfl, rfl, -, hfound⟩ := ih h
    exact ⟨b :: head, b', tail, last, rfl, by simp; omega, Nat.zero_le _, hfound⟩
  | case4 before offset b rest state htrivia next hnext ih =>
    obtain ⟨head, b', tail, last, rfl, rfl, -, hfound⟩ := ih h
    exact ⟨b :: head, b', tail, last, rfl, by simp; omega, Nat.zero_le _, hfound⟩
  | case5 before offset b rest state htrivia hfound =>
    obtain rfl : offset = found := by simpa using h
    exact ⟨[], b, rest, state, rfl, by simp, Nat.le_refl _, hfound⟩
  | case6 => simp at h

/-- A search that ends at a mark ends there whatever stands behind the mark. -/
theorem searchFrom_append {skip : Nat} {before : Option UInt8} {offset : Nat}
    {head : List UInt8} {mark : UInt8} (hmark : mark ≠ byte '/') {tail : List UInt8} {state : σ}
    (other : List UInt8)
    (h : searchFrom style step skip before offset (head ++ mark :: tail) state =
      some (offset + head.length)) :
    searchFrom style step skip before offset (head ++ mark :: other) state =
      some (offset + head.length) := by
  have hbound {skip : Nat} {before : Option UInt8} {offset found : Nat} {bytes : List UInt8}
      {state : σ} (h : searchFrom style step skip before offset bytes state = some found) :
      offset + skip ≤ found := by
    obtain ⟨_, _, _, _, -, rfl, hskip, -⟩ := searchFrom_eq_some style step h
    omega
  induction head generalizing skip before offset state with
  | nil =>
    simp only [List.nil_append, List.length_nil, Nat.add_zero] at h ⊢
    cases skip with
    | succ skip =>
      have := hbound h
      omega
    | zero =>
      have htrivia := triviaLength_append style before [] hmark tail other
      simp only [searchFrom] at h ⊢
      split at h
      · have := hbound h
        omega
      · rename_i hzero
        have hother : triviaLength style before (mark :: other) = 0 := by
          simpa [hzero] using htrivia
        rw [hother]
        cases hstep : step state mark with
        | onward next =>
          rw [hstep] at h
          have := hbound h
          omega
        | found => rfl
        | absent => simp [hstep] at h
  | cons b rest ih =>
    have hnext : offset + (b :: rest).length = offset + 1 + rest.length := by simp; omega
    rw [hnext] at h ⊢
    cases skip with
    | succ skip => exact ih h
    | zero =>
      have htrivia := triviaLength_append style before (b :: rest) hmark tail other
      simp only [List.cons_append, searchFrom] at h htrivia ⊢
      split at h
      · rename_i n hn
        have := hbound h
        rw [htrivia (by simp; omega), hn]
        exact ih h
      · rename_i hzero
        rw [htrivia (by omega), hzero]
        cases hstep : step state b with
        | onward next =>
          simp only [hstep] at h ⊢
          exact ih h
        | found =>
          simp only [hstep, Option.some.injEq] at h
          omega
        | absent => simp [hstep] at h

/-- A search that begins further on ends further on by as much. -/
theorem searchFrom_add (more skip : Nat) (before : Option UInt8) (offset : Nat)
    (bytes : List UInt8) (state : σ) :
    searchFrom style step skip before (offset + more) bytes state =
      (searchFrom style step skip before offset bytes state).map (· + more) := by
  induction bytes generalizing skip before offset state with
  | nil => cases skip <;> rfl
  | cons b rest ih =>
    have hnext : offset + more + 1 = offset + 1 + more := by omega
    cases skip with
    | succ skip => simp only [searchFrom, hnext, ih]
    | zero =>
      simp only [searchFrom, hnext, ih]
      split
      · rfl
      · split <;> rfl

/-- What stands before the first byte of a search matters only in front of a double quote. -/
theorem searchFrom_before {before other : Option UInt8} (skip offset : Nat)
    (bytes : List UInt8) (state : σ)
    (h : bytes.head? = some doubleQuote → (before = some (byte '@') ↔ other = some (byte '@'))) :
    searchFrom style step skip before offset bytes state =
      searchFrom style step skip other offset bytes state := by
  cases bytes with
  | nil => cases skip <;> rfl
  | cons b rest =>
    cases skip with
    | succ skip => rfl
    | zero => simp only [searchFrom, triviaLength_before style (b :: rest) h]

end Search

end CodeQuality.Scan
