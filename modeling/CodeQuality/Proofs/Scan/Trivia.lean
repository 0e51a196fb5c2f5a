import CodeQuality.Proofs.Scan.Search

/-!
# Literals and comments of a scan

A scan stands at an offset and either jumps behind the literal or comment that begins there or
reads one byte of code. Literals and comments end within the text, so every jump is a step forward
that does not leave the text. What holds behind the text and is handed back over both kinds of
steps therefore holds at every offset.
-/

namespace CodeQuality.Scan

/-! ## Literals and comments end within the text -/

theorem lineLength_le (bytes : List UInt8) : lineLength bytes ≤ bytes.length := by
  fun_induction lineLength bytes with
  | case1 => simp
  | case2 => simp
  | case3 b rest hb ih => simpa using ih

theorem blockLength_le (bytes : List UInt8) : blockLength bytes ≤ bytes.length := by
  fun_induction blockLength bytes with
  | case1 => simp
  | case2 a rest hmark =>
    -- The slash behind the star is part of the text.
    have hslash : rest ≠ [] := by
      rintro rfl
      simp at hmark
    have hpos := List.length_pos_iff.mpr hslash
    simp only [List.length_cons]
    omega
  | case3 a rest hmark ih => simpa using ih

theorem rawLength_le (quote : UInt8) (bytes : List UInt8) :
    rawLength quote bytes ≤ bytes.length := by
  fun_induction rawLength quote bytes with
  | case1 => simp
  | case2 => simp
  | case3 b rest hb ih => simpa using ih

/-- A backslash at the end of the text takes no byte with it. -/
theorem quotedLength_le (quote : UInt8) (bytes : List UInt8) :
    quotedLength quote bytes ≤ bytes.length := by
  fun_induction quotedLength quote bytes with
  | case4 c rest ih => simpa using ih
  | case7 b c rest hslash hquote hline ih =>
    simp only [List.length_cons] at ih ⊢
    omega
  | _ => simp

theorem verbatimLength_le (bytes : List UInt8) : verbatimLength bytes ≤ bytes.length := by
  fun_induction verbatimLength bytes with
  | case3 rest ih => simpa using ih
  | case5 b c rest hquote ih =>
    simp only [List.length_cons] at ih ⊢
    omega
  | _ => simp

/-- A literal or comment ends within the text, terminated or not. -/
theorem triviaLength_le (style : CommentStyle) (before : Option UInt8) (bytes : List UInt8) :
    triviaLength style before bytes ≤ bytes.length := by
  cases bytes with
  | nil => simp [triviaLength]
  | cons b rest =>
    have hline := lineLength_le rest
    have hraw := rawLength_le b rest
    have hquoted := quotedLength_le b rest
    have hverbatim := verbatimLength_le rest
    cases style with
    | hash =>
      simp only [triviaLength, List.length_cons]
      split_ifs <;> omega
    | slashes =>
      have hblock (hstar : (rest.head? == some (byte '*')) = true) :
          blockLength rest.tail + 2 ≤ rest.length + 1 := by
        obtain ⟨more, rfl⟩ := List.head?_eq_some_iff.mp (eq_of_beq hstar)
        have := blockLength_le more
        simp only [List.tail_cons, List.length_cons]
        omega
      simp only [triviaLength, List.length_cons]
      split_ifs
      all_goals first | omega | exact hblock ‹_›

/-- A quote stands at the offset, or the marks that open a comment. -/
def OpensTrivia (bytes : List UInt8) (offset : Nat) (style : CommentStyle) : Prop :=
  (∃ quote ∈ [doubleQuote, singleQuote, backQuote], bytes[offset]? = some quote) ∨
    match style with
    | .hash => bytes[offset]? = some (byte '#')
    | .slashes => bytes[offset]? = some (byte '/') ∧
        (bytes[offset + 1]? = some (byte '/') ∨ bytes[offset + 1]? = some (byte '*'))

/-- The offset behind the literal or comment that begins at an offset, or the offset itself when
none does. -/
def triviaEnd (bytes : List UInt8) (offset : Nat) (style : CommentStyle) : Nat :=
  offset + triviaLength style (byteBefore bytes offset) (bytes.drop offset)

theorem le_triviaEnd (bytes : List UInt8) (offset : Nat) (style : CommentStyle) :
    offset ≤ triviaEnd bytes offset style :=
  Nat.le_add_right _ _

theorem triviaEnd_le {bytes : List UInt8} {offset : Nat} (h : offset ≤ bytes.length)
    (style : CommentStyle) : triviaEnd bytes offset style ≤ bytes.length := by
  have hle := triviaLength_le style (byteBefore bytes offset) (bytes.drop offset)
  rw [List.length_drop] at hle
  rw [triviaEnd]
  omega

/-- A scan jumps exactly where a literal or comment is opened. -/
theorem lt_triviaEnd_iff (bytes : List UInt8) (offset : Nat) (style : CommentStyle) :
    offset < triviaEnd bytes offset style ↔ OpensTrivia bytes offset style := by
  have hfirst : bytes[offset]? = (bytes.drop offset).head? := (List.head?_drop ..).symm
  have hsecond : bytes[offset + 1]? = (bytes.drop offset).tail.head? := by
    rw [List.tail_drop, List.head?_drop]
  simp only [triviaEnd, OpensTrivia, hfirst, hsecond, Nat.lt_add_right_iff_pos]
  generalize byteBefore bytes offset = before
  cases bytes.drop offset with
  | nil => cases style <;> simp [triviaLength]
  | cons b rest =>
    by_cases hquote : b ∈ [doubleQuote, singleQuote, backQuote]
    · have hpos : 0 < triviaLength style before (b :: rest) := by
        simp only [List.mem_cons, List.not_mem_nil, or_false] at hquote
        rcases hquote with rfl | rfl | rfl <;> simp only [triviaLength] <;> split_ifs <;> omega
      exact iff_of_true hpos (Or.inl ⟨b, hquote, rfl⟩)
    · have hcode : ¬ ∃ quote ∈ [doubleQuote, singleQuote, backQuote],
          (b :: rest).head? = some quote := by
        rintro ⟨quote, hmem, heq⟩
        exact hquote (Option.some.inj heq ▸ hmem)
      rw [or_iff_right hcode]
      simp only [List.mem_cons, List.not_mem_nil, or_false, not_or] at hquote
      obtain ⟨hdouble, hsingle, hback⟩ := hquote
      simp only [triviaLength, if_neg hdouble, if_neg hsingle, if_neg hback, List.head?_cons,
        List.tail_cons, Option.some.injEq]
      cases style with
      | hash => simp only; split_ifs with hmark <;> simp [hmark]
      | slashes => simp only; split_ifs <;> simp_all

/-- A property of offsets holds everywhere when it holds behind the text and at every offset where
it holds one step further on. -/
@[elab_as_elim]
theorem scan_induction (bytes : List UInt8) (style : CommentStyle) {motive : Nat → Prop}
    (ended : ∀ offset, bytes.length ≤ offset → motive offset)
    (jumped : ∀ offset, offset < bytes.length → offset < triviaEnd bytes offset style →
      motive (triviaEnd bytes offset style) → motive offset)
    (onward : ∀ offset b, bytes[offset]? = some b → triviaEnd bytes offset style = offset →
      motive (offset + 1) → motive offset)
    (offset : Nat) : motive offset := by
  -- Each step leaves fewer bytes ahead, whether it jumps or reads.
  induction hleft : bytes.length - offset using Nat.strongRecOn generalizing offset with
  | ind left ih =>
    rcases Nat.lt_or_ge offset bytes.length with hlt | hge
    · rcases Nat.lt_or_eq_of_le (le_triviaEnd bytes offset style) with hopen | hcode
      · exact jumped offset hlt hopen (ih _ (by omega) _ rfl)
      · exact onward offset _ (List.getElem?_eq_getElem hlt) hcode.symm (ih _ (by omega) _ rfl)
    · exact ended offset hge

end CodeQuality.Scan
