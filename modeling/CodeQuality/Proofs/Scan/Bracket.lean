import CodeQuality.Proofs.Scan.Search
import CodeQuality.Proofs.Text.Offset

/-!
# Bracket searches in a text

The searches for a closing brace and a closing parenthesis read bytes. Here their answers are said
in characters: the text falls into what stands before the closing mark, the mark itself and what
stands behind it.
-/

namespace CodeQuality.Scan

open Text

/-- A body ends at a closing brace. -/
theorem bodyStep_found {state : BodyState} {b : UInt8} (h : bodyStep state b = .found) :
    b = byte '}' := by
  cases state with
  | outside parens =>
    simp only [bodyStep] at h
    split_ifs at h
  | inside depth =>
    simp only [bodyStep] at h
    split_ifs at h
    assumption

/-- A parameter list ends at a closing parenthesis. -/
theorem parenStep_found {depth : Nat} {b : UInt8} (h : parenStep depth b = .found) :
    b = byte ')' := by
  simp only [parenStep] at h
  split_ifs at h
  assumption

/-- The byte right behind a first piece has the last byte of that piece before it. -/
theorem byteBefore_append (head tail : List UInt8) :
    byteBefore (head ++ tail) head.length = head.getLast? := by
  rw [List.getLast?_eq_getElem?]
  cases hlength : head.length with
  | zero =>
    rw [List.length_eq_zero_iff.mp hlength]
    rfl
  | succ n => rw [byteBefore, List.getElem?_append_left (by omega), Nat.add_sub_cancel]

section Search

variable {σ : Type} {step : σ → UInt8 → Step σ} {mark : Char}

/-- A search that can only end at an ASCII mark splits the text at one. -/
theorem exists_append_of_search (hascii : mark.toNat < 128)
    (hstep : ∀ state b, step state b = .found → b = byte mark) {head tail : List Char}
    {style : CommentStyle} {state : σ} {found : Nat}
    (h : search step (encode (head ++ tail)) (byteLength head) style state = some found) :
    ∃ body rest, tail = body ++ mark :: rest ∧ found = byteLength (head ++ body) := by
  rw [search, drop_encode_append] at h
  obtain ⟨pre, b, post, last, hpre, rfl, -, hfound⟩ := searchFrom_eq_some style step h
  have hb := hstep last b hfound
  have hbyte : b.toNat < 128 := by
    rw [hb, byte, toNat_toUInt8_of_ascii hascii]
    exact hascii
  obtain ⟨body, c, rest, rfl, rfl, -, hc, hbc⟩ := exists_append_of_encode_eq hbyte hpre
  obtain rfl : c = mark := eq_of_toUInt8_eq hc hascii (hbc.symm.trans hb)
  exact ⟨body, rest, rfl, by simp⟩

/-- A search finds its mark again in the stretch it has read, whatever stands behind it, unless
the stretch begins with a quote that an at sign made verbatim. -/
theorem search_of_stretch (hascii : mark.toNat < 128) (hslash : mark ≠ '/')
    {head body rest : List Char} {style : CommentStyle} {state : σ}
    (hquote : (encode (body ++ mark :: rest)).head? = some doubleQuote →
      (encode head).getLast? ≠ some (byte '@'))
    (h : search step (encode (head ++ (body ++ mark :: rest))) (byteLength head) style state =
      some (byteLength (head ++ body))) (other : List Char) :
    search step (encode (body ++ mark :: other)) 0 style state = some (byteLength body) := by
  have hcode (tail : List Char) :
      encode (body ++ mark :: tail) = encode body ++ byte mark :: encode tail := by
    simp [utf8EncodeChar_of_ascii hascii, byte]
  have hmark : byte mark ≠ byte '/' := fun heq =>
    hslash (eq_of_toUInt8_eq hascii (by decide) heq)
  -- The same search with its offsets counted from the beginning of the stretch.
  have hlocal : searchFrom style step 0 none 0 (encode (body ++ mark :: rest)) state =
      some (0 + (encode body).length) := by
    rw [search, drop_encode_append, encode_append, ← length_encode head, byteBefore_append,
      ← Nat.zero_add (encode head).length, searchFrom_add, Option.map_eq_some_iff] at h
    obtain ⟨found, hfound, heq⟩ := h
    have hbefore : searchFrom style step 0 none 0 (encode (body ++ mark :: rest)) state =
        searchFrom style step 0 (encode head).getLast? 0 (encode (body ++ mark :: rest)) state :=
      searchFrom_before style step 0 0 _ state fun hdouble => by simpa using hquote hdouble
    rw [hbefore, hfound]
    simp only [byteLength_append, length_encode, Option.some.injEq] at heq ⊢
    omega
  rw [search, List.drop_zero, byteBefore, hcode]
  rw [hcode] at hlocal
  simpa using searchFrom_append style step hmark (encode other) hlocal

/-- A search behind a first piece is a search of the second piece moved on, unless the first piece
ends in an at sign. -/
theorem search_append (head tail : List UInt8) (hat : head.getLast? ≠ some (byte '@'))
    (start : Nat) (style : CommentStyle) (state : σ) :
    search step (head ++ tail) (start + head.length) style state =
      (search step tail start style state).map (· + head.length) := by
  have hdrop : (head ++ tail).drop (start + head.length) = tail.drop start := by
    rw [Nat.add_comm, ← List.drop_drop, List.drop_left]
  rw [search, search, hdrop, searchFrom_add]
  congr 1
  apply searchFrom_before
  intro _
  cases start with
  | zero =>
    rw [Nat.zero_add, byteBefore_append]
    simp [hat, byteBefore]
  | succ start =>
    have hbefore : byteBefore (head ++ tail) (start + 1 + head.length) = tail[start]? := by
      rw [show start + 1 + head.length = head.length + start + 1 by omega, byteBefore,
        List.getElem?_append_right (by omega), Nat.add_sub_cancel_left]
    rw [hbefore, byteBefore]

end Search

end CodeQuality.Scan
