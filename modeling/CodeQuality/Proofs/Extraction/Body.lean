import CodeQuality.Extraction.Source
import CodeQuality.Proofs.LineCount
import CodeQuality.Proofs.Scan.Bracket
import CodeQuality.Proofs.Scan.Indentation
import CodeQuality.Proofs.Scan.LineIndex
import CodeQuality.Proofs.Text.Search

/-!
# Bodies in a text

Where the body of a declaration stands and on which line it ends. A body in braces ends at its
closing brace and a body by indentation before a line feed or the end of the text, so either way
the last line of a body is the line of its last character.
-/

namespace CodeQuality

open Text

namespace Source

/-- The line of an offset is one more than the number of line feeds before it. -/
theorem lineOf_ofText (text : List Char) (offset : Nat) :
    (ofText text).lineOf offset = ((encode text).take offset).count (Scan.byte '\n') + 1 :=
  Scan.LineIndex.lineOf_ofBytes _ _

/-- The line of a boundary is one more than the number of line feeds in the first piece. -/
theorem lineOf_append (head tail : List Char) :
    (ofText (head ++ tail)).lineOf (byteLength head) = head.count '\n' + 1 := by
  rw [lineOf_ofText, take_encode_append, count_encode (by decide)]

/-- Later offsets stand on the same line or on later ones. -/
theorem lineOf_mono (text : List Char) {first second : Nat} (h : first ≤ second) :
    (ofText text).lineOf first ≤ (ofText text).lineOf second :=
  Scan.LineIndex.monotone_lineOf _ h

/-- All offsets of a character other than a line feed stand on its line. -/
theorem lineOf_within (head tail : List Char) {c : Char} (hc : c ≠ '\n') {offset : Nat}
    (hlow : byteLength head ≤ offset) (hhigh : offset ≤ byteLength (head ++ [c])) :
    (ofText (head ++ c :: tail)).lineOf offset = head.count '\n' + 1 := by
  have hfirst := lineOf_mono (head ++ c :: tail) hlow
  have hlast := lineOf_mono (head ++ c :: tail) hhigh
  have hbehind : (ofText (head ++ c :: tail)).lineOf (byteLength (head ++ [c])) =
      head.count '\n' + 1 := by
    rw [List.append_cons, lineOf_append]
    simp [hc]
  rw [lineOf_append] at hfirst
  omega

/-- A stretch that does not end with a line feed ends on the line of its last byte. -/
theorem lineOf_last (head tail : List Char) {body : List Char}
    (hlast : body.getLast? ≠ some '\n') :
    (ofText (head ++ (body ++ tail))).lineOf
      (max (byteLength (head ++ body) - 1) (byteLength head)) = (head ++ body).count '\n' + 1 := by
  rcases List.eq_nil_or_concat body with rfl | ⟨init, c, rfl⟩
  · have hmax : max (byteLength head - 1) (byteLength head) = byteLength head := by omega
    simp only [List.append_nil, List.nil_append, hmax, lineOf_append]
  · have hc : c ≠ '\n' := by simpa using hlast
    have hpos := c.utf8Size_pos
    have htext : head ++ (init.concat c ++ tail) = head ++ init ++ c :: tail := by simp
    rw [htext, lineOf_within (head ++ init) tail hc]
    · simp [hc]
    · simp only [List.concat_eq_append, byteLength_append, byteLength_cons, byteLength_nil]
      omega
    · simp only [List.concat_eq_append, byteLength_append, byteLength_cons, byteLength_nil]
      omega

/-- The parameter list behind a place stands between parentheses behind it. -/
theorem parameterList?_eq_some {head tail : List Char} {style : CommentStyle} {list : Span}
    (h : (ofText (head ++ tail)).parameterList? style (byteLength head) = some list) :
    ∃ ahead inner rest, tail = ahead ++ '(' :: (inner ++ ')' :: rest) ∧
      list.start = byteLength (head ++ ahead) ∧
      list.stop = byteLength (head ++ (ahead ++ '(' :: inner)) := by
  have hchars : (ofText (head ++ tail)).chars = head ++ tail := rfl
  rw [parameterList?, parameterListOpen?, hchars, dropBytes_append] at h
  cases hfind : find? ['('] tail with
  | none => simp [hfind] at h
  | some opening =>
    simp only [hfind] at h
    split at h
    · simp at h
    · rename_i start hstart
      obtain ⟨ahead, more, rfl, hahead⟩ := exists_append_of_findFrom hfind
      obtain rfl : byteLength (head ++ ahead) = start := by
        split at hstart
        · simpa [hahead] using hstart
        · simp at hstart
      rw [Option.map_eq_some_iff] at h
      obtain ⟨closing, hclosing, rfl⟩ := h
      have hbytes : (ofText (head ++ (ahead ++ (['('] ++ more)))).bytes =
          encode (head ++ ahead ++ '(' :: more) := by
        simp [ofText]
      rw [hbytes] at hclosing
      obtain ⟨read, rest, hread, rfl⟩ := Scan.exists_append_of_search (by decide)
        (fun _ _ => Scan.parenStep_found) hclosing
      -- The opening parenthesis is not the closing one, so it stands before it.
      cases read with
      | nil => simp at hread
      | cons c inner =>
        obtain ⟨rfl, rfl⟩ := List.cons.inj hread
        exact ⟨ahead, inner, rest, rfl, rfl, by simp⟩

/-- A body in braces is absent, or it is what the search for its closing brace has read. -/
theorem bodyAt_braces {rules : Rules} (hbody : rules.body = .braces) (head tail : List Char)
    (headerEnd : Option Nat) :
    (ofText (head ++ tail)).bodyAt rules (byteLength head) headerEnd = ⟨[], head.count '\n' + 1⟩ ∨
      ∃ inner rest, tail = inner ++ '}' :: rest ∧
        Scan.braceBodyEnd (encode (head ++ tail)) (byteLength head) rules.comments =
          some (byteLength (head ++ inner)) ∧
        (ofText (head ++ tail)).bodyAt rules (byteLength head) headerEnd =
          ⟨inner ++ ['}'], (head ++ inner).count '\n' + 1⟩ := by
  have hbytes : (ofText (head ++ tail)).bytes = encode (head ++ tail) := rfl
  have hchars : (ofText (head ++ tail)).chars = head ++ tail := rfl
  simp only [bodyAt, hbody, hbytes, hchars, lineOf_append]
  cases hclosing : Scan.braceBodyEnd (encode (head ++ tail)) (byteLength head) rules.comments with
  | none => exact Or.inl rfl
  | some closing =>
    obtain ⟨inner, rest, rfl, rfl⟩ := Scan.exists_append_of_search (by decide)
      (fun _ _ => Scan.bodyStep_found) hclosing
    refine Or.inr ⟨inner, rest, rfl, rfl, ?_⟩
    have hline : (ofText (head ++ (inner ++ '}' :: rest))).lineOf (byteLength (head ++ inner)) =
        (head ++ inner).count '\n' + 1 := by
      rw [← List.append_assoc, lineOf_append]
    simp only [hline, slice_through (by decide : Char.utf8Size '}' = 1)]

/-- The body begins behind `head`, where the text goes on with `tail`. It does not end with a line
feed, and its last line is the one of its last character. -/
structure Body.Fits (body : Body) (head tail : List Char) : Prop where
  begins : body.text <+: tail
  last_ne : body.text.getLast? ≠ some '\n'
  endLine_eq : body.endLine = (head ++ body.text).count '\n' + 1

/-- A body in braces fits. -/
theorem fits_of_braces {rules : Rules} (hbody : rules.body = .braces) (head tail : List Char)
    (headerEnd : Option Nat) :
    ((ofText (head ++ tail)).bodyAt rules (byteLength head) headerEnd).Fits head tail := by
  rcases bodyAt_braces hbody head tail headerEnd with hnone | ⟨inner, rest, rfl, -, hsome⟩
  · rw [hnone]
    exact ⟨List.nil_prefix, by simp, by simp⟩
  · rw [hsome]
    exact ⟨⟨rest, by simp⟩, by simp, by simp⟩

/-- A body by indentation fits, if its header does not end with a line feed. -/
theorem fits_of_indentation {rules : Rules} (hbody : rules.body = .indentation)
    (head read tail : List Char) (hlast : (read ++ Scan.lineHead tail).getLast? ≠ some '\n') :
    ((ofText (head ++ (read ++ tail))).bodyAt rules (byteLength head)
      (some (byteLength (head ++ read)))).Fits head (read ++ tail) := by
  obtain ⟨more, rest, hmore, hne, hline, hend⟩ :=
    Scan.exists_append_of_indentedBodyEnd (head ++ read) tail (byteLength head)
  have hchars : (ofText (head ++ (read ++ tail))).chars = head ++ read ++ tail := by
    simp [ofText]
  have hbodyLast : (read ++ more).getLast? ≠ some '\n' := by
    rw [List.getLast?_append] at hlast ⊢
    cases hm : more.getLast? with
    | some d =>
      rw [hm] at hne
      simpa using hne
    | none =>
      -- Nothing behind the header is taken in, so the header's own end counts.
      obtain rfl : more = [] := List.getLast?_eq_none_iff.mp hm
      rw [List.prefix_nil.mp hline] at hlast
      simpa using hlast
  have hslice : slice (head ++ read ++ tail) (byteLength head)
      (byteLength (head ++ read ++ more)) = read ++ more := by
    rw [hmore, ← List.append_assoc, List.append_assoc head, slice_append]
  have htext : head ++ (read ++ tail) = head ++ (read ++ more ++ rest) := by simp [hmore]
  simp only [bodyAt, hbody, hchars, hend, hslice]
  refine ⟨⟨rest, by simp [hmore]⟩, hbodyLast, ?_⟩
  rw [htext, List.append_assoc head, lineOf_last head rest hbodyLast]

/-- The last line of a body that fits is counted. -/
theorem Body.Fits.endLine_le {body : Body} {head tail : List Char} (h : body.Fits head tail)
    (htail : tail ≠ []) (style : CommentStyle) :
    body.endLine ≤ (LineCount.ofText (head ++ tail) style).total := by
  rw [h.endLine_eq]
  obtain ⟨rest, rfl⟩ := h.begins
  rcases List.eq_nil_or_concat body.text with hnil | ⟨init, c, hconcat⟩
  · obtain ⟨c, rest', htail⟩ := List.exists_cons_of_ne_nil htail
    rw [htail, hnil, List.append_nil]
    exact LineCount.count_lt_total_ofText style head c rest'
  · have hc : c ≠ '\n' := by
      have hlast := h.last_ne
      rw [hconcat, List.concat_eq_append] at hlast
      simpa using hlast
    have htext : head ++ (body.text ++ rest) = head ++ init ++ c :: rest := by simp [hconcat]
    have hcount : (head ++ body.text).count '\n' = (head ++ init).count '\n' := by
      simp [hconcat, hc]
    rw [htext, hcount]
    exact LineCount.count_lt_total_ofText style (head ++ init) c rest

end Source

end CodeQuality
