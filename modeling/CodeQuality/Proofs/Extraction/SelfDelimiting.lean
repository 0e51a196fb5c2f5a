import CodeQuality.Proofs.Extraction.Record

/-!
# Self-delimiting bodies

A body in braces carries its own end. The search for a closing brace that has read a stretch of a
text reads the same stretch again wherever it stands, so an extracted body closes exactly at its
last byte. The one thing a search reads that the stretch does not hold is an at sign right before
a quote.
-/

namespace CodeQuality

open Text

namespace Scan

/-- What a search for a closing brace has read closes at the same brace before any suffix. -/
theorem braceBodyEnd_slice {text : List Char} {start stop : Nat} {style : CommentStyle}
    (hstart : isBoundary text start = true)
    (hquote : (encode text)[start]? = some doubleQuote →
      byteBefore (encode text) start ≠ some (byte '@'))
    (h : braceBodyEnd (encode text) start style = some stop) (suffix : List Char) :
    braceBodyEnd (encode (slice text start (stop + 1) ++ suffix)) 0 style =
      some (stop - start) := by
  obtain ⟨head, tail, rfl, rfl⟩ := exists_append_of_isBoundary hstart
  obtain ⟨body, rest, rfl, rfl⟩ :=
    exists_append_of_search (by decide) (fun _ _ => bodyStep_found) h
  have hat : (encode (body ++ '}' :: rest)).head? = some doubleQuote →
      (encode head).getLast? ≠ some (byte '@') := by
    intro hdouble
    rw [← byteBefore_append (encode head) (encode (body ++ '}' :: rest)), ← encode_append,
      length_encode]
    apply hquote
    rw [encode_append, ← length_encode head, List.getElem?_append_right (Nat.le_refl _),
      Nat.sub_self, ← List.head?_eq_getElem?, hdouble]
  rw [slice_through (by decide), byteLength_append, Nat.add_sub_cancel_left, List.append_assoc]
  exact search_of_stretch (by decide) (by decide) hat h suffix

end Scan

/-- The body ends with a closing brace, and that is where a search from its beginning ends. -/
def ClosesAtEnd (style : CommentStyle) (body : String) : Prop :=
  body.toList.getLast? = some '}' ∧
    Scan.braceBodyEnd (encode body.toList) 0 style = some (byteLength body.toList - 1)

/-- The body of a declaration in a language of braces closes at its end. -/
theorem Declared.closesAtEnd {rules : Rules} {head tail : List Char} {name body : String}
    {startLine endLine : Nat} (h : Declared rules head tail name body startLine endLine)
    (hbraces : rules.body = .braces) (hbody : body ≠ "") : ClosesAtEnd rules.comments body := by
  obtain ⟨headerEnd, -, rfl, -⟩ := h.located
  rcases Source.bodyAt_braces hbraces head tail headerEnd with
    hnone | ⟨inner, rest, rfl, hend, hsome⟩
  · rw [hnone] at hbody
    exact absurd rfl hbody
  · have hfirst : (encode (inner ++ '}' :: rest)).head? ≠ some Scan.doubleQuote := by
      obtain ⟨c, hc, hne⟩ := h.first
      intro hdouble
      have hquote := head?_of_head?_encode (by decide : '"'.toNat < 128) hdouble
      rw [Option.mem_def.mp hc] at hquote
      exact hne (Option.some.inj hquote)
    have hclosing : Scan.braceBodyEnd (encode (inner ++ ['}'])) 0 rules.comments =
        some (byteLength inner) :=
      Scan.search_of_stretch (by decide) (by decide) (fun hdouble => absurd hdouble hfirst) hend []
    rw [hsome, ClosesAtEnd, String.toList_ofList, hclosing]
    simp [show Char.utf8Size '}' = 1 by decide]

/-- Bodies in braces are self-delimiting: a stretch the search for a closing brace has read closes
at its last byte before every suffix, and so does every body that is extracted. -/
theorem braceBodyEnd_self_delimiting :
    (∀ (text suffix : List Char) (start stop : Nat) (style : CommentStyle),
      isBoundary text start = true →
      ((encode text)[start]? = some Scan.doubleQuote →
        Scan.byteBefore (encode text) start ≠ some (Scan.byte '@')) →
      Scan.braceBodyEnd (encode text) start style = some stop →
      Scan.braceBodyEnd (encode (slice text start (stop + 1) ++ suffix)) 0 style =
        some (stop - start)) ∧
    ∀ (options : ExtractionOptions) (path : Path) (text : String) (language : Language)
      (rules : Rules), Rules.of? language = some rules → rules.body = .braces →
      (∀ record ∈ (extract options path text language).functions, record.body ≠ "" →
        ClosesAtEnd rules.comments record.body) ∧
      ∀ record ∈ (extract options path text language).classes, record.body ≠ "" →
        ClosesAtEnd rules.comments record.body := by
  refine ⟨fun text suffix start stop style hstart hquote h =>
    Scan.braceBodyEnd_slice hstart hquote h suffix, ?_⟩
  intro options path text language rules hrules hbraces
  constructor
  · intro record hrecord hbody
    obtain ⟨head, tail, -, hdeclared⟩ := declared_of_mem_functions hrules hrecord
    exact hdeclared.closesAtEnd hbraces hbody
  · intro record hrecord hbody
    obtain ⟨head, tail, -, hdeclared⟩ := declared_of_mem_classes hrules hrecord
    exact hdeclared.closesAtEnd hbraces hbody

/-- A stretch with a brace in a literal and one in a comment, read again before a comment that is
never closed, and a function that returns a brace. -/
theorem braceBodyEnd_self_delimiting_literal :
    let text := "a; f(x) \x7b s = \"\x7d\"; /* \x7d */ \x7d".toList
    let file := "func f() \x7b return \"\x7d\" \x7d\n"
    Scan.braceBodyEnd (encode (slice text 3 28 ++ "/*".toList)) 0 .slashes = some 24 ∧
      ∃ record ∈ (extract {} "a.go" file .go).functions,
        record.body ++ "\n" = file ∧ ClosesAtEnd .slashes record.body := by
  intro text file
  have hrecord : ∃ record ∈ (extract {} "a.go" file .go).functions,
      record.body ++ "\n" = file ∧ record.body ≠ "" := by decide +kernel
  obtain ⟨record, hmem, hbody, hne⟩ := hrecord
  refine ⟨?_, record, hmem, hbody, ?_⟩
  · exact braceBodyEnd_self_delimiting.1 text "/*".toList 3 27 .slashes (by decide) (by decide)
      (by decide +kernel)
  · exact (braceBodyEnd_self_delimiting.2 {} "a.go" file .go Rules.go rfl rfl).1 record hmem hne

end CodeQuality
