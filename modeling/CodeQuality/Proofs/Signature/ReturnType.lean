import CodeQuality.Proofs.Text.Blank
import CodeQuality.Proofs.Text.Search
import CodeQuality.Signature.Types

/-!
# Return types are read back

A type behind the parameters ends at the first of several stops. A stop of more than one character
could begin in the type and end in what follows it, so it is said first when no stop begins in a
piece of text, given what stands behind the piece. A type that holds none of the stops is then read
as it was written, with any gap around it and any text behind the stop.
-/

namespace CodeQuality

namespace Text

/-! ## The first of several stops -/

/-- None of the stops begins in `head` when `rest` stands behind it. -/
def FreeOf (stops : List (List Char)) : List Char → List Char → Prop
  | [], _ => True
  | c :: head, rest => (∀ stop ∈ stops, ¬ stop <+: c :: (head ++ rest)) ∧ FreeOf stops head rest

section Stops

variable {stops : List (List Char)} {head rest : List Char}

theorem freeOf_append {first second : List Char} :
    FreeOf stops (first ++ second) rest ↔
      FreeOf stops first (second ++ rest) ∧ FreeOf stops second rest := by
  induction first with
  | nil => simp [FreeOf]
  | cons c first ih => simp only [List.cons_append, FreeOf, ih, List.append_assoc, and_assoc]

/-- No stop begins in a text that holds the first character of none. -/
theorem freeOf_of_first_notMem (h : ∀ stop ∈ stops, ∃ c ∈ stop.head?, c ∉ head)
    (rest : List Char) : FreeOf stops head rest := by
  induction head with
  | nil => trivial
  | cons d head ih =>
    refine ⟨?_, ?_⟩
    · rintro stop hstop ⟨tail, htail⟩
      obtain ⟨c, hc, hnot⟩ := h stop hstop
      obtain ⟨more, rfl⟩ := List.head?_eq_some_iff.mp hc
      obtain ⟨rfl, -⟩ := List.cons.inj htail
      exact hnot List.mem_cons_self
    · apply ih
      intro stop hstop
      obtain ⟨c, hc, hnot⟩ := h stop hstop
      exact ⟨c, hc, fun hmem => hnot (List.mem_cons_of_mem d hmem)⟩

/-- No stop begins in a text that holds none, unless the text behind it goes on with a later
character of a stop. -/
theorem freeOf_of_not_isInfix (hhead : ∀ stop ∈ stops, ¬ stop <:+: head)
    (hrest : ∀ stop ∈ stops, ∀ c ∈ rest.head?, c ∉ stop.tail) : FreeOf stops head rest := by
  induction head with
  | nil => trivial
  | cons d head ih =>
    refine ⟨?_, ih fun stop hstop hin => hhead stop hstop (List.infix_cons hin)⟩
    rintro stop hstop ⟨tail, htail⟩
    rw [← List.cons_append, List.append_eq_append_iff] at htail
    rcases htail with ⟨more, hmore, -⟩ | ⟨more, rfl, hbehind⟩
    · exact hhead stop hstop ⟨[], more, by simpa using hmore.symm⟩
    · -- The stop begins in the text and goes on behind it.
      cases more with
      | nil => exact hhead _ hstop ⟨[], [], by simp⟩
      | cons c more => exact hrest _ hstop c (by simp [hbehind]) (by simp)

/-- A search passes over a text that no stop begins in. -/
theorem findFrom_of_freeOf (h : FreeOf stops head rest) {stop : List Char} (hstop : stop ∈ stops)
    (offset : Nat) :
    findFrom stop offset (head ++ rest) = findFrom stop (offset + byteLength head) rest := by
  induction head generalizing offset with
  | nil => rfl
  | cons c head ih =>
    have hnot : ¬ stop.isPrefixOf (c :: (head ++ rest)) = true := by
      rw [List.isPrefixOf_iff_prefix]
      exact h.1 stop hstop
    rw [List.cons_append, findFrom, if_neg hnot, ih h.2, byteLength_cons, Nat.add_assoc]

/-- Behind a text that no stop begins in, a stop that stands there is the first one. -/
theorem firstOf_of_freeOf (h : FreeOf stops head rest) (hstop : ∃ stop ∈ stops, stop <+: rest) :
    firstOf stops (head ++ rest) = byteLength head := by
  have hfind {stop : List Char} (hstop : stop ∈ stops) :
      find? stop (head ++ rest) = findFrom stop (byteLength head) rest := by
    rw [find?, findFrom_of_freeOf h hstop, Nat.zero_add]
  have hmin : (stops.filterMap fun stop => find? stop (head ++ rest)).min? =
      some (byteLength head) := by
    rw [List.min?_eq_some_iff]
    constructor
    · obtain ⟨stop, hmem, tail, rfl⟩ := hstop
      obtain ⟨found, hle, hfound⟩ := exists_findFrom_le stop (byteLength head) [] tail
      rw [List.nil_append] at hfound
      obtain ⟨skipped, -, -, hskipped⟩ := exists_append_of_findFrom hfound
      have heq : found = byteLength head := by
        simp only [byteLength_nil] at hle
        omega
      exact List.mem_filterMap.mpr ⟨stop, hmem, by rw [hfind hmem, hfound, heq]⟩
    · intro found hfound
      obtain ⟨stop, hmem, hstop⟩ := List.mem_filterMap.mp hfound
      rw [hfind hmem] at hstop
      obtain ⟨skipped, -, -, hskipped⟩ := exists_append_of_findFrom hstop
      omega
  rw [firstOf, hmin, Option.getD_some]

/-- A text that no stop begins in is read to its end. -/
theorem firstOf_of_freeOf_nil (h : FreeOf stops head []) (hstops : [] ∉ stops) :
    firstOf stops head = byteLength head := by
  have hnone : (stops.filterMap fun stop => find? stop head) = [] := by
    rw [List.filterMap_eq_nil_iff]
    intro stop hstop
    have hne : stop ≠ [] := fun heq => hstops (heq ▸ hstop)
    have hfind := findFrom_of_freeOf h hstop 0
    rw [List.append_nil] at hfind
    rw [find?, hfind, findFrom, if_neg (by simpa using hne)]
  rw [firstOf, hnone, List.min?_nil, Option.getD_none]

end Stops

end Text

namespace Signature

open Text

section Before

variable {stops : List (List Char)} {head rest : List Char}

theorem textBefore_of_freeOf (h : FreeOf stops head rest) (hstop : ∃ stop ∈ stops, stop <+: rest) :
    textBefore stops (head ++ rest) = trim head := by
  rw [textBefore, firstOf_of_freeOf h hstop, takeBytes_append]

theorem textBefore_of_freeOf_nil (h : FreeOf stops head []) (hstops : [] ∉ stops) :
    textBefore stops head = trim head := by
  have htake := takeBytes_append head []
  rw [List.append_nil] at htake
  rw [textBefore, firstOf_of_freeOf_nil h hstops, htake]

end Before

/-! ## Types behind the parameters -/

/-- What ends a type behind a colon. -/
def colonStops : List (List Char) := [['{'], ['=', '>'], [';'], ['\n']]

/-- What ends a type right behind the parameters. -/
def bareStops : List (List Char) := [['{'], ['\n']]

/-- What ends a type behind an arrow. -/
def arrowStops : List (List Char) := [[':', '\n'], [':', '\r'], [':', ' '], ['\n']]

/-- A gap is made of spaces and tabs. -/
def IsGap (gap : List Char) : Prop :=
  gap ⊆ [' ', '\t']

section Gaps

variable {gap : List Char} (hgap : IsGap gap)
include hgap

theorem IsGap.isBlank : ∀ c ∈ gap, isBlank c = true := by
  intro c hc
  rcases List.mem_pair.mp (hgap hc) with rfl | rfl <;> rfl

/-- No stop begins in a gap. -/
theorem IsGap.freeOf {stops : List (List Char)}
    (hstops : ∀ stop ∈ stops, ∃ c ∈ stop.head?, c ∉ [' ', '\t']) (rest : List Char) :
    FreeOf stops gap rest := by
  refine freeOf_of_first_notMem (fun stop hstop => ?_) rest
  obtain ⟨c, hc, hnot⟩ := hstops stop hstop
  exact ⟨c, hc, fun hmem => hnot (hgap hmem)⟩

/-- A gap in front of another character is dropped. -/
theorem IsGap.dropWhile_append {text : List Char} (htext : ∀ c ∈ text.head?, c ∉ [' ', '\t']) :
    (gap ++ text).dropWhile (fun c => c == ' ' || c == '\t') = text := by
  rw [List.dropWhile_append_of_pos]
  · cases text with
    | nil => rfl
    | cons c text => exact List.dropWhile_cons_of_neg (by simpa using htext c rfl)
  · intro c hc
    simpa using hgap hc

end Gaps

section Suffix

variable {type u v w : List Char} (hfirst : ∀ c ∈ type.head?, isBlank c = false)
  (hlast : ∀ c ∈ type.getLast?, isBlank c = false) (leading : Option (List Char))
  (hu : IsGap u) (hv : IsGap v) (hw : IsGap w) (z : List Char)

include hfirst hlast hv hw in
/-- A type with gaps around it is what stands before a stop, if it holds none, gaps begin no stop,
and a stop goes on with neither a gap nor the first character of a stop. -/
theorem textBefore_type {stops : List (List Char)}
    (hbegin : ∀ stop ∈ stops, ∃ c ∈ stop.head?, c ∉ [' ', '\t'])
    (hlater : ∀ stop ∈ stops, ∀ c ∈ stop.tail,
      c ∉ [' ', '\t'] ∧ ∀ other ∈ stops, other.head? ≠ some c)
    (htype : ∀ stop ∈ stops, ¬ stop <:+: type) {stop : List Char} (hstop : stop ∈ stops) :
    textBefore stops (v ++ type ++ w ++ stop ++ z) = type := by
  have hrest : ∀ other ∈ stops, ∀ c ∈ (w ++ (stop ++ z)).head?, c ∉ other.tail := by
    intro other hother c hc hmem
    obtain ⟨hgap, hnot⟩ := hlater other hother c hmem
    cases w with
    | nil =>
      obtain ⟨d, hd, -⟩ := hbegin stop hstop
      obtain ⟨more, rfl⟩ := List.head?_eq_some_iff.mp hd
      exact hnot _ hstop (by simpa using hc)
    | cons d w =>
      obtain rfl : d = c := by simpa using hc
      exact hgap (hw List.mem_cons_self)
  have hfree : FreeOf stops (v ++ (type ++ w)) (stop ++ z) := by
    rw [freeOf_append, freeOf_append]
    exact ⟨hv.freeOf hbegin _, freeOf_of_not_isInfix htype hrest, hw.freeOf hbegin _⟩
  have htext : v ++ type ++ w ++ stop ++ z = v ++ (type ++ w) ++ (stop ++ z) := by simp
  rw [htext, textBefore_of_freeOf hfree ⟨stop, hstop, List.prefix_append stop z⟩,
    trim_append_left hv.isBlank, trim_append_right hw.isBlank, trim_eq_self hfirst hlast]

include hu in
/-- Behind a colon the type is what stands before the first stop. -/
theorem returnType_colon_eq (rest : List Char) :
    returnType .colon leading (u ++ ':' :: rest) = textBefore colonStops rest := by
  rw [returnType, hu.dropWhile_append (by simp)]
  rfl

include hu in
/-- Behind an arrow the type is what stands before the first stop, without colons at its end. -/
theorem returnType_arrow_eq (rest : List Char) :
    returnType .arrow leading (u ++ '-' :: '>' :: rest) =
      trim (dropTrailing (· == ':') (textBefore arrowStops rest)) := by
  rw [returnType, hu.dropWhile_append (by simp)]
  rfl

include hfirst hlast hu hv hw in
theorem returnType_colon (htype : ∀ stop ∈ colonStops, ¬ stop <:+: type) {stop : List Char}
    (hstop : stop ∈ colonStops) :
    returnType .colon leading (u ++ ':' :: (v ++ type ++ w ++ stop ++ z)) = type := by
  rw [returnType_colon_eq leading hu]
  exact textBefore_type hfirst hlast hv hw z (by simp [colonStops]) (by simp [colonStops]) htype
    hstop

include hu in
/-- Right behind the parameters and a gap the type is what stands before the first stop. -/
theorem returnType_bare_eq {rest : List Char} (hrest : ∀ c ∈ rest.head?, c ∉ [' ', '\t']) :
    returnType .bare leading (u ++ rest) = textBefore bareStops rest := by
  rw [returnType, hu.dropWhile_append hrest]
  rfl

include hfirst hlast hu hw in
theorem returnType_bare (htype : ∀ stop ∈ bareStops, ¬ stop <:+: type) {stop : List Char}
    (hstop : stop ∈ bareStops) :
    returnType .bare leading (u ++ type ++ w ++ stop ++ z) = type := by
  have hnone : IsGap [] := List.nil_subset _
  have hread (w : List Char) (hw : IsGap w) :
      textBefore bareStops ([] ++ type ++ w ++ stop ++ z) = type :=
    textBefore_type hfirst hlast hnone hw z (by simp [bareStops]) (by simp [bareStops]) htype hstop
  cases type with
  | nil =>
    -- Without a type the gaps before and behind it are one.
    have hgap : IsGap (u ++ w) := List.append_subset.mpr ⟨hu, hw⟩
    have hstart : ∀ c ∈ (stop ++ z).head?, c ∉ [' ', '\t'] := by
      simp only [bareStops, List.mem_cons, List.not_mem_nil, or_false] at hstop
      rcases hstop with rfl | rfl <;> simp
    have htext : u ++ [] ++ w ++ stop ++ z = u ++ w ++ (stop ++ z) := by simp
    rw [htext, returnType_bare_eq leading hgap hstart]
    exact hread [] hnone
  | cons c type =>
    have hblank : isBlank c = false := hfirst c rfl
    have hstart : ∀ d ∈ (c :: type ++ w ++ stop ++ z).head?, d ∉ [' ', '\t'] := by
      intro d hd hgap
      obtain rfl : c = d := by simpa using hd
      rcases List.mem_pair.mp hgap with rfl | rfl <;> exact Bool.noConfusion hblank
    have htext : u ++ c :: type ++ w ++ stop ++ z = u ++ (c :: type ++ w ++ stop ++ z) := by simp
    rw [htext, returnType_bare_eq leading hu hstart]
    exact hread w hw

/-- Colons are dropped from the end of a text only. -/
theorem dropTrailing_colon (hcolon : type.getLast? ≠ some ':') :
    dropTrailing (· == ':') type = type ∧ dropTrailing (· == ':') (type ++ [':']) = type := by
  have hkept : type.reverse.dropWhile (· == ':') = type.reverse := by
    cases hreverse : type.reverse with
    | nil => rfl
    | cons c rest =>
      have hc : type.getLast? = some c := by
        rw [← List.head?_reverse, hreverse, List.head?_cons]
      have hne : c ≠ ':' := fun heq => hcolon (heq ▸ hc)
      exact List.dropWhile_cons_of_neg (by simpa using hne)
  constructor
  · rw [dropTrailing, hkept, List.reverse_reverse]
  · rw [dropTrailing, List.reverse_append, List.reverse_singleton, List.singleton_append,
      List.dropWhile_cons_of_pos (by simp), hkept, List.reverse_reverse]

section Arrow

variable (htype : ∀ stop ∈ arrowStops, ¬ stop <:+: type)

include hv htype in
/-- No stop of an arrow begins in a type that a colon follows. -/
theorem freeOf_arrowStops (rest : List Char) :
    FreeOf arrowStops (v ++ type) (':' :: rest) := by
  rw [freeOf_append]
  exact ⟨hv.freeOf (by simp [arrowStops]) _,
    freeOf_of_not_isInfix htype (by simp [arrowStops])⟩

variable (hcolon : type.getLast? ≠ some ':')
include hfirst hlast hu hv htype hcolon

theorem returnType_arrow {c : Char} (hc : c ∈ [' ', '\r', '\n']) :
    returnType .arrow leading (u ++ ['-', '>'] ++ v ++ type ++ ':' :: c :: z) = type := by
  have hstop : ∃ stop ∈ arrowStops, stop <+: ':' :: c :: z := by
    refine ⟨[':', c], ?_, z, rfl⟩
    simp only [List.mem_cons, List.not_mem_nil, or_false] at hc
    rcases hc with rfl | rfl | rfl <;> simp [arrowStops]
  have htext : u ++ ['-', '>'] ++ v ++ type ++ ':' :: c :: z =
      u ++ '-' :: '>' :: (v ++ type ++ ':' :: c :: z) := by simp
  rw [htext, returnType_arrow_eq leading hu,
    textBefore_of_freeOf (freeOf_arrowStops hv htype (c :: z)) hstop, trim_append_left hv.isBlank,
    trim_eq_self hfirst hlast, (dropTrailing_colon hcolon).1, trim_eq_self hfirst hlast]

/-- A colon that ends the text is not part of the type. -/
theorem returnType_arrow_end :
    returnType .arrow leading (u ++ ['-', '>'] ++ v ++ type ++ [':']) = type := by
  have hfree : FreeOf arrowStops (v ++ type ++ [':']) [] := by
    rw [freeOf_append]
    exact ⟨freeOf_arrowStops hv htype [], by simp [FreeOf, arrowStops]⟩
  have htrim : trim (type ++ [':']) = type ++ [':'] := by
    refine trim_eq_self (fun c hc => ?_) (fun c hc => ?_)
    · cases type with
      | nil =>
        obtain rfl : ':' = c := by simpa using hc
        rfl
      | cons d type => exact hfirst c hc
    · obtain rfl : ':' = c := by simpa using hc
      rfl
  have htext : u ++ ['-', '>'] ++ v ++ type ++ [':'] =
      u ++ '-' :: '>' :: (v ++ type ++ [':']) := by simp
  rw [htext, returnType_arrow_eq leading hu, textBefore_of_freeOf_nil hfree (by simp [arrowStops]),
    List.append_assoc, trim_append_left hv.isBlank, htrim, (dropTrailing_colon hcolon).2,
    trim_eq_self hfirst hlast]

end Arrow

end Suffix

/-- A type behind the parameters is read back as it was written, whatever was captured before the
name and whatever follows. Behind a colon or right behind the parameters it may have gaps around it
and ends at any stop that it does not hold. Behind an arrow it ends at a colon that is followed by
a blank or by nothing, if it does not hold such a colon itself and does not end with one. -/
theorem returnType_read_back {type : List Char} (hfirst : ∀ c ∈ type.head?, isBlank c = false)
    (hlast : ∀ c ∈ type.getLast?, isBlank c = false) (leading : Option (List Char))
    {u v w : List Char} (hu : IsGap u) (hv : IsGap v) (hw : IsGap w) (z : List Char) :
    ((∀ stop ∈ colonStops, ¬ stop <:+: type) → ∀ stop ∈ colonStops,
      returnType .colon leading (u ++ ':' :: (v ++ type ++ w ++ stop ++ z)) = type) ∧
    ((∀ stop ∈ bareStops, ¬ stop <:+: type) → ∀ stop ∈ bareStops,
      returnType .bare leading (u ++ type ++ w ++ stop ++ z) = type) ∧
    ((∀ stop ∈ arrowStops, ¬ stop <:+: type) → type.getLast? ≠ some ':' →
      (∀ c ∈ [' ', '\r', '\n'],
        returnType .arrow leading (u ++ ['-', '>'] ++ v ++ type ++ ':' :: c :: z) = type) ∧
      returnType .arrow leading (u ++ ['-', '>'] ++ v ++ type ++ [':']) = type) := by
  refine ⟨?_, ?_, ?_⟩
  · intro htype stop hstop
    exact returnType_colon hfirst hlast leading hu hv hw z htype hstop
  · intro htype stop hstop
    exact returnType_bare hfirst hlast leading hu hw z htype hstop
  · intro htype hcolon
    refine ⟨fun c hc => ?_, ?_⟩
    · exact returnType_arrow hfirst hlast leading hu hv z htype hcolon hc
    · exact returnType_arrow_end hfirst hlast leading hu hv htype hcolon

/-- A type that ends with the first character of the arrow right behind it, one with brackets, and
one with a colon that is followed by another letter. -/
theorem returnType_read_back_nested :
    returnType .colon none " : A==>x => y".toList = ['A', '='] ∧
      returnType .bare none " (int)\t\x7b return \x7d".toList = ['(', 'i', 'n', 't', ')'] ∧
      returnType .arrow none " -> D[a:b]:\n  pass: x".toList = ['D', '[', 'a', ':', 'b', ']'] := by
  have hgap : IsGap [' '] := by simp [IsGap]
  have htab : IsGap ['\t'] := by simp [IsGap]
  have hnone : IsGap [] := List.nil_subset _
  have hcolon : returnType .colon none
      ([' '] ++ ':' :: ([' '] ++ ['A', '='] ++ [] ++ ['=', '>'] ++ "x => y".toList)) = ['A', '='] :=
    (returnType_read_back (by simp; rfl) (by simp; rfl) none hgap hgap hnone _).1 (by decide) _
      (by decide)
  have hbare : returnType .bare none
      ([' '] ++ ['(', 'i', 'n', 't', ')'] ++ ['\t'] ++ ['{'] ++ " return \x7d".toList) =
        ['(', 'i', 'n', 't', ')'] :=
    (returnType_read_back (by simp; rfl) (by simp; rfl) none hgap hnone htab _).2.1 (by decide) _
      (by decide)
  have harrow : returnType .arrow none
      ([' '] ++ ['-', '>'] ++ [' '] ++ ['D', '[', 'a', ':', 'b', ']'] ++
        ':' :: '\n' :: "  pass: x".toList) = ['D', '[', 'a', ':', 'b', ']'] :=
    ((returnType_read_back (by simp; rfl) (by simp; rfl) none hgap hgap hnone _).2.2 (by decide)
      (by decide)).1 _ (by simp)
  exact ⟨by simpa using hcolon, by simpa using hbare, by simpa using harrow⟩

end Signature

end CodeQuality
