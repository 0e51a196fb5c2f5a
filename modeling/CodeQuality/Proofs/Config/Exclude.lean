import CodeQuality.Config.Basic
import CodeQuality.Proofs.Text.Search
import Mathlib.Data.List.Infix

/-!
# Placements of an exclude pattern

A pattern excludes a path when its segments can be placed in the path in order and without overlap.
The search for them never goes back: it takes every segment at its first occurrence. This loses
no placement, because an earlier occurrence leaves more of the path to the segments behind it, and
a placement in a text is one in every longer text that ends with it.
-/

namespace CodeQuality

open Text

namespace ExcludePattern

/-- The pieces of a text between the occurrences of a mark. -/
structure IsCut (mark : Char) (text : List Char) (pieces : List (List Char)) : Prop where
  /-- A text without the mark is one piece. -/
  ne_nil : pieces ≠ []
  /-- No piece holds the mark. -/
  free : ∀ piece ∈ pieces, mark ∉ piece
  /-- With a mark between every two of them the pieces are the text. -/
  joined : [mark].intercalate pieces = text

/-- The segments stand in the text in order and without overlap, with a gap before each of them
and a rest behind the last. -/
def Placed (segments : List (List Char)) (text : List Char) : Prop :=
  ∃ (gaps : List (List Char)) (rest : List Char), gaps.length = segments.length ∧
    text = (List.zipWith (· ++ ·) gaps segments).flatten ++ rest

/-! ## Pieces -/

/-- Splitting a text at a mark leaves no mark in the pieces. -/
theorem not_mem_of_mem_splitOn {mark : Char} {text piece : List Char}
    (h : piece ∈ text.splitOn mark) : mark ∉ piece := by
  induction text generalizing piece with
  | nil =>
    obtain rfl : piece = [] := by simpa using h
    exact List.not_mem_nil
  | cons c rest ih =>
    rw [List.splitOn_cons_eq_if_modifyHead] at h
    split at h
    · rcases List.mem_cons.mp h with rfl | hrest
      · exact List.not_mem_nil
      · exact ih hrest
    · rename_i hc
      -- Another character goes in front of the first piece.
      cases hsplit : rest.splitOn mark with
      | nil => exact absurd hsplit (List.splitOn_ne_nil mark rest)
      | cons first others =>
        rw [hsplit, List.modifyHead_cons, List.mem_cons] at h
        rcases h with rfl | hothers
        · have hfirst : mark ∉ first := ih (by simp [hsplit])
          have hne : mark ≠ c := fun heq => hc (by simp [heq])
          simp [hne, hfirst]
        · exact ih (by simp [hsplit, hothers])

/-- A text is cut at a mark in one way only, the one that splitting gives. -/
theorem isCut_iff {mark : Char} {text : List Char} {pieces : List (List Char)} :
    IsCut mark text pieces ↔ pieces = text.splitOn mark := by
  constructor
  · intro h
    rw [← h.joined, List.splitOn_intercalate mark h.free h.ne_nil]
  · rintro rfl
    exact ⟨List.splitOn_ne_nil mark text, fun _ => not_mem_of_mem_splitOn,
      List.intercalate_splitOn mark⟩

/-! ## Placements -/

@[simp] theorem placed_nil (text : List Char) : Placed [] text :=
  ⟨[], text, rfl, rfl⟩

/-- The first segment of a placement is followed by a placement of the others. -/
theorem placed_cons {segment : List Char} {more : List (List Char)} {text : List Char} :
    Placed (segment :: more) text ↔
      ∃ gap rest, text = gap ++ (segment ++ rest) ∧ Placed more rest := by
  constructor
  · rintro ⟨gaps, rest, hlength, rfl⟩
    cases gaps with
    | nil => simp at hlength
    | cons gap gaps => exact ⟨gap, _, by simp, gaps, rest, by simpa using hlength, rfl⟩
  · rintro ⟨gap, _, rfl, gaps, rest, hlength, rfl⟩
    exact ⟨gap :: gaps, rest, by simpa using hlength, by simp⟩

/-- A text in front leaves a placement in place. -/
theorem Placed.append_left {segments : List (List Char)} {text : List Char}
    (h : Placed segments text) (front : List Char) : Placed segments (front ++ text) := by
  cases segments with
  | nil => exact placed_nil _
  | cons segment more =>
    obtain ⟨gap, rest, rfl, hrest⟩ := placed_cons.mp h
    exact placed_cons.mpr ⟨front ++ gap, rest, by simp, hrest⟩

/-- Of two occurrences of a needle, the earlier one leaves a rest that ends with the rest of the
later one. -/
theorem suffix_of_le_occurrence {needle head tail head' tail' : List Char}
    (htext : head ++ (needle ++ tail) = head' ++ (needle ++ tail'))
    (hle : byteLength head ≤ byteLength head') : tail' <:+ tail := by
  have hbytes := congrArg byteLength htext
  simp only [byteLength_append] at hbytes
  have htail : tail <:+ head ++ (needle ++ tail) := ⟨head ++ needle, by simp⟩
  have htail' : tail' <:+ head ++ (needle ++ tail) := ⟨head' ++ needle, by simp [htext]⟩
  rcases Nat.le_total tail'.length tail.length with hshort | hlong
  · exact List.suffix_of_suffix_length_le htail' htail hshort
  · -- The later rest has no more bytes, so it is not the longer one.
    obtain ⟨more, rfl⟩ := List.suffix_of_suffix_length_le htail htail' hlong
    rw [byteLength_append] at hbytes
    obtain rfl : more = [] := eq_nil_of_byteLength_eq_zero (by omega)
    exact List.suffix_rfl

/-- Behind a segment that was found the search goes on in the rest. -/
theorem holdsInOrder_cons {segment head tail : List Char} (more : List (List Char))
    (h : find? segment (head ++ (segment ++ tail)) = some (byteLength head)) :
    holdsInOrder (segment :: more) (head ++ (segment ++ tail)) = holdsInOrder more tail := by
  rw [holdsInOrder, h]
  simp only
  rw [← byteLength_append, ← List.append_assoc, dropBytes_append]

/-- Taking every segment at its first occurrence finds a placement when there is one. -/
theorem holdsInOrder_iff (segments : List (List Char)) (text : List Char) :
    holdsInOrder segments text = true ↔ Placed segments text := by
  induction segments generalizing text with
  | nil => simp [holdsInOrder]
  | cons segment more ih =>
    rw [placed_cons]
    constructor
    · intro h
      cases hfind : find? segment text with
      | none => simp [holdsInOrder, hfind] at h
      | some found =>
        obtain ⟨head, tail, rfl, hfound⟩ := exists_append_of_findFrom hfind
        rw [hfound, Nat.zero_add] at hfind
        rw [holdsInOrder_cons more hfind] at h
        exact ⟨head, tail, rfl, (ih tail).mp h⟩
    · rintro ⟨gap, rest, rfl, hrest⟩
      obtain ⟨found, hle, hfind⟩ := exists_findFrom_le segment 0 gap rest
      obtain ⟨head, tail, htext, rfl⟩ := exists_append_of_findFrom hfind
      obtain ⟨front, rfl⟩ := suffix_of_le_occurrence htext.symm (by omega)
      rw [htext, Nat.zero_add] at hfind
      rw [htext, holdsInOrder_cons more hfind, ih]
      exact hrest.append_left front

/-- A path is rooted by a slash in front of it unless it begins with one. -/
theorem rooted_eq (path : Path) :
    rooted path = if (normalize path).head? = some '/' then normalize path
      else '/' :: normalize path := by
  rw [rooted]
  split
  · rename_i rest hrest
    simp [hrest]
  · rename_i hslash
    rw [if_neg]
    intro hhead
    obtain ⟨rest, hrest⟩ := List.head?_eq_some_iff.mp hhead
    exact hslash rest hrest

/-- A pattern excludes a path exactly when it has a segment and its segments, the pieces between
its stars that are not empty, can be placed in the path. In both texts slashes stand for
backslashes, and the path begins with a slash, its own or one put in front of it. -/
theorem excludes_iff_placed (raw : String) :
    let slashed (text : String) := text.toList.map fun c => if c = '\\' then '/' else c
    (∃ pieces, IsCut '*' (slashed raw) pieces) ∧
    ∀ pieces, IsCut '*' (slashed raw) pieces → ∀ path : Path,
      let segments := pieces.filter (· ≠ [])
      let host := if (slashed path).head? = some '/' then slashed path else '/' :: slashed path
      (ofText raw).excludes path = true ↔ segments ≠ [] ∧ Placed segments host := by
  intro slashed
  have hslashed (text : String) : normalize text = slashed text := by
    simp [normalize, slashed]
  refine ⟨⟨_, isCut_iff.mpr rfl⟩, ?_⟩
  intro pieces hpieces path segments host
  have hsegments : (ofText raw).segments = segments := by
    simp only [ofText, hslashed, segments, isCut_iff.mp hpieces]
    congr 1
    funext piece
    cases piece <;> rfl
  have hhost : rooted path = host := by
    simp only [rooted_eq, hslashed, host]
  rw [excludes, hsegments, hhost, Bool.and_eq_true, holdsInOrder_iff]
  simp

/-- A pattern whose middle segment begins within its first one, on a path that holds the two only
behind each other, and on one where they would have to overlap. -/
theorem excludes_iff_placed_overlap :
    (ofText "**\\aba*ab*c").excludes "aba/ab.c" = true ∧
      ¬ Placed ["/aba".toList, "ab".toList, "c".toList] "/aba/b.c".toList := by
  have hcut : IsCut '*' "**/aba*ab*c".toList [[], [], "/aba".toList, "ab".toList, "c".toList] :=
    ⟨by decide, by decide, by decide⟩
  have hexcludes := (excludes_iff_placed "**\\aba*ab*c").2 _ hcut
  refine ⟨(hexcludes "aba/ab.c").mpr ⟨by decide, [[], ['/'], ['.']], [], by decide, by decide⟩, ?_⟩
  intro hplaced
  exact absurd ((hexcludes "aba/b.c").mpr ⟨by decide, hplaced⟩) (by decide)

end ExcludePattern

end CodeQuality
