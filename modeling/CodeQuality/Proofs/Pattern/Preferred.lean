import CodeQuality.Pattern.Build
import CodeQuality.Proofs.Pattern.Search

/-!
# The preferred end of a match

A search ends each match at the first end that its pattern lists. Where the text goes on as said,
that end is found part by part: a run reads as far as it can, a reluctant run stops at the first
place from which the rest of the pattern matches, and a pattern that asks for its surroundings
stays in place.
-/

namespace CodeQuality

open Text

namespace Cursor

/-- The place behind `read`, where the text goes on with `rest`. -/
def beyond (cursor : Cursor) (read rest : List Char) : Cursor where
  before := read.getLast?.or cursor.before
  rest := rest
  offset := cursor.offset + byteLength read
  groups := cursor.groups

/-- The place with the stretch from `start` on recorded. -/
def record (cursor : Cursor) (label : Label) (start : Nat) : Cursor :=
  { cursor with groups := (label, ⟨start, cursor.offset⟩) :: cursor.groups }

variable {cursor : Cursor} {accepts : Char → Bool} {read rest : List Char}

theorem beyond_nil (h : cursor.rest = rest) : cursor.beyond [] rest = cursor := by
  subst h
  rfl

theorem beyond_beyond (cursor : Cursor) (first second between rest : List Char) :
    (cursor.beyond first between).beyond second rest = cursor.beyond (first ++ second) rest := by
  simp only [beyond, byteLength_append, Nat.add_assoc, List.getLast?_append, Option.or_assoc]

theorem past_beyond (cursor : Cursor) (c : Char) (between read rest : List Char) :
    (cursor.past c between).beyond read rest = cursor.beyond (c :: read) rest := by
  simp only [beyond, past, byteLength_cons, Nat.add_assoc, List.getLast?_cons]
  cases read.getLast? <;> rfl

theorem Behind.beyond {head : List Char} (h : cursor.Behind head) (read rest : List Char) :
    (cursor.beyond read rest).Behind (head ++ read) where
  offset_eq := by rw [Cursor.beyond, h.offset_eq, byteLength_append]
  before_eq := by rw [Cursor.beyond, h.before_eq, List.getLast?_append]

theorem Behind.record {head : List Char} (h : cursor.Behind head) (label : Label) (start : Nat) :
    (cursor.record label start).Behind head :=
  ⟨h.offset_eq, h.before_eq⟩

/-- Characters that stand at the place are skipped. -/
theorem skip?_eq_beyond {chars : List Char} (h : cursor.rest = chars ++ rest) :
    cursor.skip? chars = some (cursor.beyond chars rest) := by
  induction chars generalizing cursor with
  | nil =>
    rw [List.nil_append] at h
    rw [skip?, beyond_nil h]
  | cons c chars ih =>
    rw [skip?, h, List.cons_append]
    simp only [if_true]
    rw [ih rfl, past_beyond]

/-- The furthest place is behind all accepted characters. -/
theorem head?_reach (hread : ∀ c ∈ read, accepts c = true)
    (hrest : ∀ c ∈ rest.head?, accepts c = false) (h : cursor.rest = read ++ rest)
    (nearer : List Cursor) :
    (reach accepts (read ++ rest) cursor nearer).head? = some (cursor.beyond read rest) := by
  induction read generalizing cursor nearer with
  | nil =>
    rw [List.nil_append] at h ⊢
    rw [beyond_nil h]
    cases rest with
    | nil => rfl
    | cons c rest =>
      have hc : accepts c = false := hrest c rfl
      simp [reach, hc]
  | cons c read ih =>
    obtain ⟨hc, hread⟩ := List.forall_mem_cons.mp hread
    rw [List.cons_append, reach, if_pos hc, ih hread rfl, past_beyond]

theorem reach_eq_append (accepts : Char → Bool) (text : List Char) (cursor : Cursor)
    (nearer : List Cursor) :
    reach accepts text cursor nearer = reach accepts text cursor [] ++ nearer := by
  induction text generalizing cursor nearer with
  | nil => rfl
  | cons c rest ih =>
    simp only [reach]
    split
    · rw [ih, ih _ [cursor], List.append_assoc]
      rfl
    · rfl

end Cursor

namespace Pattern

/-- The preferred end of a match that begins at the cursor. -/
def preferred? (pattern : Pattern) (cursor : Cursor) : Option Cursor :=
  (pattern.ends cursor).head?

variable {first second body : Pattern} {accepts : Char → Bool} {cursor next final : Cursor}
  {read rest : List Char}

theorem preferred?_seq_eq (first second : Pattern) (cursor : Cursor) :
    (seq first second).preferred? cursor = (first.ends cursor).findSome? second.preferred? := by
  rw [preferred?, ends, List.head?_flatMap]
  rfl

/-- Where the preferred end of the first part leads on, it is kept. -/
theorem preferred?_seq (hfirst : first.preferred? cursor = some next)
    (hsecond : second.preferred? next = some final) :
    (seq first second).preferred? cursor = some final := by
  obtain ⟨others, hends⟩ := List.head?_eq_some_iff.mp hfirst
  rw [preferred?_seq_eq, hends, List.findSome?_cons, hsecond]

/-- The preferred end of two parts is one of the second part, from some end of the first. -/
theorem exists_of_preferred?_seq (h : (seq first second).preferred? cursor = some final) :
    ∃ next ∈ first.ends cursor, second.preferred? next = some final := by
  rw [preferred?_seq_eq] at h
  exact List.exists_of_findSome?_eq_some h

theorem preferred?_literal {chars : List Char} (h : cursor.rest = chars ++ rest) :
    (literal chars).preferred? cursor = some (cursor.beyond chars rest) := by
  rw [preferred?, ends, Cursor.skip?_eq_beyond h]
  rfl

theorem preferred?_one {c : Char} (hc : accepts c = true) (h : cursor.rest = c :: rest) :
    (one accepts).preferred? cursor = some (cursor.beyond [c] rest) := by
  simp [preferred?, ends, h, hc, Cursor.past, Cursor.beyond]

theorem preferred?_run (hread : ∀ c ∈ read, accepts c = true)
    (hrest : ∀ c ∈ rest.head?, accepts c = false) (h : cursor.rest = read ++ rest) :
    (run accepts).preferred? cursor = some (cursor.beyond read rest) := by
  rw [preferred?, ends, h, Cursor.head?_reach hread hrest h]

theorem preferred?_group (label : Label) (h : body.preferred? cursor = some next) :
    (group label body).preferred? cursor = some (next.record label cursor.offset) := by
  obtain ⟨others, hends⟩ := List.head?_eq_some_iff.mp h
  rw [preferred?, ends, hends]
  rfl

theorem preferred?_opt (h : body.preferred? cursor = some next) :
    (opt body).preferred? cursor = some next := by
  obtain ⟨others, hends⟩ := List.head?_eq_some_iff.mp h
  rw [preferred?, ends, hends]
  rfl

theorem preferred?_opt_of_ends_eq_nil (h : body.ends cursor = []) :
    (opt body).preferred? cursor = some cursor := by
  rw [preferred?, ends, h]
  rfl

/-- A first character and a run behind it are read as far as the run goes. -/
theorem preferred?_one_run {later : Char → Bool} {c : Char} (hc : accepts c = true)
    (hread : ∀ d ∈ read, later d = true) (hrest : ∀ d ∈ rest.head?, later d = false)
    (h : cursor.rest = c :: read ++ rest) :
    (seq (one accepts) (run later)).preferred? cursor = some (cursor.beyond (c :: read) rest) := by
  rw [← List.singleton_append, ← Cursor.beyond_beyond cursor [c] read (read ++ rest)]
  exact preferred?_seq (preferred?_one hc h) (preferred?_run hread hrest rfl)

/-- A reluctant run lists the place where it begins first. -/
theorem ends_fewest (accepts : Char → Bool) (cursor : Cursor) :
    (fewest accepts).ends cursor = cursor ::
      match cursor.rest with
      | [] => []
      | c :: rest => if accepts c then (fewest accepts).ends (cursor.past c rest) else [] := by
  cases hrest : cursor.rest with
  | nil => simp [ends, hrest, Cursor.reach]
  | cons c rest =>
    simp only [ends, hrest, Cursor.reach, Cursor.past]
    split
    · rw [Cursor.reach_eq_append, List.reverse_append]
      rfl
    · rfl

/-- A reluctant run goes on up to the first place that leads on. -/
theorem findSome?_ends_fewest {α : Type} {accepts : Char → Bool} {lead : Cursor → Option α}
    {found : α} {cursor : Cursor} {read rest : List Char} (h : cursor.rest = read ++ rest)
    (hread : ∀ c ∈ read, accepts c = true)
    (hskip : ∀ front back, read = front ++ back → back ≠ [] →
      lead (cursor.beyond front (back ++ rest)) = none)
    (hfound : lead (cursor.beyond read rest) = some found) :
    ((fewest accepts).ends cursor).findSome? lead = some found := by
  rw [ends_fewest, List.findSome?_cons]
  induction read generalizing cursor with
  | nil =>
    rw [List.nil_append] at h
    rw [Cursor.beyond_nil h] at hfound
    rw [hfound]
  | cons c read ih =>
    obtain ⟨hc, hread⟩ := List.forall_mem_cons.mp hread
    have hhere := hskip [] (c :: read) rfl (List.cons_ne_nil c read)
    rw [Cursor.beyond_nil h] at hhere
    rw [hhere, h]
    simp only [List.cons_append, hc, if_true]
    rw [ends_fewest, List.findSome?_cons]
    refine ih rfl hread ?_ ?_
    · intro front back hsplit hback
      rw [Cursor.past_beyond]
      exact hskip (c :: front) back (by rw [hsplit, List.cons_append]) hback
    · rwa [Cursor.past_beyond]

/-- Behind a reluctant run that is recorded, the rest of the pattern is tried from the nearest place
on. -/
theorem preferred?_group_fewest (label : Label) (h : cursor.rest = read ++ rest)
    (hread : ∀ c ∈ read, accepts c = true)
    (hskip : ∀ front back, read = front ++ back → back ≠ [] →
      second.ends ((cursor.beyond front (back ++ rest)).record label cursor.offset) = [])
    (hfinal : second.preferred? ((cursor.beyond read rest).record label cursor.offset) =
      some final) :
    (seq (group label (fewest accepts)) second).preferred? cursor = some final := by
  have hends : (group label (fewest accepts)).ends cursor =
      ((fewest accepts).ends cursor).map fun next => next.record label cursor.offset := rfl
  rw [preferred?_seq_eq, hends, List.findSome?_map]
  refine findSome?_ends_fewest h hread (fun front back hsplit hback => ?_) hfinal
  rw [Function.comp_apply, preferred?, hskip front back hsplit hback, List.head?_nil]

theorem preferred?_wordEdge (h : cursor.atWordEdge = true) :
    wordEdge.preferred? cursor = some cursor := by
  simp [preferred?, ends, h]

theorem preferred?_textEnd (h : cursor.rest = []) : textEnd.preferred? cursor = some cursor := by
  simp [preferred?, ends, h]

/-- A match at the beginning of a text is the first one. -/
theorem find?_of_preferred? {pattern : Pattern} {text : List Char} {finish : Cursor}
    (h : pattern.preferred? (Cursor.ofText text) = some finish) :
    pattern.find? text = some ⟨0, finish⟩ := by
  have hhead : (pattern.ends ⟨none, text, 0, []⟩).head? = some finish := h
  cases text with
  | nil => rw [find?, findFrom, hhead, Option.map_some]
  | cons c rest => rw [find?, findFrom, hhead]

end Pattern

end CodeQuality
