import CodeQuality.Proofs.Signature.Split
import CodeQuality.Signature.Heritage
import Mathlib.Data.List.SplitBy

/-!
# Lists of parents

A class names its parents in a list, each perhaps behind a qualifier. Main statement: the names in
such a list are read back exactly, with white space around it or not. The names may hold type
arguments with commas in them, as long as each of them is closed by itself.

White space stands in such a list only behind a comma and behind a qualifier, which tells that no
keyword can be found in it.
-/

namespace CodeQuality.Signature

open Text

/-! ## Words -/

/-- A character of a word is not white space. -/
theorem isBlank_of_isWord {c : Char} (h : isWord c = true) : isBlank c = false := by
  by_contra hblank
  have hword : isWord c = false := isWord_of_isBlank (by simpa using hblank)
  simp [hword] at h

/-- The words on both sides of a space are the words of a text. -/
theorem words_append_space (head tail : List Char) :
    words (head ++ ' ' :: tail) = words head ++ words tail := by
  have hblank : isBlank ' ' = true := rfl
  have hsplit : ∀ x ∈ [' '].getLast?, ∀ y ∈ tail.head?, (!isBlank x && !isBlank y) = false := by
    rintro x hx y -
    obtain rfl : ' ' = x := by simpa using hx
    simp [hblank]
  rw [words, List.splitBy_append_cons _ fun x _ => by simp [hblank], ← List.singleton_append,
    List.splitBy_append hsplit, List.filter_append, List.filter_append]
  rfl

/-- A text without white space is a word. -/
theorem words_eq_singleton {text : List Char} (hne : text ≠ [])
    (h : ∀ c ∈ text, isBlank c = false) : words text = [text] := by
  have hchain : text.IsChain fun a b => (!isBlank a && !isBlank b) = true := by
    refine List.Pairwise.isChain (List.pairwise_of_forall_mem_list fun a ha b hb => ?_)
    simp [h a ha, h b hb]
  have hblank : text.any isBlank = false := by simpa using h
  rw [words, List.splitBy_of_isChain hne hchain, List.filter_singleton]
  simp [hblank]

/-! ## Parents -/

/-- The text names a type that can be read back from a list of parents. -/
structure IsParentName (name : String) : Prop where
  nonempty : name ≠ ""
  /-- Word characters, dots and type arguments make a name. -/
  chars : ∀ c ∈ name.toList, isWord c = true ∨ c ∈ ['.', '<', '>', ',']
  closed : IsClosed name.toList
  unqualified : name ∉ ["public", "private", "protected", "virtual"]
  /-- Neither keyword is one of the words in the name. -/
  keywordless : ∀ keyword ∈ ["extends", "implements"],
    keyword.toList ∉ name.toList.splitOnP fun c => !isWord c

instance (name : String) : Decidable (IsParentName name) :=
  decidable_of_iff
    (name ≠ "" ∧ (name.toList.all fun c => isWord c = true ∨ c ∈ ['.', '<', '>', ',']) = true ∧
      IsClosed name.toList ∧ name ∉ ["public", "private", "protected", "virtual"] ∧
      (["extends", "implements"].all fun keyword =>
        keyword.toList ∉ name.toList.splitOnP fun c => !isWord c) = true) <| by
    simp only [List.all_eq_true, decide_eq_true_eq]
    exact ⟨fun ⟨hne, hchars, hclosed, hname, hwords⟩ => ⟨hne, hchars, hclosed, hname, hwords⟩,
      fun ⟨hne, hchars, hclosed, hname, hwords⟩ => ⟨hne, hchars, hclosed, hname, hwords⟩⟩

/-- A parent as it is written in a list. -/
structure Parent where
  qualifier? : Option String := none
  name : String

namespace Parent

/-- The name of the parent, behind its qualifier if there is one. -/
def render (parent : Parent) : List Char :=
  match parent.qualifier? with
  | none => parent.name.toList
  | some qualifier => qualifier.toList ++ ' ' :: parent.name.toList

/-- The parent can be read back. -/
structure IsReadable (parent : Parent) : Prop extends IsParentName parent.name where
  qualified : ∀ qualifier ∈ parent.qualifier?,
    qualifier ∈ ["public", "private", "protected", "virtual"]

end Parent

/-- Parents with commas between them. -/
def parentList (parents : List Parent) : List Char :=
  [',', ' '].intercalate (parents.map Parent.render)

theorem parentList_singleton (parent : Parent) : parentList [parent] = parent.render := by
  simp [parentList]

theorem parentList_cons_cons (parent second : Parent) (others : List Parent) :
    parentList (parent :: second :: others) =
      parent.render ++ ',' :: ' ' :: parentList (second :: others) := by
  simp [parentList, List.intercalate_cons_cons]

namespace IsParentName

variable {name : String}

theorem toList_ne_nil (h : IsParentName name) : name.toList ≠ [] := by
  simpa using h.nonempty

theorem isBlank (h : IsParentName name) : ∀ c ∈ name.toList, Text.isBlank c = false := by
  intro c hc
  rcases h.chars c hc with hword | hsign
  · exact isBlank_of_isWord hword
  · by_contra hblank
    exact notMem_of_kind (by simpa using hblank) (by decide) hsign

theorem notMem (h : IsParentName name) {sign : Char} (hword : isWord sign = false)
    (hsign : sign ∉ ['.', '<', '>', ',']) : sign ∉ name.toList := by
  intro hmem
  rcases h.chars sign hmem with hchar | hchar
  · simp [hchar] at hword
  · exact hsign hchar

end IsParentName

namespace Parent.IsReadable

variable {parent : Parent}

/-- A qualifier is made of letters. -/
theorem qualifier_letters (h : parent.IsReadable) {qualifier : String}
    (hqualifier : qualifier ∈ parent.qualifier?) :
    qualifier.toList ≠ [] ∧ ∀ c ∈ qualifier.toList, isWord c = true := by
  have hall : (["public", "private", "protected", "virtual"].all fun qualifier =>
      !qualifier.toList.isEmpty && qualifier.toList.all isWord) = true := by decide
  have hletters := List.all_eq_true.mp hall qualifier (h.qualified qualifier hqualifier)
  simpa using hletters

/-- A parent has no white space at its ends. -/
theorem ends_render (h : parent.IsReadable) : parent.render ≠ [] ∧
    (∀ c ∈ parent.render.head?, isBlank c = false) ∧
    ∀ c ∈ parent.render.getLast?, isBlank c = false := by
  have hname := h.isBlank
  rw [render]
  split
  · exact ⟨h.toList_ne_nil, fun c hc => hname c (List.mem_of_head? hc),
      fun c hc => hname c (List.mem_of_getLast? hc)⟩
  · rename_i qualifier hqualifier
    obtain ⟨hne, hletters⟩ := h.qualifier_letters hqualifier
    refine ⟨by simp, fun c hc => ?_, fun c hc => ?_⟩
    · rw [List.head?_append_of_ne_nil _ hne] at hc
      exact isBlank_of_isWord (hletters c (List.mem_of_head? hc))
    · rw [List.append_cons, List.getLast?_append_of_ne_nil _ h.toList_ne_nil] at hc
      exact hname c (List.mem_of_getLast? hc)

/-- The words of a parent are its qualifier and its name. -/
theorem parentName?_render (h : parent.IsReadable) :
    parentName? parent.render = some parent.name := by
  have hname : words parent.name.toList = [parent.name.toList] :=
    words_eq_singleton h.toList_ne_nil h.isBlank
  have hunqualified : parent.name ∉ heritageQualifiers := h.unqualified
  rw [render]
  split
  · simp [parentName?, hname, hunqualified]
  · rename_i qualifier hqualifier
    obtain ⟨hne, hletters⟩ := h.qualifier_letters hqualifier
    have hwords : words qualifier.toList = [qualifier.toList] :=
      words_eq_singleton hne fun c hc => isBlank_of_isWord (hletters c hc)
    have hqualified : qualifier ∈ heritageQualifiers := h.qualified qualifier hqualifier
    simp [parentName?, words_append_space, hwords, hname, hunqualified, hqualified]

theorem isClosed_render (h : parent.IsReadable) : IsClosed parent.render := by
  rw [render]
  split
  · exact h.closed
  · rename_i qualifier hqualifier
    obtain ⟨-, hletters⟩ := h.qualifier_letters hqualifier
    refine IsClosed.append_space (isClosed_of_plain fun c hc => ?_) h.closed
    exact notMem_of_kind (hletters c hc) (by decide)

end Parent.IsReadable

/-! ## Reading a list -/

/-- White space behind a list is trimmed with its last piece. -/
theorem map_trim_pieces_append_space (count : BracketCount) (piece text : List Char) :
    (count.pieces piece (text ++ [' '])).map trim = (count.pieces piece text).map trim := by
  have hblank : ∀ c ∈ [' '], isBlank c = true := List.forall_mem_singleton.mpr rfl
  induction text generalizing count piece with
  | nil =>
    rw [List.nil_append, BracketCount.pieces_cons (by simp), BracketCount.pieces_nil,
      BracketCount.pieces_nil, List.reverse_cons]
    exact congrArg (fun text => [text]) (trim_append_right hblank _)
  | cons c rest ih =>
    by_cases hc : c = ',' ∧ count.depth = 0
    · obtain ⟨rfl, hdepth⟩ := hc
      rw [List.cons_append, BracketCount.pieces_comma hdepth, BracketCount.pieces_comma hdepth,
        List.map_cons, List.map_cons, ih]
    · rw [List.cons_append, BracketCount.pieces_cons hc, BracketCount.pieces_cons hc, ih]

/-- White space behind a list does not matter. -/
theorem parents_append_space (text : List Char) : parents (text ++ [' ']) = parents text := by
  rw [parents, parents, splitTopLevel_eq_pieces, splitTopLevel_eq_pieces,
    map_trim_pieces_append_space]

/-- The pieces of a list are its parents, each with the space in front of it. -/
theorem pieces_parentList {parent : Parent} {others : List Parent}
    (h : ∀ other ∈ parent :: others, other.IsReadable) {front : List Char}
    (hfront : front = [] ∨ front = [' ']) :
    BracketCount.pieces {} [] (front ++ parentList (parent :: others)) =
      (front ++ parent.render) :: others.map fun other => ' ' :: other.render := by
  have hclosed : ∀ text ∈ (parent :: others).map Parent.render, IsClosed text :=
    List.forall_mem_map.mpr fun other hother => (h other hother).isClosed_render
  have hmap : (others.map Parent.render).map (' ' :: ·) =
      others.map fun other => ' ' :: other.render :=
    List.map_map
  rw [parentList, List.map_cons, ← hmap]
  rcases hfront with rfl | rfl
  · exact BracketCount.pieces_intercalate rfl [] _ (fun _ => by simp) hclosed
  · rw [List.singleton_append, BracketCount.pieces_cons (by simp)]
    exact BracketCount.pieces_intercalate rfl [' '] _ (fun _ => by simp [BracketCount.next]) hclosed

/-- The names in a list of parents are read back. -/
theorem parents_parentList {list : List Parent} (h : ∀ parent ∈ list, parent.IsReadable)
    {front : List Char} (hfront : front = [] ∨ front = [' ']) :
    parents (front ++ parentList list) = list.map (·.name) := by
  have hblank : ∀ c ∈ front, isBlank c = true := by
    rcases hfront with rfl | rfl
    · simp
    · exact List.forall_mem_singleton.mpr rfl
  cases list with
  | nil => rcases hfront with rfl | rfl <;> rfl
  | cons parent others =>
    have htrim (front : List Char) (hblank : ∀ c ∈ front, isBlank c = true) :
        ∀ other ∈ parent :: others, trim (front ++ other.render) = other.render := by
      intro other hother
      obtain ⟨-, hhead, hlast⟩ := (h other hother).ends_render
      rw [trim_append_left hblank, trim_eq_self hhead hlast]
    have hspace : ∀ c ∈ [' '], isBlank c = true := List.forall_mem_singleton.mpr rfl
    have hparts : ((front ++ parent.render) ::
        others.map fun other => ' ' :: other.render).map trim =
          (parent :: others).map Parent.render := by
      rw [List.map_cons, List.map_map, htrim front hblank parent List.mem_cons_self, List.map_cons]
      refine congrArg _ (List.map_congr_left fun other hother => ?_)
      exact htrim [' '] hspace other (List.mem_cons_of_mem parent hother)
    have hkept : ((parent :: others).map Parent.render).filter (fun part => !part.isEmpty) =
        (parent :: others).map Parent.render := by
      refine List.filter_eq_self.mpr (List.forall_mem_map.mpr fun other hother => ?_)
      simpa using (h other hother).ends_render.1
    rw [parents, splitTopLevel_eq_pieces, pieces_parentList h hfront, hparts, hkept,
      List.filterMap_map, ← List.filterMap_eq_map]
    exact List.filterMap_congr fun other hother => (h other hother).parentName?_render

/-- A list of parents has no white space at its ends. -/
theorem ends_parentList {list : List Parent} (hne : list ≠ [])
    (h : ∀ parent ∈ list, parent.IsReadable) : parentList list ≠ [] ∧
      (∀ c ∈ (parentList list).head?, isBlank c = false) ∧
      ∀ c ∈ (parentList list).getLast?, isBlank c = false := by
  induction list with
  | nil => exact absurd rfl hne
  | cons parent others ih =>
    obtain ⟨hparent, hothers⟩ := List.forall_mem_cons.mp h
    have hrender := hparent.ends_render
    cases others with
    | nil => rwa [parentList_singleton]
    | cons second others =>
      obtain ⟨hrest, -, hlast⟩ := ih (List.cons_ne_nil _ _) hothers
      rw [parentList_cons_cons]
      refine ⟨by simp, ?_, ?_⟩
      · rw [List.head?_append_of_ne_nil _ hrender.1]
        exact hrender.2.1
      · rw [List.append_cons, List.append_cons, List.getLast?_append_of_ne_nil _ hrest]
        exact hlast

/-! ## White space in a list -/

/-- A character of a text with a character in the middle stands before, at or behind it. -/
theorem append_cons_eq_append_cons {α : Type} {head tail front back : List α} {x y : α}
    (h : head ++ x :: tail = front ++ y :: back) :
    (∃ between, head = front ++ y :: between) ∨ (head = front ∧ tail = back) ∨
      ∃ between, front = head ++ x :: between ∧ tail = between ++ y :: back := by
  rcases List.append_eq_append_iff.mp h with ⟨between, hfront, htail⟩ | ⟨between, hhead, hback⟩
  · cases between with
    | nil =>
      obtain ⟨-, hback⟩ := List.cons.inj htail
      exact Or.inr (Or.inl ⟨by simpa using hfront.symm, hback⟩)
    | cons z between =>
      obtain ⟨rfl, hback⟩ := List.cons.inj htail
      exact Or.inr (Or.inr ⟨between, hfront, hback⟩)
  · cases between with
    | nil =>
      obtain ⟨-, htail⟩ := List.cons.inj hback
      exact Or.inr (Or.inl ⟨by simpa using hhead, htail.symm⟩)
    | cons z between =>
      obtain ⟨rfl, -⟩ := List.cons.inj hback
      exact Or.inl ⟨between, hhead⟩

/-- White space in a parent stands in front of it or behind its qualifier. -/
theorem Parent.IsReadable.blank_render {parent : Parent} (h : parent.IsReadable)
    {extra front back : List Char} {c : Char} (hextra : ∀ d ∈ extra, isBlank d = false)
    (hc : isBlank c = true) (htext : ' ' :: (parent.render ++ extra) = front ++ c :: back) :
    front = [] ∨ ∃ qualifier ∈ parent.qualifier?, front = ' ' :: qualifier.toList := by
  have hname : c ∉ parent.name.toList ++ extra := by
    intro hmem
    rcases List.mem_append.mp hmem with hmem | hmem
    · simp [h.isBlank c hmem] at hc
    · simp [hextra c hmem] at hc
  cases front with
  | nil => exact Or.inl rfl
  | cons space front =>
    obtain ⟨rfl, hrest⟩ := List.cons.inj htext
    rw [render] at hrest
    split at hrest
    · exact absurd (hrest ▸ List.mem_append_cons_self) hname
    · rename_i qualifier hqualifier
      obtain ⟨-, hletters⟩ := h.qualifier_letters hqualifier
      rw [List.append_assoc, List.cons_append] at hrest
      rcases append_cons_eq_append_cons hrest with
        ⟨between, hbetween⟩ | ⟨hfront, -⟩ | ⟨between, -, hbehind⟩
      · have hmem : c ∈ qualifier.toList := hbetween ▸ List.mem_append_cons_self
        simp [isBlank_of_isWord (hletters c hmem)] at hc
      · exact Or.inr ⟨qualifier, hqualifier, by rw [hfront]⟩
      · exact absurd (hbehind ▸ List.mem_append_cons_self) hname

/-- White space in a list stands in front of it, behind a comma or behind a qualifier. -/
theorem blank_parentList {list : List Parent} (h : ∀ parent ∈ list, parent.IsReadable)
    {front back : List Char} {c : Char} (hc : isBlank c = true)
    (htext : ' ' :: parentList list = front ++ c :: back) :
    front = [] ∨ front.getLast? = some ',' ∨
      ∃ parent ∈ list, ∃ qualifier ∈ parent.qualifier?, ' ' :: qualifier.toList <:+ front := by
  induction list generalizing front with
  | nil =>
    cases front with
    | nil => exact Or.inl rfl
    | cons space front => simp [parentList] at htext
  | cons parent others ih =>
    obtain ⟨hparent, hothers⟩ := List.forall_mem_cons.mp h
    have hfirst {extra between : List Char} (hextra : ∀ d ∈ extra, isBlank d = false)
        (hbetween : ' ' :: (parent.render ++ extra) = front ++ c :: between) :
        front = [] ∨ ∃ parent' ∈ parent :: others, ∃ qualifier ∈ parent'.qualifier?,
          ' ' :: qualifier.toList <:+ front := by
      refine (hparent.blank_render hextra hc hbetween).imp_right ?_
      rintro ⟨qualifier, hqualifier, rfl⟩
      exact ⟨parent, List.mem_cons_self, qualifier, hqualifier, List.suffix_rfl⟩
    cases others with
    | nil =>
      have hone : ' ' :: (parent.render ++ []) = front ++ c :: back := by
        rwa [List.append_nil, ← parentList_singleton]
      exact (hfirst (List.forall_mem_nil _) hone).imp_right Or.inr
    | cons second others =>
      have hlist : ' ' :: parentList (parent :: second :: others) =
          ' ' :: parent.render ++ [','] ++ ' ' :: parentList (second :: others) := by
        simp [parentList_cons_cons]
      rw [hlist] at htext
      have hcomma : ∀ d ∈ [','], isBlank d = false := List.forall_mem_singleton.mpr rfl
      -- It stands before the space that follows the first comma, it is that space, or the list of
      -- the others holds it.
      rcases append_cons_eq_append_cons htext with
        ⟨between, hbetween⟩ | ⟨rfl, -⟩ | ⟨between, rfl, hbehind⟩
      · exact (hfirst hcomma hbetween).imp_right Or.inr
      · exact Or.inr (Or.inl List.getLast?_concat)
      · have hrest : ' ' :: parentList (second :: others) = ' ' :: between ++ c :: back := by
          rw [hbehind, List.cons_append]
        rcases ih hothers hrest with hnil | hlast | ⟨other, hother, qualifier, hqualifier, hsuffix⟩
        · cases hnil
        · exact Or.inr (Or.inl (by rw [List.getLast?_append, hlast, Option.some_or]))
        · exact Or.inr (Or.inr ⟨other, List.mem_cons_of_mem parent hother, qualifier, hqualifier,
            hsuffix.trans (List.suffix_append _ _)⟩)

end CodeQuality.Signature
