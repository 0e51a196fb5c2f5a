import CodeQuality.Proofs.Pattern.Preferred
import CodeQuality.Proofs.Signature.Parents
import CodeQuality.Proofs.Text.Search

/-!
# Reading heritage back

The text behind the name of a class lists its parents: bases and interfaces behind a keyword each,
all of them behind a colon with or without qualifiers, or bases in parentheses. Main statement:
in each of these styles the names are read back exactly and in order. Behind a colon the spelling
of a name tells whether it is an interface, and qualifiers change nothing.

Behind keywords, a reluctant run reads the bases and an optional part the interfaces. White space
in a list stands behind a comma, and no keyword is a word in a name, so the run can not stop
before the list ends.
-/

namespace CodeQuality.Signature

open Text Pattern

/-! ## Lists of names -/

/-- Names of types with commas between them. -/
def typeList (names : List String) : List Char :=
  [',', ' '].intercalate (names.map String.toList)

section TypeList

variable {names : List String}

theorem typeList_eq (names : List String) :
    typeList names = parentList (names.map fun name => { name }) := by
  simp [typeList, parentList, Function.comp_def, Parent.render]

theorem typeList_cons_cons (name second : String) (others : List String) :
    typeList (name :: second :: others) =
      name.toList ++ ',' :: ' ' :: typeList (second :: others) := by
  simp [typeList, List.intercalate_cons_cons]

theorem isReadable_of_names (h : ∀ name ∈ names, IsParentName name) :
    ∀ parent ∈ names.map fun name => ({ name } : Parent), parent.IsReadable :=
  List.forall_mem_map.mpr fun name hname => ⟨h name hname, by simp⟩

theorem parents_typeList (h : ∀ name ∈ names, IsParentName name) :
    parents (typeList names) = names := by
  have hparents := parents_parentList (isReadable_of_names h) (Or.inl rfl)
  simpa [typeList_eq, Function.comp_def] using hparents

theorem ends_typeList (hne : names ≠ []) (h : ∀ name ∈ names, IsParentName name) :
    typeList names ≠ [] ∧ (∀ c ∈ (typeList names).head?, isBlank c = false) ∧
      ∀ c ∈ (typeList names).getLast?, isBlank c = false := by
  rw [typeList_eq]
  exact ends_parentList (by simpa using hne) (isReadable_of_names h)

/-- White space in a list of names stands in front of it or behind a comma. -/
theorem blank_typeList (h : ∀ name ∈ names, IsParentName name) {front back : List Char} {c : Char}
    (hc : isBlank c = true) (htext : ' ' :: typeList names = front ++ c :: back) :
    front = [] ∨ front.getLast? = some ',' := by
  rw [typeList_eq] at htext
  rcases blank_parentList (isReadable_of_names h) hc htext with
    hnil | hlast | ⟨parent, hparent, qualifier, hqualifier, -⟩
  · exact Or.inl hnil
  · exact Or.inr hlast
  · obtain ⟨name, -, rfl⟩ := List.mem_map.mp hparent
    simp at hqualifier

/-- A sign that is in none of the names is not in their list. -/
theorem notMem_typeList {sign : Char} (hsign : sign ∉ [',', ' '])
    (h : ∀ name ∈ names, sign ∉ name.toList) : sign ∉ typeList names := by
  induction names with
  | nil => simp [typeList]
  | cons name others ih =>
    obtain ⟨hname, hothers⟩ := List.forall_mem_cons.mp h
    cases others with
    | nil => simpa [typeList] using hname
    | cons second others =>
      rw [typeList_cons_cons, List.mem_append, List.mem_cons, List.mem_cons]
      simp only [List.mem_cons, List.not_mem_nil, or_false, not_or] at hsign
      simp [hname, hsign, ih hothers]

/-- The words in a list of names are those in the names. -/
theorem mem_splitOnP_typeList {word : List Char}
    (h : word ∈ (typeList names).splitOnP fun c => !isWord c) :
    word = [] ∨ ∃ name ∈ names, word ∈ name.toList.splitOnP fun c => !isWord c := by
  induction names with
  | nil => exact Or.inl (by simpa [typeList] using h)
  | cons name others ih =>
    cases others with
    | nil => exact Or.inr ⟨name, List.mem_cons_self, by simpa [typeList] using h⟩
    | cons second others =>
      have hlist : typeList (name :: second :: others) =
          name.toList ++ ',' :: ([] ++ ' ' :: typeList (second :: others)) :=
        typeList_cons_cons name second others
      rw [hlist, List.splitOnP_append_cons _ _ (by decide),
        List.splitOnP_append_cons _ _ (by decide), List.splitOnP_nil] at h
      simp only [List.mem_append, List.mem_singleton] at h
      rcases h with hfirst | hempty | hrest
      · exact Or.inr ⟨name, List.mem_cons_self, hfirst⟩
      · exact Or.inl hempty
      · refine (ih hrest).imp_right ?_
        rintro ⟨other, hother, hword⟩
        exact ⟨other, List.mem_cons_of_mem name hother, hword⟩

/-- No list of names ends with the word that begins the interfaces. -/
theorem typeList_ne_append (h : ∀ name ∈ names, IsParentName name) {front : List Char}
    (hedge : ∀ c ∈ front.getLast?, isWord c = false) :
    typeList names ≠ front ++ "implements".toList := by
  intro htext
  have hsplit : "implements".toList.splitOnP (fun c => !isWord c) = ["implements".toList] := by
    decide
  have hmem : "implements".toList ∈ (typeList names).splitOnP fun c => !isWord c := by
    rw [htext]
    rcases List.eq_nil_or_concat' front with rfl | ⟨before, c, rfl⟩
    · rw [List.nil_append, hsplit]
      exact List.mem_singleton_self _
    · have hc : isWord c = false := hedge c List.getLast?_concat
      rw [List.append_assoc, List.singleton_append, List.splitOnP_append_cons _ _ (by simp [hc]),
        hsplit]
      exact List.mem_append_right _ (List.mem_singleton_self _)
  rcases mem_splitOnP_typeList hmem with hnil | ⟨name, hname, hword⟩
  · exact absurd hnil (by decide)
  · exact (h name hname).keywordless "implements" (by simp) hword

end TypeList

/-- The space in front of a text is trimmed, and nothing else where the text is trimmed. -/
theorem trim_space {text : List Char} (hhead : ∀ c ∈ text.head?, isBlank c = false)
    (hlast : ∀ c ∈ text.getLast?, isBlank c = false) : trim (' ' :: text) = text := by
  rw [← List.singleton_append, trim_append_left (List.forall_mem_singleton.mpr rfl),
    trim_eq_self hhead hlast]

/-! ## Behind a colon and in parentheses -/

/-- The name is a capital I before another ASCII capital. -/
def IsInterfaceName (name : String) : Prop :=
  name.toList.head? = some 'I' ∧ name.toList.tail.head?.any (fun c => 'A' ≤ c ∧ c ≤ 'Z') = true

instance (name : String) : Decidable (IsInterfaceName name) :=
  inferInstanceAs (Decidable (_ ∧ _))

theorem looksLikeInterface_eq (name : String) :
    looksLikeInterface name = decide (IsInterfaceName name) := by
  rw [looksLikeInterface, Bool.eq_iff_iff, decide_eq_true_iff, IsInterfaceName]
  split
  · rename_i second rest hname
    have hcapital : second.isUpper = true ↔ 'A' ≤ second ∧ second ≤ 'Z' := decide_eq_true_iff
    simp only [hname, hcapital, List.head?_cons, List.tail_cons, Option.any_some,
      decide_eq_true_iff, true_and]
  · rename_i hname
    refine iff_of_false (by simp) ?_
    rintro ⟨hfirst, hsecond⟩
    obtain ⟨rest, hrest⟩ := List.head?_eq_some_iff.mp hfirst
    rw [hrest, List.tail_cons] at hsecond
    cases rest with
    | nil => cases hsecond
    | cons second rest => exact hname second rest hrest

/-- No constraints begin in a list of parents. -/
theorem beforeConstraints_parentList {list : List Parent}
    (h : ∀ parent ∈ list, parent.IsReadable) :
    beforeConstraints (' ' :: parentList list) = ' ' :: parentList list := by
  have hnot : ¬ [' ', 'w', 'h', 'e', 'r', 'e', ' '] <:+: ' ' :: parentList list := by
    rintro ⟨front, back, htext⟩
    have hwhere : ' ' :: parentList list =
        front ++ [' ', 'w', 'h', 'e', 'r', 'e'] ++ ' ' :: back := by
      simp [← htext]
    rcases blank_parentList h rfl hwhere with
      hnil | hlast | ⟨parent, hparent, qualifier, hqualifier, hsuffix⟩
    · simp at hnil
    · simp at hlast
    · have hqualifiers : (["public", "private", "protected", "virtual"].any fun qualifier =>
          (' ' :: qualifier.toList).isSuffixOf [' ', 'w', 'h', 'e', 'r', 'e'] ||
            [' ', 'w', 'h', 'e', 'r', 'e'].isSuffixOf (' ' :: qualifier.toList)) = false := by
        decide
      have hqualified := (h parent hparent).qualified qualifier hqualifier
      have hother := List.any_eq_false.mp hqualifiers qualifier hqualified
      simp only [Bool.or_eq_true, List.isSuffixOf_iff_suffix] at hother
      exact hother (List.suffix_or_suffix_of_suffix hsuffix (List.suffix_append _ _))
  have hnone : Text.find? [' ', 'w', 'h', 'e', 'r', 'e', ' '] (' ' :: parentList list) = none := by
    rw [← holds_iff_isInfix, holds, Option.isSome_iff_ne_none, not_not] at hnot
    exact hnot
  have hall := takeBytes_append (' ' :: parentList list) []
  rw [List.append_nil] at hall
  simpa [beforeConstraints, firstOf, hnone] using hall

/-- Behind a colon, the parents are told apart by their spelling and their qualifiers are
dropped. -/
theorem heritage_colon {list : List Parent} (h : ∀ parent ∈ list, parent.IsReadable) :
    heritage .colon (' ' :: ':' :: ' ' :: parentList list) =
      { bases := (list.map (·.name)).filter fun name => ¬ IsInterfaceName name
        interfaces := (list.map (·.name)).filter fun name => IsInterfaceName name } := by
  cases list with
  | nil => rfl
  | cons parent others =>
    obtain ⟨hne, -, hlast⟩ := ends_parentList (List.cons_ne_nil parent others) h
    have htrim : trim (' ' :: ':' :: ' ' :: parentList (parent :: others)) =
        ':' :: ' ' :: parentList (parent :: others) := by
      refine trim_space (by simp; decide) ?_
      rwa [List.getLast?_cons_cons, List.getLast?_cons_of_ne_nil hne]
    have hnames : parents (' ' :: parentList (parent :: others)) =
        (parent :: others).map (·.name) :=
      parents_parentList h (Or.inr rfl)
    have hspelling : looksLikeInterface = fun name => decide (IsInterfaceName name) :=
      funext looksLikeInterface_eq
    simp only [heritage, htrim, dropPrefix?, if_true, beforeConstraints_parentList h, hnames,
      hspelling, decide_not]

theorem dropWhile_of_notMem {sign : Char} {text : List Char} (h : sign ∉ text) :
    text.dropWhile (· == sign) = text := by
  cases text with
  | nil => rfl
  | cons c rest =>
    refine List.dropWhile_cons_of_neg ?_
    simpa using fun heq : c = sign => h (heq ▸ List.mem_cons_self)

/-- In parentheses, all parents are bases. -/
theorem heritage_parenthesized {names : List String} (h : ∀ name ∈ names, IsParentName name) :
    heritage .parenthesized ('(' :: typeList names ++ [')']) = { bases := names } := by
  have hopening : '(' ∉ typeList names :=
    notMem_typeList (by simp) fun name hname => (h name hname).notMem (by decide) (by simp)
  have hclosing : ')' ∉ typeList names :=
    notMem_typeList (by simp) fun name hname => (h name hname).notMem (by decide) (by simp)
  have htrim : trim ('(' :: typeList names ++ [')']) = '(' :: typeList names ++ [')'] := by
    refine trim_eq_self (by simp; decide) ?_
    rw [List.getLast?_concat]
    simp
    decide
  have hleading : dropLeading (· == '(') ('(' :: typeList names ++ [')']) =
      typeList names ++ [')'] := by
    rw [dropLeading, List.cons_append, List.dropWhile_cons_of_pos (by simp)]
    exact dropWhile_of_notMem (by simpa using hopening)
  have htrailing : dropTrailing (· == ')') (typeList names ++ [')']) = typeList names := by
    rw [dropTrailing, List.reverse_concat, List.dropWhile_cons_of_pos (by simp),
      dropWhile_of_notMem (by simpa using hclosing), List.reverse_reverse]
  have hkept : names.filter (fun base => !base.toList.contains '=') = names := by
    refine List.filter_eq_self.mpr fun name hname => ?_
    simpa using (h name hname).notMem (by decide) (by simp)
  simp only [heritage, htrim, hleading, htrailing, parents_typeList h, hkept]

/-! ## Behind the keywords -/

section Keyword

variable {keyword : String} {more : Pattern} {cursor next final : Cursor} {rest : List Char}

/-- A pattern that begins with a keyword matches only where the keyword begins a word and has white
space behind it. -/
theorem exists_of_mem_ends_keyword
    (h : next ∈ (seq wordEdge (seq (Pattern.word keyword) (seq someSpace more))).ends cursor) :
    cursor.atWordEdge = true ∧
      ∃ c rest, isBlank c = true ∧ cursor.rest = keyword.toList ++ c :: rest := by
  obtain ⟨middle, hmiddle, hnext⟩ := List.mem_flatMap.mp h
  have hedge : cursor.atWordEdge = true ∧ middle = cursor := by
    by_cases hedge : cursor.atWordEdge = true
    · exact ⟨hedge, by simpa [ends, hedge] using hmiddle⟩
    · simp [ends, hedge] at hmiddle
  obtain ⟨hedge, rfl⟩ := hedge
  obtain ⟨read, hsteps⟩ := exists_steps_of_mem_ends _ hnext
  have hrest := hsteps.reads.rest_eq
  cases hsteps.spells with
  | seq hkeyword hbehind =>
    cases hkeyword
    cases hbehind with
    | seq hspace _ =>
      cases hspace with
      | seq hfirst _ =>
        cases hfirst with
        | one hc => exact ⟨hedge, _, _, hc, by simpa using hrest⟩

/-- Where the keyword stands, the rest of the pattern is matched behind it. -/
theorem preferred?_keyword (hedge : cursor.atWordEdge = true)
    (h : cursor.rest = keyword.toList ++ ' ' :: rest) (hrest : ∀ c ∈ rest.head?, isBlank c = false)
    (hmore : more.preferred? (cursor.beyond (keyword.toList ++ [' ']) rest) = some final) :
    (seq wordEdge (seq (Pattern.word keyword) (seq someSpace more))).preferred? cursor =
      some final := by
  rw [← Cursor.beyond_beyond cursor keyword.toList [' '] (' ' :: rest)] at hmore
  have hspace : someSpace.preferred? (cursor.beyond keyword.toList (' ' :: rest)) =
      some ((cursor.beyond keyword.toList (' ' :: rest)).beyond [' '] rest) :=
    preferred?_one_run rfl (List.forall_mem_nil _) hrest rfl
  exact preferred?_seq (preferred?_wordEdge hedge)
    (preferred?_seq (preferred?_literal h) (preferred?_seq hspace hmore))

end Keyword

/-- The interfaces do not begin within the list of bases, nor right behind it. -/
theorem typeList_append_ne {names : List String} (h : ∀ name ∈ names, IsParentName name)
    {front tail back : List Char} {c : Char} (hfront : front <+: typeList names)
    (hedge : ∀ c ∈ front.getLast?, isWord c = false)
    (htail : ∀ c ∈ tail.head?, c = ' ') (hc : isBlank c = true) :
    typeList names ++ tail ≠ front ++ ("implements".toList ++ c :: back) := by
  have hinside (between : List Char) :
      typeList names ≠ front ++ "implements".toList ++ c :: between := by
    intro htext
    have hspace : ' ' :: typeList names =
        (' ' :: (front ++ "implements".toList)) ++ c :: between := by
      rw [htext, List.cons_append]
    rcases blank_typeList h hc hspace with hnil | hlast
    · cases hnil
    · rw [← List.cons_append, List.getLast?_append_of_ne_nil _ (by decide)] at hlast
      exact absurd hlast (by decide)
  intro htext
  rw [← List.append_assoc] at htext
  cases tail with
  | nil => exact hinside back (by rwa [List.append_nil] at htext)
  | cons space tail =>
    obtain rfl : space = ' ' := htail space rfl
    -- The white space behind the keyword is in the list, follows it directly or is further behind.
    rcases append_cons_eq_append_cons htext with
      ⟨between, hbetween⟩ | ⟨hlast, -⟩ | ⟨between, hbeyond, -⟩
    · exact hinside between hbetween
    · exact typeList_ne_append h hedge hlast
    · obtain ⟨others, hothers⟩ := hfront
      rw [← hothers, List.append_assoc, List.append_cancel_left_eq] at hbeyond
      have hspace : ' ' ∈ "implements".toList := hbeyond ▸ List.mem_append_cons_self
      exact absurd hspace (by decide)

/-- The names behind a keyword, nothing when there are none. -/
def clause (keyword : String) (names : List String) : List Char :=
  if names = [] then [] else ' ' :: (keyword.toList ++ ' ' :: typeList names)

/-- The part of the pattern for bases that reads the interfaces behind them. -/
def interfacesPart : Pattern :=
  inOrder [wordEdge, Pattern.word "implements", someSpace,
    group .interfaces (run fun _ => true)]

/-- Where neither the interfaces begin nor the text ends, nothing leads on. -/
theorem ends_interfaces_eq_nil {cursor : Cursor} (hne : cursor.rest ≠ [])
    (h : cursor.atWordEdge = true → ∀ c back, isBlank c = true →
      cursor.rest ≠ "implements".toList ++ c :: back) :
    (seq (opt interfacesPart) textEnd).ends cursor = [] := by
  have hnone : interfacesPart.ends cursor = [] := by
    refine List.eq_nil_iff_forall_not_mem.mpr fun next hnext => ?_
    obtain ⟨hedge, c, back, hc, hrest⟩ := exists_of_mem_ends_keyword hnext
    exact h hedge c back hc hrest
  simp [ends, hnone, hne]

/-- The interfaces are read up to the end of the text. -/
theorem preferred?_interfaces {cursor opened : Cursor} {list : List Char}
    (hedge : cursor.atWordEdge = true) (h : cursor.rest = "implements".toList ++ ' ' :: list)
    (hlist : ∀ c ∈ list.head?, isBlank c = false)
    (hopened : opened = cursor.beyond ("implements".toList ++ [' ']) list) :
    interfacesPart.preferred? cursor =
      some ((opened.beyond list []).record .interfaces opened.offset) := by
  subst hopened
  exact preferred?_keyword hedge h hlist (preferred?_group .interfaces
    (preferred?_run (fun _ _ => rfl) (by simp) (List.append_nil list).symm))

/-- No bases begin in a list of interfaces. -/
theorem find?_extendsPattern_eq_none {names : List String}
    (h : ∀ name ∈ names, IsParentName name) :
    extendsPattern.find? ("implements".toList ++ ' ' :: typeList names) = none := by
  by_contra hsome
  obtain ⟨found, hfound⟩ := Option.ne_none_iff_exists'.mp hsome
  obtain ⟨skipped, read, tail, htext, hoccurs⟩ :=
    @occurs_of_findFrom extendsPattern [] _ found hfound
  obtain ⟨-, c, back, hc, hread⟩ := exists_of_mem_ends_keyword hoccurs.ends
  have hplace : "implements".toList ++ ' ' :: typeList names =
      skipped ++ "extends".toList ++ c :: back := by
    rw [htext, List.append_assoc, List.append_assoc]
    exact congrArg _ hread
  -- White space in the list stands behind a comma, and that in front of it behind another keyword.
  rcases append_cons_eq_append_cons hplace with
    ⟨between, hbetween⟩ | ⟨hkeyword, -⟩ | ⟨between, hbetween, hlist⟩
  · have hmem : c ∈ "implements".toList := hbetween ▸ List.mem_append_cons_self
    have hletters : "implements".toList.any isBlank = false := by decide
    exact List.any_eq_false.mp hletters c hmem hc
  · have hsuffix : "extends".toList <:+ "implements".toList := ⟨skipped, hkeyword.symm⟩
    exact absurd hsuffix (by decide)
  · have hspace : ' ' :: typeList names = (' ' :: between) ++ c :: back := by
      rw [hlist, List.cons_append]
    rcases blank_typeList h hc hspace with hnil | hlast
    · cases hnil
    · have hend := congrArg List.getLast? hbetween
      rw [List.getLast?_append_of_ne_nil _ (by decide), List.getLast?_append, hlast] at hend
      exact absurd hend (by decide)

/-- The parents in a stretch that a group covers are those of its text. -/
theorem parentsIn_eq {text head body tail : List Char} {cursor : Cursor} {found : Match}
    {label : Label} (htext : text = head ++ body ++ tail) (hbehind : cursor.Behind head)
    (hspan : found.span? label = some ⟨cursor.offset, (cursor.beyond body tail).offset⟩) :
    parentsIn text found label = parents body := by
  simp only [parentsIn, hspan]
  rw [hbehind.offset_eq, (hbehind.beyond body tail).offset_eq, htext, slice_append]

/-- A list of interfaces alone is read back. -/
theorem heritage_implements {names : List String} (hne : names ≠ [])
    (h : ∀ name ∈ names, IsParentName name) :
    heritage .extendsImplements (' ' :: ("implements".toList ++ ' ' :: typeList names)) =
      { interfaces := names } := by
  obtain ⟨hlist, hhead, hlast⟩ := ends_typeList hne h
  have hbases := find?_extendsPattern_eq_none h
  have htrim : trim (' ' :: ("implements".toList ++ ' ' :: typeList names)) =
      "implements".toList ++ ' ' :: typeList names := by
    refine trim_space (by simp; decide) ?_
    rwa [List.append_cons, List.getLast?_append_of_ne_nil _ hlist]
  have hbehind := (Cursor.behind_ofText ("implements".toList ++ ' ' :: typeList names)).beyond
    ("implements".toList ++ [' ']) (typeList names)
  generalize hopened : (Cursor.ofText _).beyond _ _ = opened at hbehind
  have hinterfaces : implementsPattern.find? ("implements".toList ++ ' ' :: typeList names) =
      some ⟨0, (opened.beyond (typeList names) []).record .interfaces opened.offset⟩ := by
    refine find?_of_preferred? (preferred?_keyword rfl rfl hhead ?_)
    rw [hopened]
    refine preferred?_seq (preferred?_group .interfaces
      (preferred?_run (fun _ _ => rfl) (by simp) ?_)) (preferred?_textEnd rfl)
    rw [← hopened]
    exact (List.append_nil _).symm
  have hparents : parentsIn ("implements".toList ++ ' ' :: typeList names)
      ⟨0, (opened.beyond (typeList names) []).record .interfaces opened.offset⟩ .interfaces =
        names := by
    rw [parentsIn_eq (by simp) hbehind rfl, parents_typeList h]
  rw [heritage, htrim]
  simp only [hbases, hinterfaces, hparents]

section Bases

variable {names interfaces : List String} {cursor : Cursor}

/-- Within the list of bases nothing leads on. -/
theorem ends_within_bases (h : ∀ name ∈ names, IsParentName name) {front back tail : List Char}
    (hfront : front <+: typeList names) (hback : back ≠ []) (htail : ∀ c ∈ tail.head?, c = ' ')
    (htext : typeList names ++ tail = front ++ back) :
    (seq (opt interfacesPart) textEnd).ends
      ((cursor.beyond front back).record .bases cursor.offset) = [] := by
  refine ends_interfaces_eq_nil hback fun hedge c behind hc hrest => ?_
  change back = _ at hrest
  refine typeList_append_ne h hfront (fun d hd => ?_) htail hc (htext.trans (congrArg _ hrest))
  have hword : isWord 'i' = true := by decide
  have hlast : front.getLast? = some d := hd
  simpa [Cursor.atWordEdge, Cursor.record, Cursor.beyond, hrest, hlast, hword] using hedge

/-- A list of bases up to the end of the text is read. -/
theorem preferred?_bases (h : ∀ name ∈ names, IsParentName name)
    (hrest : cursor.rest = typeList names) :
    (seq (group .bases (fewest fun _ => true)) (seq (opt interfacesPart) textEnd)).preferred?
        cursor =
      some ((cursor.beyond (typeList names) []).record .bases cursor.offset) := by
  refine preferred?_group_fewest .bases (hrest.trans (List.append_nil _).symm) (fun _ _ => rfl)
    (fun front back hsplit hback => ?_) ?_
  · rw [List.append_nil]
    exact ends_within_bases h ⟨back, hsplit.symm⟩ hback (by simp)
      ((List.append_nil _).trans hsplit)
  · have hnone : interfacesPart.ends
        ((cursor.beyond (typeList names) []).record .bases cursor.offset) = [] := by
      refine List.eq_nil_iff_forall_not_mem.mpr fun next hnext => ?_
      obtain ⟨-, c, back, -, hnil⟩ := exists_of_mem_ends_keyword hnext
      cases hnil
    exact preferred?_seq (preferred?_opt_of_ends_eq_nil hnone) (preferred?_textEnd rfl)

/-- A list of bases up to the interfaces is read, and the interfaces behind it. -/
theorem preferred?_bases_interfaces (h : ∀ name ∈ names, IsParentName name)
    {list : List Char} (hlist : ∀ c ∈ list.head?, isBlank c = false)
    (hrest : cursor.rest = typeList names ++ ' ' :: ("implements".toList ++ ' ' :: list))
    {opened : Cursor}
    (hopened : opened = ((cursor.beyond (typeList names ++ [' '])
      ("implements".toList ++ ' ' :: list)).record .bases cursor.offset).beyond
        ("implements".toList ++ [' ']) list) :
    (seq (group .bases (fewest fun _ => true)) (seq (opt interfacesPart) textEnd)).preferred?
        cursor =
      some ((opened.beyond list []).record .interfaces opened.offset) := by
  refine preferred?_group_fewest .bases (hrest.trans (List.append_cons _ _ _)) (fun _ _ => rfl)
    (fun front back hsplit hback => ?_) ?_
  · -- The run stops earlier only within the list, where nothing leads on.
    have hfront : front <+: typeList names := by
      have hstart : front <+: typeList names ++ [' '] := ⟨back, hsplit.symm⟩
      refine (List.prefix_concat_iff.mp hstart).resolve_left fun hall => hback ?_
      simpa [hall] using hsplit
    have htext : typeList names ++ ' ' :: ("implements".toList ++ ' ' :: list) =
        front ++ (back ++ ("implements".toList ++ ' ' :: list)) := by
      rw [List.append_cons, hsplit, List.append_assoc]
    exact ends_within_bases h hfront (by simp) (by simp) htext
  · have hedge : ((cursor.beyond (typeList names ++ [' '])
        ("implements".toList ++ ' ' :: list)).record .bases cursor.offset).atWordEdge = true := by
      simp [Cursor.atWordEdge, Cursor.record, Cursor.beyond]
      decide
    exact preferred?_seq (preferred?_opt (preferred?_interfaces hedge rfl hlist hopened))
      (preferred?_textEnd rfl)

/-- A match of the pattern for bases tells both lists. -/
theorem heritage_of_find? {text body : List Char} {found : Match} (htrim : trim text = body)
    (hfound : extendsPattern.find? body = some found) :
    heritage .extendsImplements text =
      { bases := parentsIn body found .bases
        interfaces := parentsIn body found .interfaces } := by
  simp only [heritage, htrim, hfound]

/-- A list of bases alone is read back. -/
theorem heritage_extends (hne : names ≠ []) (h : ∀ name ∈ names, IsParentName name) :
    heritage .extendsImplements (' ' :: ("extends".toList ++ ' ' :: typeList names)) =
      { bases := names } := by
  obtain ⟨hlist, hhead, hlast⟩ := ends_typeList hne h
  have htrim : trim (' ' :: ("extends".toList ++ ' ' :: typeList names)) =
      "extends".toList ++ ' ' :: typeList names := by
    refine trim_space (by simp; decide) ?_
    rwa [List.append_cons, List.getLast?_append_of_ne_nil _ hlist]
  have hbehind := (Cursor.behind_ofText ("extends".toList ++ ' ' :: typeList names)).beyond
    ("extends".toList ++ [' ']) (typeList names)
  have hfound : extendsPattern.find? ("extends".toList ++ ' ' :: typeList names) = some ⟨0, _⟩ :=
    find?_of_preferred? (preferred?_keyword rfl rfl hhead (preferred?_bases h rfl))
  rw [heritage_of_find? htrim hfound, parentsIn_eq (by simp) hbehind rfl, parents_typeList h]
  rfl

/-- A list of bases and a list of interfaces behind it are read back. -/
theorem heritage_extends_implements (hne : names ≠ []) (h : ∀ name ∈ names, IsParentName name)
    (hne' : interfaces ≠ []) (h' : ∀ name ∈ interfaces, IsParentName name) :
    heritage .extendsImplements (' ' :: ("extends".toList ++ ' ' ::
        (typeList names ++ ' ' :: ("implements".toList ++ ' ' :: typeList interfaces)))) =
      { bases := names, interfaces := interfaces } := by
  obtain ⟨hlist, hhead, -⟩ := ends_typeList hne h
  obtain ⟨hlist', hhead', hlast'⟩ := ends_typeList hne' h'
  generalize hbody : "extends".toList ++ ' ' ::
    (typeList names ++ ' ' :: ("implements".toList ++ ' ' :: typeList interfaces)) = body
  have hbases : body = ("extends".toList ++ [' ']) ++ (typeList names ++ [' ']) ++
      ("implements".toList ++ ' ' :: typeList interfaces) := by simp [← hbody]
  have hinterfaces : body = ("extends".toList ++ [' ']) ++ (typeList names ++ [' ']) ++
      ("implements".toList ++ [' ']) ++ typeList interfaces := by simp [← hbody]
  have htrim : trim (' ' :: body) = body := by
    refine trim_space (by rw [← hbody]; simp; decide) ?_
    rwa [hinterfaces, List.getLast?_append_of_ne_nil _ hlist']
  have hbehind := (Cursor.behind_ofText body).beyond ("extends".toList ++ [' '])
    (typeList names ++ ' ' :: ("implements".toList ++ ' ' :: typeList interfaces))
  have hedge : (Cursor.ofText body).atWordEdge = true := by
    rw [← hbody]
    rfl
  have hfirst : ∀ c ∈ (typeList names ++ ' ' ::
      ("implements".toList ++ ' ' :: typeList interfaces)).head?, isBlank c = false := by
    rwa [List.head?_append_of_ne_nil _ hlist]
  have hfound : extendsPattern.find? body = some ⟨0, _⟩ :=
    find?_of_preferred? (preferred?_keyword hedge hbody.symm hfirst
      (preferred?_bases_interfaces h hhead' rfl rfl))
  -- The bases are read together with the space behind them.
  generalize (Cursor.ofText body).beyond _ _ = opened at hbehind hfound
  have hbehind' := ((hbehind.beyond (typeList names ++ [' '])
    ("implements".toList ++ ' ' :: typeList interfaces)).record .bases opened.offset).beyond
      ("implements".toList ++ [' ']) (typeList interfaces)
  rw [heritage_of_find? htrim hfound, parentsIn_eq hbases hbehind rfl,
    parentsIn_eq (hinterfaces.trans (List.append_nil _).symm) hbehind' rfl, parents_append_space,
    parents_typeList h, parents_typeList h']

end Bases

/-- Bases and interfaces behind their keywords are read back. -/
theorem heritage_clauses {bases interfaces : List String}
    (hbases : ∀ name ∈ bases, IsParentName name)
    (hinterfaces : ∀ name ∈ interfaces, IsParentName name) :
    heritage .extendsImplements (clause "extends" bases ++ clause "implements" interfaces) =
      { bases := bases, interfaces := interfaces } := by
  by_cases hnone : bases = []
  · subst hnone
    by_cases hnone' : interfaces = []
    · subst hnone'
      rfl
    · simpa [clause, hnone'] using heritage_implements hnone' hinterfaces
  · by_cases hnone' : interfaces = []
    · subst hnone'
      simpa [clause, hnone] using heritage_extends hnone hbases
    · simpa [clause, hnone, hnone'] using
        heritage_extends_implements hnone hbases hnone' hinterfaces

/-! ## All styles -/

/-- The names of parents are read back exactly, in each style of heritage. -/
theorem heritage_read_back (bases interfaces : List String)
    (hbases : ∀ name ∈ bases, IsParentName name)
    (hinterfaces : ∀ name ∈ interfaces, IsParentName name) :
    heritage .extendsImplements (clause "extends" bases ++ clause "implements" interfaces) =
        { bases := bases, interfaces := interfaces } ∧
      (∀ list : List Parent, list.map (·.name) = bases →
        (∀ parent ∈ list, ∀ qualifier ∈ parent.qualifier?,
          qualifier ∈ ["public", "private", "protected", "virtual"]) →
        heritage .colon (' ' :: ':' :: ' ' :: parentList list) =
          { bases := bases.filter fun name => ¬ IsInterfaceName name
            interfaces := bases.filter fun name => IsInterfaceName name }) ∧
      heritage .parenthesized ('(' :: typeList bases ++ [')']) = { bases := bases } := by
  refine ⟨heritage_clauses hbases hinterfaces, ?_, heritage_parenthesized hbases⟩
  rintro list rfl hqualified
  exact heritage_colon fun parent hparent =>
    ⟨hbases parent.name (List.mem_map_of_mem hparent), hqualified parent hparent⟩

/-- Type arguments, qualified names and several parents behind each kind of heading. -/
theorem heritage_read_back_nested :
    heritage .extendsImplements
        " extends Map<K,List<V>>, a.b.IShape, IShape implements Fn<A,B>".toList =
        { bases := ["Map<K,List<V>>", "a.b.IShape", "IShape"], interfaces := ["Fn<A,B>"] } ∧
      heritage .colon " : public Map<K,List<V>>, a.b.IShape, virtual IShape".toList =
        { bases := ["Map<K,List<V>>", "a.b.IShape"], interfaces := ["IShape"] } ∧
      heritage .parenthesized "(Map<K,List<V>>, a.b.IShape, IShape)".toList =
        { bases := ["Map<K,List<V>>", "a.b.IShape", "IShape"] } := by
  have hbases : ∀ name ∈ ["Map<K,List<V>>", "a.b.IShape", "IShape"], IsParentName name := by
    simp only [List.forall_mem_cons]
    exact ⟨by decide, by decide, by decide, by simp⟩
  have hinterfaces : ∀ name ∈ ["Fn<A,B>"], IsParentName name :=
    List.forall_mem_singleton.mpr (by decide)
  obtain ⟨hclauses, hcolon, hparenthesized⟩ := heritage_read_back _ _ hbases hinterfaces
  have hqualified :=
    hcolon [⟨some "public", _⟩, ⟨none, _⟩, ⟨some "virtual", _⟩] rfl (by simp)
  refine ⟨by simpa [clause, typeList] using hclauses, ?_,
    by simpa [typeList] using hparenthesized⟩
  simpa [parentList, Parent.render, IsInterfaceName] using hqualified

end CodeQuality.Signature
