import CodeQuality.Proofs.Scan.Trivia

/-!
# Code positions

The code positions of a scan are the offsets it stands at where no literal or comment begins. They
come in increasing order, and a bracket search reads nothing else: its answer is a function of the
code positions and their bytes. What a search looks for is the first position with some property
of the code before it, which is the least such offset.
-/

namespace CodeQuality.Scan

/-! ## The offsets a scan stands at -/

/-- A scan that stands at the first offset comes to stand at the second. -/
inductive Visits (bytes : List UInt8) (style : CommentStyle) : Nat → Nat → Prop
  | here {offset} : Visits bytes style offset offset
  | jumped {offset later} (hlt : offset < bytes.length)
      (hopen : offset < triviaEnd bytes offset style)
      (rest : Visits bytes style (triviaEnd bytes offset style) later) :
      Visits bytes style offset later
  | onward {offset later} (hlt : offset < bytes.length)
      (hcode : triviaEnd bytes offset style = offset)
      (rest : Visits bytes style (offset + 1) later) : Visits bytes style offset later

section Positions

variable {bytes : List UInt8} {style : CommentStyle}

/-- What is left of a literal or comment holds no code. -/
theorem codeFrom_skip (skip offset : Nat) :
    codeFrom style skip (byteBefore bytes offset) offset (bytes.drop offset) =
      codePositions bytes (offset + skip) style := by
  induction skip generalizing offset with
  | zero => rfl
  | succ skip ih =>
    rcases Nat.lt_or_ge offset bytes.length with hlt | hge
    · have hbefore : some bytes[offset] = byteBefore bytes (offset + 1) := by
        rw [byteBefore, List.getElem?_eq_getElem hlt]
      rw [List.drop_eq_getElem_cons hlt, codeFrom, hbefore, ih, Nat.add_right_comm, Nat.add_assoc]
    · rw [codePositions, List.drop_of_length_le hge, List.drop_of_length_le (by omega)]
      rfl

/-- Behind the last byte there is no code. -/
theorem codePositions_of_length_le {offset : Nat} (h : bytes.length ≤ offset) :
    codePositions bytes offset style = [] := by
  rw [codePositions, List.drop_of_length_le h]
  rfl

/-- A literal or comment holds no code. -/
theorem codePositions_of_lt_triviaEnd {offset : Nat} (hlt : offset < bytes.length)
    (h : offset < triviaEnd bytes offset style) :
    codePositions bytes offset style =
      codePositions bytes (triviaEnd bytes offset style) style := by
  have hbefore : some bytes[offset] = byteBefore bytes (offset + 1) := by
    rw [byteBefore, List.getElem?_eq_getElem hlt]
  rw [triviaEnd, List.drop_eq_getElem_cons hlt] at h ⊢
  obtain ⟨n, hn⟩ := Nat.exists_eq_add_one.mpr (Nat.lt_add_right_iff_pos.mp h)
  rw [codePositions, List.drop_eq_getElem_cons hlt, codeFrom, hn]
  simp only
  rw [hbefore, codeFrom_skip, Nat.add_right_comm, Nat.add_assoc]

/-- Where none begins the offset is the first code position. -/
theorem codePositions_of_triviaEnd_eq {offset : Nat} {b : UInt8} (hb : bytes[offset]? = some b)
    (h : triviaEnd bytes offset style = offset) :
    codePositions bytes offset style = (offset, b) :: codePositions bytes (offset + 1) style := by
  obtain ⟨hlt, rfl⟩ := List.getElem?_eq_some_iff.mp hb
  rw [triviaEnd, List.drop_eq_getElem_cons hlt] at h
  have hzero : triviaLength style (byteBefore bytes offset)
      (bytes[offset] :: bytes.drop (offset + 1)) = 0 := by omega
  rw [codePositions, List.drop_eq_getElem_cons hlt, codeFrom, hzero]
  simp only [codePositions, byteBefore, hb]

/-- The code positions are the offsets that the scan stands at, where there is a byte and no literal
or comment begins. -/
theorem mem_codePositions {start offset : Nat} {b : UInt8} :
    (offset, b) ∈ codePositions bytes start style ↔
      Visits bytes style start offset ∧ bytes[offset]? = some b ∧
        triviaEnd bytes offset style = offset := by
  constructor
  · intro h
    induction start using scan_induction bytes style with
    | ended start hend => simp [codePositions_of_length_le hend] at h
    | jumped start hlt hopen ih =>
      rw [codePositions_of_lt_triviaEnd hlt hopen] at h
      obtain ⟨hvisits, hrest⟩ := ih h
      exact ⟨.jumped hlt hopen hvisits, hrest⟩
    | onward start first hfirst hcode ih =>
      rw [codePositions_of_triviaEnd_eq hfirst hcode] at h
      rcases List.mem_cons.mp h with heq | hlater
      · obtain ⟨rfl, rfl⟩ := Prod.mk.inj heq
        exact ⟨.here, hfirst, hcode⟩
      · obtain ⟨hvisits, hrest⟩ := ih hlater
        exact ⟨.onward (List.getElem?_eq_some_iff.mp hfirst).1 hcode hvisits, hrest⟩
  · rintro ⟨hvisits, hb, hcode⟩
    induction hvisits with
    | here =>
      rw [codePositions_of_triviaEnd_eq hb hcode]
      exact List.mem_cons_self
    | jumped hlt hopen rest ih =>
      rw [codePositions_of_lt_triviaEnd hlt hopen]
      exact ih hb hcode
    | onward hlt hplain rest ih =>
      rw [codePositions_of_triviaEnd_eq (List.getElem?_eq_getElem hlt) hplain]
      exact List.mem_cons_of_mem _ (ih hb hcode)

/-- A scan does not go back. -/
theorem Visits.le {offset later : Nat} (h : Visits bytes style offset later) : offset ≤ later := by
  induction h with
  | here => exact Nat.le_refl _
  | jumped hlt hopen rest ih => omega
  | onward hlt hcode rest ih => omega

/-- The code positions come in increasing order. -/
theorem pairwise_codePositions (bytes : List UInt8) (start : Nat) (style : CommentStyle) :
    (codePositions bytes start style).Pairwise fun p q => p.1 < q.1 := by
  induction start using scan_induction bytes style with
  | ended start hend =>
    rw [codePositions_of_length_le hend]
    exact .nil
  | jumped start hlt hopen ih => rwa [codePositions_of_lt_triviaEnd hlt hopen]
  | onward start b hb hcode ih =>
    rw [codePositions_of_triviaEnd_eq hb hcode]
    refine .cons ?_ ih
    intro later hlater
    exact (mem_codePositions.mp hlater).1.le

end Positions

/-! ## Searches read code positions -/

section Reading

variable {σ : Type} (step : σ → UInt8 → Step σ)

/-- The answer of a search that reads the given code from a state on. -/
def readCode : σ → List (Nat × UInt8) → Option Nat
  | _, [] => none
  | state, (offset, b) :: rest =>
    match step state b with
    | .onward next => readCode next rest
    | .found => some offset
    | .absent => none

/-- A search reads the code positions and nothing else. -/
theorem searchFrom_eq_readCode (style : CommentStyle) (skip : Nat) (before : Option UInt8)
    (offset : Nat) (bytes : List UInt8) (state : σ) :
    searchFrom style step skip before offset bytes state =
      readCode step state (codeFrom style skip before offset bytes) := by
  fun_induction searchFrom style step skip before offset bytes state with
  | case1 => simp [codeFrom, readCode]
  | case2 skip before offset b rest state ih => rw [ih, codeFrom]
  | case3 before offset b rest state n htrivia ih => rw [ih, codeFrom, htrivia]
  | case4 before offset b rest state htrivia next hnext ih =>
    simp only [ih, codeFrom, htrivia, readCode, hnext]
  | case5 before offset b rest state htrivia hfound =>
    simp only [codeFrom, htrivia, readCode, hfound]
  | case6 before offset b rest state htrivia habsent =>
    simp only [codeFrom, htrivia, readCode, habsent]

/-- A search reads the code positions from its start on. -/
theorem search_eq_readCode (bytes : List UInt8) (start : Nat) (style : CommentStyle) (state : σ) :
    search step bytes start style state = readCode step state (codePositions bytes start style) :=
  searchFrom_eq_readCode step style 0 _ start _ state

end Reading

/-! ## First positions -/

/-- The code before an offset. -/
def codeBefore (code : List (Nat × UInt8)) (offset : Nat) : List (Nat × UInt8) :=
  code.filter fun p => p.1 < offset

/-- The code falls into a head, the first position that has a property together with the code
before it, and a tail. -/
structure FirstAt (Has : List (Nat × UInt8) → Nat × UInt8 → Prop) (code head : List (Nat × UInt8))
    (position : Nat × UInt8) (tail : List (Nat × UInt8)) : Prop where
  split : code = head ++ position :: tail
  has : Has head position
  before : ∀ front earlier back, head = front ++ earlier :: back → ¬ Has front earlier

section FirstAt

variable {Has : List (Nat × UInt8) → Nat × UInt8 → Prop} {code head tail : List (Nat × UInt8)}

/-- Without code there is no first position. -/
theorem not_firstAt_nil {position : Nat × UInt8} : ¬ FirstAt Has [] head position tail := by
  intro h
  simpa using h.split

/-- A position that has the property with no code before it is the first one. -/
theorem firstAt_cons_of_has {p position : Nat × UInt8} (h : Has [] p) :
    FirstAt Has (p :: code) head position tail ↔ head = [] ∧ position = p ∧ tail = code := by
  constructor
  · rintro ⟨hsplit, hhas, hbefore⟩
    cases head with
    | nil =>
      obtain ⟨rfl, rfl⟩ : p = position ∧ code = tail := by simpa using hsplit
      exact ⟨rfl, rfl, rfl⟩
    | cons first more =>
      obtain ⟨rfl, -⟩ : p = first ∧ code = more ++ position :: tail := by simpa using hsplit
      exact absurd h (hbefore [] p more rfl)
  · rintro ⟨rfl, rfl, rfl⟩
    exact ⟨rfl, h, fun front earlier back hnil => by simp at hnil⟩

/-- Behind a position without the property the first one is that of the rest, where the code
before is longer by the position. -/
theorem firstAt_cons_of_not {p position : Nat × UInt8} (h : ¬ Has [] p) :
    FirstAt Has (p :: code) head position tail ↔
      ∃ more, head = p :: more ∧
        FirstAt (fun front => Has (p :: front)) code more position tail := by
  constructor
  · rintro ⟨hsplit, hhas, hbefore⟩
    cases head with
    | nil =>
      obtain ⟨rfl, -⟩ : p = position ∧ code = tail := by simpa using hsplit
      exact absurd hhas h
    | cons first more =>
      obtain ⟨rfl, rfl⟩ : p = first ∧ code = more ++ position :: tail := by simpa using hsplit
      refine ⟨more, rfl, rfl, hhas, ?_⟩
      intro front earlier back hmore
      exact hbefore (p :: front) earlier back (by rw [hmore, List.cons_append])
  · rintro ⟨more, rfl, hsplit, hhas, hbefore⟩
    refine ⟨by rw [hsplit, List.cons_append], hhas, ?_⟩
    intro front earlier back hfront
    cases front with
    | nil =>
      obtain ⟨rfl, -⟩ : p = earlier ∧ more = back := by simpa using hfront
      exact h
    | cons first front =>
      obtain ⟨rfl, hmore⟩ : p = first ∧ more = front ++ earlier :: back := by simpa using hfront
      exact hbefore front earlier back hmore

/-- In increasing order the code before a position is the head in front of it. -/
theorem codeBefore_append {offset : Nat} {b : UInt8}
    (hsorted : (head ++ (offset, b) :: tail).Pairwise fun p q => p.1 < q.1) :
    codeBefore (head ++ (offset, b) :: tail) offset = head := by
  obtain ⟨-, hrest, hcross⟩ := List.pairwise_append.mp hsorted
  have hhead : head.filter (fun p => p.1 < offset) = head := by
    rw [List.filter_eq_self]
    intro p hp
    simpa using hcross p hp _ List.mem_cons_self
  have htail : tail.filter (fun p => p.1 < offset) = [] := by
    rw [List.filter_eq_nil_iff]
    intro p hp
    have hlater := (List.pairwise_cons.mp hrest).1 p hp
    simp only at hlater
    simp only [decide_eq_true_eq]
    omega
  simp [codeBefore, hhead, htail]

/-- In increasing order the first position with a property is the one with the least offset. -/
theorem exists_firstAt_iff (hsorted : code.Pairwise fun p q => p.1 < q.1) {offset : Nat}
    {b : UInt8} :
    (∃ head tail, FirstAt Has code head (offset, b) tail) ↔
      (offset, b) ∈ code ∧ Has (codeBefore code offset) (offset, b) ∧
        ∀ earlier c, (earlier, c) ∈ code → Has (codeBefore code earlier) (earlier, c) →
          offset ≤ earlier := by
  constructor
  · rintro ⟨head, tail, rfl, hhas, hbefore⟩
    obtain ⟨-, hrest, hcross⟩ := List.pairwise_append.mp hsorted
    refine ⟨by simp, by rwa [codeBefore_append hsorted], ?_⟩
    intro earlier c hmem hearlier
    rcases List.mem_append.mp hmem with hhead | hlater
    · obtain ⟨front, back, rfl⟩ := List.append_of_mem hhead
      rw [List.append_assoc, List.cons_append] at hsorted hearlier
      rw [codeBefore_append hsorted] at hearlier
      exact absurd hearlier (hbefore front (earlier, c) back rfl)
    · rcases List.mem_cons.mp hlater with heq | htail
      · exact Nat.le_of_eq (congrArg Prod.fst heq).symm
      · exact Nat.le_of_lt ((List.pairwise_cons.mp hrest).1 _ htail)
  · rintro ⟨hmem, hhas, hleast⟩
    obtain ⟨head, tail, rfl⟩ := List.append_of_mem hmem
    rw [codeBefore_append hsorted] at hhas
    refine ⟨head, tail, rfl, hhas, ?_⟩
    rintro front ⟨earlier, c⟩ back rfl hearlier
    have hlt : earlier < offset :=
      (List.pairwise_append.mp hsorted).2.2 (earlier, c) (by simp) (offset, b) (by simp)
    have hle : offset ≤ earlier := by
      apply hleast earlier c (by simp)
      rw [List.append_assoc, List.cons_append] at hsorted ⊢
      rwa [codeBefore_append hsorted]
    omega

end FirstAt

end CodeQuality.Scan
