import CodeQuality.Proofs.Duplication.Groups
import CodeQuality.Proofs.Duplication.Windows
import Mathlib.Data.List.Nodup
import Mathlib.Data.Prod.Lex

/-!
# Repeated blocks

The windows of one size are grouped by their digests, and a group of two or more is a block. The
blocks of all sizes are sorted by their first lines and sizes. No two blocks agree in both, because
only one window of a size begins at a line, so the list does not depend on the order in which the
blocks were collected.

As long as different windows of a size have different digests, the blocks are those of the windows
that begin at more than one line.
-/

namespace CodeQuality

open Text

/-! ## Blocks of one size -/

/-- The block lists the lines at which the windows of its size with its digest begin, and there are
at least two. -/
structure IsBlock (lines : List (List Char)) (block : DuplicateBlock) : Prop where
  starts : block.starts = startsOf block.size lines block.digest
  repeated : 2 ≤ block.starts.length

/-- Entries with one digest are a block when there are at least two. -/
theorem blockOf?_group {size : Nat} {digest : String} {group : List (String × Nat)}
    (hgroup : ∀ entry ∈ group, entry.1 = digest) :
    blockOf? size group =
      if 2 ≤ group.length then some ⟨digest, size, group.map Prod.snd⟩ else none := by
  match group, hgroup with
  | [], _ => rfl
  | [_], _ => rfl
  | (first, start) :: second :: rest, hgroup =>
    have hdigest : first = digest := hgroup (first, start) List.mem_cons_self
    simp [blockOf?, hdigest]

/-- The blocks of a size come from the groups of its digests, each of them once. -/
theorem exists_digests_blocksOfSize (size : Nat) (lines : List (List Char)) :
    ∃ keys : List String, keys.Nodup ∧ (∀ d, d ∈ keys ↔ d ∈ (digests size lines).map Prod.fst) ∧
      blocksOfSize size lines = keys.filterMap fun d =>
        blockOf? size ((digests size lines).filter fun entry => entry.1 = d) := by
  have htrans : ∀ a b c : String, a ≤ b → b ≤ c → a ≤ c := fun _ _ _ => String.le_trans
  have hsorted := pairwise_mergeSort_key Prod.fst htrans String.le_total (digests size lines)
  obtain ⟨keys, hnodup, hkeys, hcut⟩ :=
    exists_keys_splitBy (fun _ _ => String.le_antisymm) hsorted
  refine ⟨keys, hnodup, ?_, ?_⟩
  · intro d
    rw [hkeys]
    exact ((List.mergeSort_perm _ _).map Prod.fst).mem_iff
  · rw [blocksOfSize, hcut, List.filterMap_map]
    apply List.filterMap_congr
    intro d _
    rw [Function.comp_apply, filter_mergeSort_key Prod.fst htrans String.le_total]

/-- The group of a digest gives the block of that digest, if any. -/
theorem blockOf?_filter_eq_some_iff {size : Nat} {lines : List (List Char)} {digest : String}
    {block : DuplicateBlock} :
    blockOf? size ((digests size lines).filter fun entry => entry.1 = digest) = some block ↔
      block.digest = digest ∧ block.size = size ∧ IsBlock lines block := by
  have hgroup : ∀ entry ∈ (digests size lines).filter (fun entry => entry.1 = digest),
      entry.1 = digest := by
    intro entry hentry
    simpa using (List.mem_filter.mp hentry).2
  have hlength : ((digests size lines).filter fun entry => entry.1 = digest).length =
      (startsOf size lines digest).length := by simp [startsOf]
  rw [blockOf?_group hgroup, hlength]
  constructor
  · intro h
    split at h
    · rename_i htwo
      obtain rfl := Option.some.inj h
      exact ⟨rfl, rfl, rfl, htwo⟩
    · cases h
  · rintro ⟨rfl, rfl, hstarts, hrepeated⟩
    rw [hstarts] at hrepeated
    rw [if_pos hrepeated]
    exact congrArg (fun starts => some (DuplicateBlock.mk block.digest block.size starts))
      hstarts.symm

/-- The blocks of a size, each of them once. -/
theorem mem_blocksOfSize {size : Nat} {lines : List (List Char)} {block : DuplicateBlock} :
    block ∈ blocksOfSize size lines ↔ block.size = size ∧ IsBlock lines block := by
  obtain ⟨keys, -, hkeys, hblocks⟩ := exists_digests_blocksOfSize size lines
  simp only [hblocks, List.mem_filterMap, blockOf?_filter_eq_some_iff]
  constructor
  · rintro ⟨digest, -, -, hblock⟩
    exact hblock
  · rintro ⟨rfl, hblock⟩
    refine ⟨block.digest, ?_, rfl, rfl, hblock⟩
    -- A block is not empty, so its digest is one of the text.
    have hlength := hblock.repeated
    rw [hblock.starts, startsOf, List.length_map] at hlength
    obtain ⟨entry, hentry⟩ := List.exists_mem_of_length_pos (Nat.lt_of_lt_of_le Nat.two_pos hlength)
    obtain ⟨hmem, hdigest⟩ := List.mem_filter.mp hentry
    rw [hkeys, List.mem_map]
    exact ⟨entry, hmem, by simpa using hdigest⟩

theorem nodup_blocksOfSize (size : Nat) (lines : List (List Char)) :
    (blocksOfSize size lines).Nodup := by
  obtain ⟨keys, hnodup, -, hblocks⟩ := exists_digests_blocksOfSize size lines
  rw [hblocks]
  refine List.Nodup.filterMap ?_ hnodup
  intro a b block ha hb
  exact (blockOf?_filter_eq_some_iff.mp ha).1.symm.trans (blockOf?_filter_eq_some_iff.mp hb).1

/-! ## Blocks of all sizes -/

/-- Where the block stands in the list: its first line, then its size. -/
def DuplicateBlock.place (block : DuplicateBlock) : ℕ ×ₗ ℕ :=
  toLex (block.starts.headD 0, block.size)

/-- Blocks are compared by their places. -/
theorem DuplicateBlock.le_eq (a b : DuplicateBlock) : a.le b = decide (a.place ≤ b.place) := by
  rw [Bool.eq_iff_iff]
  simp [DuplicateBlock.le, DuplicateBlock.place, Prod.Lex.toLex_le_toLex]

/-- A window of the block begins at its first line. -/
theorem IsBlock.exists_window {lines : List (List Char)} {block : DuplicateBlock}
    (h : IsBlock lines block) (hsize : 0 < block.size) :
    ∃ window, window.length = block.size ∧ StartsAt lines window (block.starts.headD 0) ∧
      windowDigest window = block.digest := by
  rw [← mem_startsOf hsize, ← h.starts]
  have hrepeated := h.repeated
  cases hstarts : block.starts with
  | nil => simp [hstarts] at hrepeated
  | cons first rest => exact List.mem_cons_self

/-- Blocks of one size with one digest are the same. -/
theorem IsBlock.eq_of_digest_eq {lines : List (List Char)} {a b : DuplicateBlock}
    (ha : IsBlock lines a) (hb : IsBlock lines b) (hsize : a.size = b.size)
    (hdigest : a.digest = b.digest) : a = b := by
  have hstarts : a.starts = b.starts := by rw [ha.starts, hb.starts, hsize, hdigest]
  cases a
  cases b
  simp_all

/-- Blocks of one size that begin at the same line are the same. -/
theorem IsBlock.eq_of_place_eq {lines : List (List Char)} {a b : DuplicateBlock}
    (ha : IsBlock lines a) (hb : IsBlock lines b) (hsize : 0 < a.size)
    (h : a.place = b.place) : a = b := by
  obtain ⟨hfirst, hsizes⟩ : a.starts.headD 0 = b.starts.headD 0 ∧ a.size = b.size :=
    Prod.mk.inj (toLex.injective h)
  obtain ⟨windowA, hlengthA, hatA, hdigestA⟩ := ha.exists_window hsize
  obtain ⟨windowB, hlengthB, hatB, hdigestB⟩ := hb.exists_window (hsizes ▸ hsize)
  rw [← hfirst] at hatB
  have hwindow : windowA = windowB := hatA.unique hatB (by omega)
  exact ha.eq_of_digest_eq hb hsizes (by rw [← hdigestA, ← hdigestB, hwindow])

/-- The blocks of a text are those of the sizes asked for. -/
theorem mem_duplicateBlocks {text : List Char} {least most : Nat} {block : DuplicateBlock} :
    block ∈ duplicateBlocks text least most ↔
      max least 1 ≤ block.size ∧ block.size ≤ most ∧ IsBlock (lines text) block := by
  simp only [duplicateBlocks, List.mem_mergeSort, List.mem_flatMap, List.mem_filter,
    List.mem_range, mem_blocksOfSize, decide_eq_true_eq]
  constructor
  · rintro ⟨size, ⟨hmost, hleast⟩, rfl, hblock⟩
    exact ⟨hleast, by omega, hblock⟩
  · rintro ⟨hleast, hmost, hblock⟩
    obtain ⟨window, hlength, hat, -⟩ := hblock.exists_window (by omega)
    have hlines := hat.isInfix.length_le
    exact ⟨block.size, ⟨by omega, hleast⟩, rfl, hblock⟩

theorem nodup_duplicateBlocks (text : List Char) (least most : Nat) :
    (duplicateBlocks text least most).Nodup := by
  rw [duplicateBlocks]
  refine (List.mergeSort_perm _ _).nodup_iff.mpr (List.nodup_flatMap.mpr ⟨?_, ?_⟩)
  · intro size _
    exact nodup_blocksOfSize size (lines text)
  · refine (List.nodup_range.filter _).imp ?_
    intro a b hne block hblockA hblockB
    exact hne ((mem_blocksOfSize.mp hblockA).1.symm.trans (mem_blocksOfSize.mp hblockB).1)

/-- Blocks sorted by their places are in the order of their places. -/
theorem pairwise_place_mergeSort (blocks : List DuplicateBlock) :
    (blocks.mergeSort DuplicateBlock.le).Pairwise fun a b => a.place ≤ b.place := by
  have hle : DuplicateBlock.le = fun a b => decide (a.place ≤ b.place) := by
    funext a b
    exact DuplicateBlock.le_eq a b
  have htrans : ∀ a b c : ℕ ×ₗ ℕ, a ≤ b → b ≤ c → a ≤ c := fun _ _ _ => le_trans
  rw [hle]
  exact pairwise_mergeSort_key DuplicateBlock.place htrans le_total blocks

/-- Two blocks of a text with one place are the same. -/
theorem eq_of_mem_duplicateBlocks {text : List Char} {least most : Nat} {a b : DuplicateBlock}
    (ha : a ∈ duplicateBlocks text least most) (hb : b ∈ duplicateBlocks text least most)
    (h : a.place = b.place) : a = b := by
  obtain ⟨hleast, -, hblockA⟩ := mem_duplicateBlocks.mp ha
  obtain ⟨-, -, hblockB⟩ := mem_duplicateBlocks.mp hb
  exact hblockA.eq_of_place_eq hblockB (by omega) h

/-- The blocks are in the strict order of their places. -/
theorem pairwise_place_duplicateBlocks (text : List Char) (least most : Nat) :
    (duplicateBlocks text least most).Pairwise fun a b => a.place < b.place := by
  have hordered : (duplicateBlocks text least most).Pairwise fun a b => a.place ≤ b.place :=
    pairwise_place_mergeSort _
  refine (hordered.and (nodup_duplicateBlocks text least most)).imp_of_mem ?_
  intro a b ha hb hab
  exact lt_of_le_of_ne hab.1 fun heq => hab.2 (eq_of_mem_duplicateBlocks ha hb heq)

/-- Sorting the blocks gives the same list in whichever order they were collected. -/
theorem mergeSort_eq_duplicateBlocks {text : List Char} {least most : Nat}
    {collected : List DuplicateBlock} (h : collected.Perm (duplicateBlocks text least most)) :
    collected.mergeSort DuplicateBlock.le = duplicateBlocks text least most := by
  refine List.Perm.eq_of_pairwise ?_ (pairwise_place_mergeSort collected)
    (pairwise_place_mergeSort _) ((List.mergeSort_perm collected _).trans h)
  intro a b ha hb hab hba
  have hmem : a ∈ duplicateBlocks text least most := h.mem_iff.mp (List.mem_mergeSort.mp ha)
  exact eq_of_mem_duplicateBlocks hmem hb (le_antisymm hab hba)

/-! ## Collecting by digests -/

/-- The entries of a map from sizes and digests to the lines at which the windows with them begin,
in any order. -/
structure IsTally (lines : List (List Char)) (least most : Nat)
    (entries : List ((Nat × String) × List Nat)) : Prop where
  nodup : (entries.map Prod.fst).Nodup
  mem_iff : ∀ size digest starts, ((size, digest), starts) ∈ entries ↔
    max least 1 ≤ size ∧ size ≤ most ∧ starts = startsOf size lines digest ∧ starts ≠ []

/-- The block of an entry with more than one line. -/
def tallyBlock? (entry : (Nat × String) × List Nat) : Option DuplicateBlock :=
  if 1 < entry.2.length then some ⟨entry.1.2, entry.1.1, entry.2⟩ else none

theorem tallyBlock?_eq_some_iff {entry : (Nat × String) × List Nat} {block : DuplicateBlock} :
    tallyBlock? entry = some block ↔
      entry = ((block.size, block.digest), block.starts) ∧ 2 ≤ block.starts.length := by
  obtain ⟨⟨size, digest⟩, starts⟩ := entry
  rw [tallyBlock?]
  constructor
  · intro h
    split at h
    · rename_i htwo
      obtain rfl := Option.some.inj h
      exact ⟨rfl, htwo⟩
    · cases h
  · rintro ⟨heq, htwo⟩
    cases heq
    exact if_pos htwo

/-- The blocks of a map's entries are those of the text. -/
theorem IsTally.perm {text : List Char} {least most : Nat}
    {entries : List ((Nat × String) × List Nat)} (h : IsTally (lines text) least most entries) :
    (entries.filterMap tallyBlock?).Perm (duplicateBlocks text least most) := by
  have hnodup : (entries.filterMap tallyBlock?).Nodup := by
    refine List.Nodup.filterMap ?_ h.nodup.of_map
    intro a b block ha hb
    rw [(tallyBlock?_eq_some_iff.mp ha).1, (tallyBlock?_eq_some_iff.mp hb).1]
  rw [List.perm_ext_iff_of_nodup hnodup (nodup_duplicateBlocks text least most)]
  intro block
  rw [List.mem_filterMap, mem_duplicateBlocks]
  constructor
  · rintro ⟨entry, hentry, hblock⟩
    obtain ⟨rfl, hrepeated⟩ := tallyBlock?_eq_some_iff.mp hblock
    obtain ⟨hleast, hmost, hstarts, -⟩ := (h.mem_iff _ _ _).mp hentry
    exact ⟨hleast, hmost, hstarts, hrepeated⟩
  · rintro ⟨hleast, hmost, hstarts, hrepeated⟩
    refine ⟨_, (h.mem_iff _ _ _).mpr ⟨hleast, hmost, hstarts, ?_⟩,
      tallyBlock?_eq_some_iff.mpr ⟨rfl, hrepeated⟩⟩
    intro hnil
    simp [hnil] at hrepeated

/-! ## Windows that are repeated -/

/-- Different windows of a size have different digests, as far as sizes from `least`, or one, to
`most` are concerned. -/
def CollisionFree (lines : List (List Char)) (least most : Nat) : Prop :=
  ∀ a b, a <:+: lines → b <:+: lines → a.length = b.length → max least 1 ≤ a.length →
    a.length ≤ most → joinLines a ≠ joinLines b → windowDigest a ≠ windowDigest b

/-- The window has one of the sizes from `least`, or one, to `most` and begins at more than one
line. -/
structure IsRepeated (lines : List (List Char)) (least most : Nat) (window : List (List Char)) :
    Prop where
  least_le : max least 1 ≤ window.length
  le_most : window.length ≤ most
  repeated : ∃ i j, i < j ∧ StartsAt lines window i ∧ StartsAt lines window j

/-- The block is the one of the window: it lists all lines at which the window begins. -/
structure IsBlockOf (lines window : List (List Char)) (block : DuplicateBlock) : Prop where
  digest : block.digest = windowDigest window
  size : block.size = window.length
  ascending : block.starts.Pairwise (· < ·)
  mem_starts : ∀ start, start ∈ block.starts ↔ StartsAt lines window start

section Repeated

variable {lines window : List (List Char)} {least most : Nat}

/-- Without collisions the lines listed for the digest of a window are those at which it begins. -/
theorem mem_startsOf_windowDigest (hfree : ∀ line ∈ lines, '\n' ∉ line)
    (hcollision : CollisionFree lines least most) (hwindow : window <:+: lines)
    (hleast : max least 1 ≤ window.length) (hmost : window.length ≤ most) {start : Nat} :
    start ∈ startsOf window.length lines (windowDigest window) ↔ StartsAt lines window start := by
  rw [mem_startsOf (by omega)]
  constructor
  · rintro ⟨other, hlength, hat, hdigest⟩
    have hjoined : joinLines window = joinLines other := by
      by_contra hne
      exact hcollision window other hwindow hat.isInfix hlength.symm hleast hmost hne hdigest.symm
    have hne {w : List (List Char)} (hw : w.length = window.length) : w ≠ [] := by
      rintro rfl
      rw [List.length_nil] at hw
      omega
    have heq : window = other :=
      eq_of_joinLines_eq (hne rfl) (hne hlength)
        (fun line hline => hfree line (hwindow.subset hline))
        (fun line hline => hfree line (hat.isInfix.subset hline)) hjoined
    rwa [heq]
  · intro hat
    exact ⟨window, rfl, hat, rfl⟩

/-- Without collisions a block is the one of every window with its size and digest. -/
theorem IsBlock.isBlockOf (hfree : ∀ line ∈ lines, '\n' ∉ line)
    (hcollision : CollisionFree lines least most) (hwindow : window <:+: lines)
    {block : DuplicateBlock} (hblock : IsBlock lines block)
    (hdigest : block.digest = windowDigest window) (hsize : block.size = window.length)
    (hleast : max least 1 ≤ window.length) (hmost : window.length ≤ most) :
    IsBlockOf lines window block where
  digest := hdigest
  size := hsize
  ascending := by
    rw [hblock.starts]
    exact pairwise_startsOf (by omega) lines block.digest
  mem_starts start := by
    rw [hblock.starts, hdigest, hsize]
    exact mem_startsOf_windowDigest hfree hcollision hwindow hleast hmost

/-- The window of a block with more than one line is repeated. -/
theorem IsBlockOf.isRepeated {block : DuplicateBlock} (h : IsBlockOf lines window block)
    (hleast : max least 1 ≤ window.length) (hmost : window.length ≤ most)
    (hrepeated : 2 ≤ block.starts.length) : IsRepeated lines least most window := by
  refine ⟨hleast, hmost, ?_⟩
  match hstarts : block.starts with
  | [] => simp [hstarts] at hrepeated
  | [_] => simp [hstarts] at hrepeated
  | i :: j :: rest =>
    have hascending := h.ascending
    rw [hstarts] at hascending
    refine ⟨i, j, (List.pairwise_cons.mp hascending).1 j List.mem_cons_self, ?_, ?_⟩
    · exact (h.mem_starts i).mp (by simp [hstarts])
    · exact (h.mem_starts j).mp (by simp [hstarts])

/-- Without collisions a repeated window has a block. -/
theorem IsRepeated.isBlock (hfree : ∀ line ∈ lines, '\n' ∉ line)
    (hcollision : CollisionFree lines least most) (h : IsRepeated lines least most window) :
    IsBlock lines
      ⟨windowDigest window, window.length, startsOf window.length lines (windowDigest window)⟩ := by
  obtain ⟨i, j, hlt, hi, hj⟩ := h.repeated
  have hmem {start : Nat} (hat : StartsAt lines window start) :
      start ∈ startsOf window.length lines (windowDigest window) :=
    (mem_startsOf_windowDigest hfree hcollision hi.isInfix h.least_le h.le_most).mpr hat
  have hmemI := hmem hi
  have hmemJ := hmem hj
  refine ⟨rfl, ?_⟩
  simp only
  generalize startsOf window.length lines (windowDigest window) = starts at hmemI hmemJ
  match starts with
  | [] => simp at hmemI
  | [_] =>
    rw [List.mem_singleton] at hmemI hmemJ
    omega
  | _ :: _ :: _ => simp

end Repeated

/-- Without collisions of the digest there is one block for each window that is repeated and no
other one. The blocks are in the strict order of their first lines and sizes, and they are the
sorted blocks of any map by sizes and digests, whatever the order of its entries. -/
theorem duplicateBlocks_exact (text : List Char) (least most : Nat) :
    (CollisionFree (lines text) least most →
      (∀ block ∈ duplicateBlocks text least most, ∃ window,
        IsRepeated (lines text) least most window ∧ IsBlockOf (lines text) window block) ∧
      ∀ window, IsRepeated (lines text) least most window →
        ∃! block, block ∈ duplicateBlocks text least most ∧
          IsBlockOf (lines text) window block) ∧
    ((duplicateBlocks text least most).Pairwise fun a b => a.place < b.place) ∧
    ∀ entries, IsTally (lines text) least most entries →
      (entries.filterMap tallyBlock?).mergeSort DuplicateBlock.le =
        duplicateBlocks text least most := by
  have hfree : ∀ line ∈ lines text, '\n' ∉ line := fun _ => not_mem_of_mem_lines
  refine ⟨fun hcollision => ⟨?_, ?_⟩, pairwise_place_duplicateBlocks text least most,
    fun entries hentries => mergeSort_eq_duplicateBlocks hentries.perm⟩
  · intro block hmem
    obtain ⟨hleast, hmost, hblock⟩ := mem_duplicateBlocks.mp hmem
    obtain ⟨window, hlength, hat, hdigest⟩ := hblock.exists_window (by omega)
    rw [← hlength] at hleast hmost
    have hof : IsBlockOf (lines text) window block :=
      hblock.isBlockOf hfree hcollision hat.isInfix hdigest.symm hlength.symm hleast hmost
    exact ⟨window, hof.isRepeated hleast hmost hblock.repeated, hof⟩
  · intro window hrepeated
    obtain ⟨i, j, -, hat, -⟩ := hrepeated.repeated
    have hblock := hrepeated.isBlock hfree hcollision
    refine ⟨_, ⟨mem_duplicateBlocks.mpr ⟨hrepeated.least_le, hrepeated.le_most, hblock⟩, ?_⟩, ?_⟩
    · exact hblock.isBlockOf hfree hcollision hat.isInfix rfl rfl hrepeated.least_le
        hrepeated.le_most
    · rintro other ⟨hmem, hof⟩
      obtain ⟨-, -, hother⟩ := mem_duplicateBlocks.mp hmem
      exact hother.eq_of_digest_eq hblock hof.size hof.digest

/-- Three equal lines, with windows that overlap, one that is the whole text, and the entries of a
map that come in the opposite order. -/
theorem duplicateBlocks_exact_overlap :
    let text := "x\nx\nx".toList
    let window (size : Nat) := List.replicate size ['x']
    duplicateBlocks text 0 3 =
        [⟨windowDigest (window 1), 1, [1, 2, 3]⟩, ⟨windowDigest (window 2), 2, [1, 2]⟩] ∧
      ∃! block, block ∈ duplicateBlocks text 0 3 ∧ IsBlockOf (lines text) (window 2) block := by
  intro text window
  have hlines : lines text = List.replicate 3 ['x'] := by decide
  have hcollision : CollisionFree (lines text) 0 3 := by
    have hall {w : List (List Char)} (h : w <:+: lines text) : w = window w.length :=
      List.eq_replicate_of_mem fun line hline => List.eq_of_mem_replicate (hlines ▸ h.subset hline)
    intro a b ha hb hlength _ _ hjoined
    rw [hall ha, hall hb, hlength] at hjoined
    exact absurd rfl hjoined
  have hgroup {size : Nat} {starts : List Nat}
      (h : digests size (lines text) = starts.map (windowDigest (window size), ·))
      (digest : String) : startsOf size (lines text) digest =
        if windowDigest (window size) = digest then starts else [] := by
    rw [startsOf, h]
    split_ifs with hdigest <;> simp [hdigest, List.filter_map, Function.comp_def]
  have hone := hgroup (by rw [hlines]; rfl : digests 1 (lines text) = [1, 2, 3].map _)
  have htwo := hgroup (by rw [hlines]; rfl : digests 2 (lines text) = [1, 2].map _)
  have hthree := hgroup (by rw [hlines]; rfl : digests 3 (lines text) = [1].map _)
  have htally : IsTally (lines text) 0 3 [((3, windowDigest (window 3)), [1]),
      ((2, windowDigest (window 2)), [1, 2]), ((1, windowDigest (window 1)), [1, 2, 3])] := by
    refine ⟨by simp, ?_⟩
    intro size digest starts
    constructor
    · intro hmem
      simp only [List.mem_cons, Prod.mk.injEq, List.not_mem_nil, or_false] at hmem
      rcases hmem with ⟨⟨rfl, rfl⟩, rfl⟩ | ⟨⟨rfl, rfl⟩, rfl⟩ | ⟨⟨rfl, rfl⟩, rfl⟩
      · simp [hthree]
      · simp [htwo]
      · simp [hone]
    · rintro ⟨hleast, hmost, rfl, hstarts⟩
      obtain rfl | rfl | rfl : size = 1 ∨ size = 2 ∨ size = 3 := by omega
      · obtain rfl : windowDigest (window 1) = digest := by simpa [hone] using hstarts
        simp [hone]
      · obtain rfl : windowDigest (window 2) = digest := by simpa [htwo] using hstarts
        simp [htwo]
      · obtain rfl : windowDigest (window 3) = digest := by simpa [hthree] using hstarts
        simp [hthree]
  have hexact := duplicateBlocks_exact text 0 3
  constructor
  · rw [← hexact.2.2 _ htally]
    simp [tallyBlock?, List.mergeSort, List.MergeSort.Internal.splitInTwo, DuplicateBlock.le]
  · refine (hexact.1 hcollision).2 (window 2) ⟨by decide, by decide, 1, 2, by decide, ?_, ?_⟩
    · exact ⟨0, rfl, by rw [hlines]; decide⟩
    · exact ⟨1, rfl, by rw [hlines]; decide⟩

end CodeQuality
