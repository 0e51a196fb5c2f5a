import CodeQuality.Duplication.Block
import CodeQuality.Proofs.Text.Lines
import Mathlib.Data.List.Infix

/-!
# Windows of lines

The windows of a size are the stretches of so many consecutive lines, each with the number of its
first line, in increasing order. Windows of one size are told apart by their texts, because no
line holds the line feed that is put between the lines of a window.
-/

namespace CodeQuality

open Text

/-- The stretch of lines begins at the line with the given number. The first line has the number
one. -/
def StartsAt (lines window : List (List Char)) (start : Nat) : Prop :=
  ∃ i, start = i + 1 ∧ window <+: lines.drop i

/-- The digest of the text of a window. -/
def windowDigest (window : List (List Char)) : String :=
  Digest.sha256 (encode (joinLines window))

/-- The numbers of the lines at which windows of a size with a digest begin. -/
def startsOf (size : Nat) (lines : List (List Char)) (digest : String) : List Nat :=
  ((digests size lines).filter fun entry => entry.1 = digest).map Prod.snd

/-- The windows of a size are the stretches of so many lines, numbered from the first line on. -/
theorem mem_windows {size : Nat} (hsize : 0 < size) {first start : Nat}
    {lines window : List (List Char)} :
    (start, window) ∈ windows size first lines ↔
      window.length = size ∧ ∃ i, start = first + i ∧ window <+: lines.drop i := by
  induction lines generalizing first with
  | nil =>
    simp only [windows, List.not_mem_nil, List.drop_nil, List.prefix_nil, false_iff]
    rintro ⟨hlength, i, -, hnil⟩
    rw [hnil, List.length_nil] at hlength
    omega
  | cons line rest ih =>
    rw [windows]
    split
    · rename_i hshort
      -- Fewer lines than the size are left, here and further on.
      simp only [List.not_mem_nil, false_iff]
      rintro ⟨hlength, i, -, hbegins⟩
      have hle := hbegins.length_le
      rw [List.length_take] at hshort
      rw [List.length_drop] at hle
      omega
    · rename_i hfull
      rw [List.mem_cons, ih]
      constructor
      · rintro (heq | ⟨hlength, i, rfl, hbegins⟩)
        · obtain ⟨rfl, rfl⟩ := Prod.mk.inj heq
          rw [List.length_take] at hfull ⊢
          exact ⟨by omega, 0, rfl, List.take_prefix _ _⟩
        · exact ⟨hlength, i + 1, by omega, hbegins⟩
      · rintro ⟨hlength, i, hstart, hbegins⟩
        cases i with
        | zero =>
          left
          rw [List.drop_zero, List.prefix_iff_eq_take, hlength] at hbegins
          rw [hstart, hbegins]
          rfl
        | succ i => exact Or.inr ⟨hlength, i, by omega, hbegins⟩

/-- The windows come in the order of their first lines. -/
theorem pairwise_windows {size : Nat} (hsize : 0 < size) (first : Nat)
    (lines : List (List Char)) :
    (windows size first lines).Pairwise fun p q => p.1 < q.1 := by
  induction lines generalizing first with
  | nil => exact .nil
  | cons line rest ih =>
    rw [windows]
    split
    · exact .nil
    · refine .cons ?_ (ih (first + 1))
      intro later hlater
      obtain ⟨-, i, hstart, -⟩ := (mem_windows hsize).mp hlater
      simp only
      omega

/-- Lists of lines without line feeds are told apart by the text that joins them. -/
theorem eq_of_joinLines_eq {a b : List (List Char)} (ha : a ≠ []) (hb : b ≠ [])
    (hfreeA : ∀ line ∈ a, '\n' ∉ line) (hfreeB : ∀ line ∈ b, '\n' ∉ line)
    (h : joinLines a = joinLines b) : a = b := by
  rw [← List.splitOn_intercalate '\n' hfreeA ha, ← List.splitOn_intercalate '\n' hfreeB hb]
  exact congrArg (List.splitOn '\n') h

/-- A window has a digest exactly where it begins. -/
theorem mem_digests {size : Nat} (hsize : 0 < size) {lines : List (List Char)} {digest : String}
    {start : Nat} :
    (digest, start) ∈ digests size lines ↔
      ∃ window, window.length = size ∧ StartsAt lines window start ∧
        windowDigest window = digest := by
  rw [digests, List.mem_map]
  constructor
  · rintro ⟨⟨first, window⟩, hmem, heq⟩
    obtain ⟨rfl, rfl⟩ := Prod.mk.inj heq
    obtain ⟨hlength, i, rfl, hbegins⟩ := (mem_windows hsize).mp hmem
    exact ⟨window, hlength, ⟨i, Nat.add_comm 1 i, hbegins⟩, rfl⟩
  · rintro ⟨window, hlength, ⟨i, rfl, hbegins⟩, rfl⟩
    exact ⟨(i + 1, window), (mem_windows hsize).mpr ⟨hlength, i, Nat.add_comm i 1, hbegins⟩, rfl⟩

/-- The digests come in the order of the first lines of their windows. -/
theorem pairwise_digests {size : Nat} (hsize : 0 < size) (lines : List (List Char)) :
    (digests size lines).Pairwise fun p q => p.2 < q.2 := by
  rw [digests, List.pairwise_map]
  exact pairwise_windows hsize 1 lines

/-- The lines at which windows with a digest begin are in increasing order. -/
theorem pairwise_startsOf {size : Nat} (hsize : 0 < size) (lines : List (List Char))
    (digest : String) : (startsOf size lines digest).Pairwise (· < ·) := by
  rw [startsOf, List.pairwise_map]
  exact (pairwise_digests hsize lines).filter _

/-- Windows with a digest begin at the lines that are listed for it. -/
theorem mem_startsOf {size : Nat} (hsize : 0 < size) {lines : List (List Char)} {digest : String}
    {start : Nat} :
    start ∈ startsOf size lines digest ↔
      ∃ window, window.length = size ∧ StartsAt lines window start ∧
        windowDigest window = digest := by
  rw [← mem_digests hsize, startsOf]
  simp

/-- At most one window of a size begins at a line. -/
theorem StartsAt.unique {lines a b : List (List Char)} {start : Nat} (ha : StartsAt lines a start)
    (hb : StartsAt lines b start) (hlength : a.length = b.length) : a = b := by
  obtain ⟨i, rfl, hbeginsA⟩ := ha
  obtain ⟨j, hij, hbeginsB⟩ := hb
  obtain rfl : i = j := by omega
  exact (List.prefix_of_prefix_length_le hbeginsA hbeginsB (by omega)).eq_of_length hlength

/-- A window is a stretch of the lines. -/
theorem StartsAt.isInfix {lines window : List (List Char)} {start : Nat}
    (h : StartsAt lines window start) : window <:+: lines := by
  obtain ⟨i, -, hbegins⟩ := h
  exact hbegins.isInfix.trans (List.drop_suffix i lines).isInfix

end CodeQuality
