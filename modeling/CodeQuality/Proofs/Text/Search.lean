import CodeQuality.Proofs.Text.Offset
import CodeQuality.Text.Basic

/-!
# Occurrences in a text

A search gives the boundary of an occurrence, and none lies before it. So it finds something
exactly when the needle occurs at all.
-/

namespace CodeQuality.Text

/-- A needle that is found stands at a boundary. -/
theorem exists_append_of_findFrom {needle : List Char} {offset found : Nat} {text : List Char}
    (h : findFrom needle offset text = some found) :
    ∃ head tail, text = head ++ (needle ++ tail) ∧ found = offset + byteLength head := by
  induction text generalizing offset with
  | nil =>
    rw [findFrom] at h
    split at h
    · rename_i hneedle
      obtain rfl := List.isEmpty_iff.mp hneedle
      exact ⟨[], [], rfl, by simpa using h.symm⟩
    · simp at h
  | cons c rest ih =>
    rw [findFrom] at h
    split at h
    · rename_i hneedle
      obtain ⟨tail, htail⟩ := List.isPrefixOf_iff_prefix.mp hneedle
      exact ⟨[], tail, htail.symm, by simpa using h.symm⟩
    · obtain ⟨head, tail, rfl, rfl⟩ := ih h
      exact ⟨c :: head, tail, rfl, by rw [byteLength_cons, Nat.add_assoc]⟩

/-- A needle that occurs is found there or before. -/
theorem exists_findFrom_le (needle : List Char) (offset : Nat) (head tail : List Char) :
    ∃ found ≤ offset + byteLength head,
      findFrom needle offset (head ++ (needle ++ tail)) = some found := by
  induction head generalizing offset with
  | nil =>
    refine ⟨offset, Nat.le_add_right _ _, ?_⟩
    rw [List.nil_append]
    cases htext : needle ++ tail with
    | nil => simp [findFrom, (List.append_eq_nil_iff.mp htext).1]
    | cons c rest =>
      have hneedle : needle.isPrefixOf (c :: rest) = true :=
        List.isPrefixOf_iff_prefix.mpr ⟨tail, htext⟩
      rw [findFrom, if_pos hneedle]
  | cons c rest ih =>
    rw [List.cons_append, findFrom, byteLength_cons]
    split
    · exact ⟨offset, Nat.le_add_right _ _, rfl⟩
    · obtain ⟨found, hle, hfound⟩ := ih (offset + c.utf8Size)
      exact ⟨found, by omega, hfound⟩

/-- A text holds a needle exactly when the needle occurs in it. -/
theorem holds_iff_isInfix (text needle : List Char) :
    holds text needle = true ↔ needle <:+: text := by
  rw [holds, find?, Option.isSome_iff_exists]
  constructor
  · rintro ⟨found, hfound⟩
    obtain ⟨head, tail, rfl, -⟩ := exists_append_of_findFrom hfound
    exact ⟨head, tail, List.append_assoc ..⟩
  · rintro ⟨head, tail, rfl⟩
    obtain ⟨found, -, hfound⟩ := exists_findFrom_le needle 0 head tail
    exact ⟨found, by rwa [List.append_assoc]⟩

/-- What is left behind a beginning is the rest of the text. -/
theorem dropPrefix?_eq_some_iff {beginning text rest : List Char} :
    dropPrefix? beginning text = some rest ↔ text = beginning ++ rest := by
  fun_induction dropPrefix? beginning text with
  | case1 text => simp
  | case2 a more => simp
  | case3 a more rest' ih => simp [ih]
  | case4 a more c rest' hne => simp [Ne.symm hne]

/-- Nothing is left exactly when the text does not begin so. -/
theorem dropPrefix?_eq_none_iff {beginning text : List Char} :
    dropPrefix? beginning text = none ↔ ¬ beginning <+: text := by
  rw [Option.eq_none_iff_forall_ne_some]
  constructor
  · rintro h ⟨rest, rfl⟩
    exact h rest (dropPrefix?_eq_some_iff.mpr rfl)
  · intro h rest hrest
    exact h ⟨rest, (dropPrefix?_eq_some_iff.mp hrest).symm⟩

end CodeQuality.Text
