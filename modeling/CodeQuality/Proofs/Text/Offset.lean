import CodeQuality.Scan.Code
import CodeQuality.Text.Basic
import Mathlib.Data.List.Basic

/-!
# Cutting a text at byte offsets

A boundary is an offset at which the text falls into two pieces, the first of which has that many
bytes. Slices are stated through such pieces, and the encoding of a text is cut where the text is.

Scans look at bytes and slices take characters. The two meet at ASCII marks: a byte below 128 is
the whole encoding of its character, so what stands before it is the encoding of a piece.
-/

namespace CodeQuality.Text

/-- The bytes of two pieces add up. -/
@[simp] theorem byteLength_append (head tail : List Char) :
    byteLength (head ++ tail) = byteLength head + byteLength tail := by
  induction head with
  | nil => simp [byteLength]
  | cons c rest ih => simp [byteLength, ih, Nat.add_assoc]

@[simp] theorem byteLength_nil : byteLength [] = 0 := rfl

@[simp] theorem byteLength_cons (c : Char) (rest : List Char) :
    byteLength (c :: rest) = c.utf8Size + byteLength rest := rfl

/-- A line feed is one byte. -/
@[simp] theorem utf8Size_lineFeed : Char.utf8Size '\n' = 1 := by decide

/-- A piece without bytes is empty. -/
theorem eq_nil_of_byteLength_eq_zero {text : List Char} (h : byteLength text = 0) : text = [] := by
  cases text with
  | nil => rfl
  | cons c rest =>
    have hpos := c.utf8Size_pos
    simp only [byteLength_cons] at h
    omega

@[simp] theorem encode_cons (c : Char) (rest : List Char) :
    encode (c :: rest) = String.utf8EncodeChar c ++ encode rest := rfl

/-- The encoding of two pieces is the encodings in a row. -/
@[simp] theorem encode_append (head tail : List Char) :
    encode (head ++ tail) = encode head ++ encode tail := by
  simp [encode]

/-- The length of the encoding is the number of bytes. -/
@[simp] theorem length_encode (text : List Char) : (encode text).length = byteLength text := by
  induction text with
  | nil => rfl
  | cons c rest ih => simp [ih]

/-- The encoding from a boundary on is the encoding of the second piece. -/
theorem drop_encode_append (head tail : List Char) :
    (encode (head ++ tail)).drop (byteLength head) = encode tail := by
  rw [encode_append, ← length_encode, List.drop_left]

/-- The encoding up to a boundary is the encoding of the first piece. -/
theorem take_encode_append (head tail : List Char) :
    (encode (head ++ tail)).take (byteLength head) = encode head := by
  rw [encode_append, ← length_encode, List.take_left]

/-- Dropping bytes past a whole character drops the character. -/
theorem dropBytes_cons (c : Char) (rest : List Char) (more : Nat) :
    dropBytes (c.utf8Size + more) (c :: rest) = dropBytes more rest := by
  obtain ⟨n, hn⟩ : ∃ n, c.utf8Size + more = n + 1 :=
    ⟨c.utf8Size + more - 1, by have := c.utf8Size_pos; omega⟩
  rw [hn, dropBytes, ← hn, Nat.add_sub_cancel_left]

/-- Taking bytes past a whole character takes the character. -/
theorem takeBytes_cons (c : Char) (rest : List Char) (more : Nat) :
    takeBytes (c.utf8Size + more) (c :: rest) = c :: takeBytes more rest := by
  obtain ⟨n, hn⟩ : ∃ n, c.utf8Size + more = n + 1 :=
    ⟨c.utf8Size + more - 1, by have := c.utf8Size_pos; omega⟩
  rw [hn, takeBytes, ← hn, Nat.add_sub_cancel_left]

/-- Dropping at a boundary and some bytes more drops those from the second piece. -/
theorem dropBytes_append_add (head tail : List Char) (more : Nat) :
    dropBytes (more + byteLength head) (head ++ tail) = dropBytes more tail := by
  induction head with
  | nil => simp
  | cons c rest ih =>
    rw [byteLength_cons, Nat.add_left_comm, List.cons_append, dropBytes_cons, ih]

/-- Dropping at a boundary leaves the second piece. -/
@[simp] theorem dropBytes_append (head tail : List Char) :
    dropBytes (byteLength head) (head ++ tail) = tail := by
  simpa [dropBytes] using dropBytes_append_add head tail 0

/-- Taking at a boundary leaves the first piece. -/
@[simp] theorem takeBytes_append (head tail : List Char) :
    takeBytes (byteLength head) (head ++ tail) = head := by
  induction head with
  | nil => simp [takeBytes]
  | cons c rest ih => rw [byteLength_cons, List.cons_append, takeBytes_cons, ih]

/-- The slice between two boundaries is the piece between them. -/
theorem slice_append (head body tail : List Char) :
    slice (head ++ body ++ tail) (byteLength head) (byteLength (head ++ body)) = body := by
  rw [slice, List.append_assoc, dropBytes_append, byteLength_append, Nat.add_sub_cancel_left,
    takeBytes_append]

/-- The slice through a character of one byte ends with it. -/
theorem slice_through {c : Char} (hc : c.utf8Size = 1) (head body tail : List Char) :
    slice (head ++ (body ++ c :: tail)) (byteLength head) (byteLength (head ++ body) + 1) =
      body ++ [c] := by
  have hstop : byteLength (head ++ body) + 1 = byteLength (head ++ (body ++ [c])) := by
    simp [hc, Nat.add_assoc]
  have htext : head ++ (body ++ c :: tail) = head ++ (body ++ [c]) ++ tail := by simp
  rw [hstop, htext, slice_append]

/-- A slice behind a first piece is a slice of the second piece. -/
theorem slice_append_add (head tail : List Char) (start stop : Nat) :
    slice (head ++ tail) (start + byteLength head) (stop + byteLength head) =
      slice tail start stop := by
  rw [slice, slice, dropBytes_append_add, Nat.add_sub_add_right]

/-- A boundary is an offset at which the text falls into two pieces. -/
theorem exists_append_of_isBoundary {text : List Char} {offset : Nat}
    (h : isBoundary text offset = true) :
    ∃ head tail, text = head ++ tail ∧ byteLength head = offset := by
  induction text generalizing offset with
  | nil =>
    cases offset with
    | zero => exact ⟨[], [], rfl, rfl⟩
    | succ offset => simp [isBoundary] at h
  | cons c rest ih =>
    cases offset with
    | zero => exact ⟨[], c :: rest, rfl, rfl⟩
    | succ offset =>
      simp only [isBoundary, Bool.and_eq_true, decide_eq_true_eq] at h
      obtain ⟨head, tail, rfl, hhead⟩ := ih h.2
      exact ⟨c :: head, tail, rfl, by rw [byteLength_cons, hhead]; omega⟩

/-- An ASCII character is encoded by its own byte. -/
theorem utf8EncodeChar_of_ascii {c : Char} (h : c.toNat < 128) :
    String.utf8EncodeChar c = [c.toUInt8] := by
  have hval : c.val.toNat ≤ 0x7f := by rw [Char.toNat_val]; omega
  simp only [String.utf8EncodeChar, hval, if_true]
  rfl

/-- A byte below 128 in the encoding of a character is the whole encoding of it. -/
theorem utf8EncodeChar_of_mem {c : Char} {b : UInt8} (hb : b.toNat < 128)
    (h : b ∈ String.utf8EncodeChar c) : c.toNat < 128 ∧ b = c.toUInt8 := by
  by_cases hc : c.toNat < 128
  · rw [utf8EncodeChar_of_ascii hc, List.mem_singleton] at h
    exact ⟨hc, h⟩
  · have hlong : ∀ n : Nat, 128 ≤ n % 256 → b ≠ UInt8.ofNat n := by
      rintro n hn rfl
      rw [UInt8.toNat_ofNat'] at hb
      omega
    have hval : ¬ c.val.toNat ≤ 0x7f := by rw [Char.toNat_val]; omega
    simp only [String.utf8EncodeChar, hval, if_false] at h
    exfalso
    split_ifs at h <;> simp only [List.mem_cons, List.not_mem_nil, or_false] at h
    · rcases h with h | h <;> exact hlong _ (by omega) h
    · rcases h with h | h | h <;> exact hlong _ (by omega) h
    · rcases h with h | h | h | h <;> exact hlong _ (by omega) h

/-- A text is split at every ASCII byte of its encoding. -/
theorem exists_append_of_encode_eq {text : List Char} {before after : List UInt8} {b : UInt8}
    (hb : b.toNat < 128) (h : encode text = before ++ b :: after) :
    ∃ head c tail, text = head ++ c :: tail ∧ encode head = before ∧ encode tail = after ∧
      c.toNat < 128 ∧ b = c.toUInt8 := by
  induction text generalizing before with
  | nil => simp [encode] at h
  | cons c rest ih =>
    rw [encode_cons, List.append_eq_append_iff] at h
    rcases h with ⟨more, rfl, hrest⟩ | ⟨more, hc, hmore⟩
    · obtain ⟨head, d, tail, rfl, rfl, rfl, hd⟩ := ih hrest
      exact ⟨c :: head, d, tail, rfl, rfl, rfl, hd⟩
    · -- The byte belongs to the first character unless that ends right before it.
      cases more with
      | nil =>
        have hrest : encode rest = [] ++ b :: after := hmore.symm
        obtain ⟨head, d, tail, rfl, hhead, rfl, hd⟩ := ih hrest
        exact ⟨c :: head, d, tail, rfl, by simp [hhead, hc], rfl, hd⟩
      | cons b' more =>
        obtain ⟨rfl, rfl⟩ : b = b' ∧ after = more ++ encode rest := by simpa using hmore
        obtain ⟨hascii, rfl⟩ := utf8EncodeChar_of_mem hb (c := c) (by simp [hc])
        rw [utf8EncodeChar_of_ascii hascii] at hc
        obtain ⟨rfl, rfl⟩ : before = [] ∧ more = [] := by
          cases before with
          | nil => simpa using hc.symm
          | cons a before => simp at hc
        exact ⟨[], c, rest, rfl, rfl, rfl, hascii, rfl⟩

/-- The byte of an ASCII character is its code point. -/
theorem toNat_toUInt8_of_ascii {c : Char} (h : c.toNat < 128) : c.toUInt8.toNat = c.toNat := by
  change c.val.toUInt8.toNat = c.toNat
  rw [UInt32.toNat_toUInt8, Char.toNat_val]
  omega

/-- ASCII characters with the same byte are the same. -/
theorem eq_of_toUInt8_eq {c d : Char} (hc : c.toNat < 128) (hd : d.toNat < 128)
    (h : c.toUInt8 = d.toUInt8) : c = d := by
  rw [← Char.toNat_inj, ← toNat_toUInt8_of_ascii hc, ← toNat_toUInt8_of_ascii hd, h]

/-- A text whose first byte is the one of an ASCII character begins with that character. -/
theorem head?_of_head?_encode {c : Char} (hc : c.toNat < 128) {text : List Char}
    (h : (encode text).head? = some (Scan.byte c)) : text.head? = some c := by
  obtain ⟨after, hafter⟩ := List.head?_eq_some_iff.mp h
  have hbyte : (Scan.byte c).toNat < 128 := by
    rw [Scan.byte, toNat_toUInt8_of_ascii hc]
    exact hc
  obtain ⟨head, d, tail, rfl, hhead, -, hd, hdc⟩ :=
    exists_append_of_encode_eq hbyte (hafter.trans (List.nil_append _).symm)
  obtain rfl : head = [] := by
    apply eq_nil_of_byteLength_eq_zero
    rw [← length_encode, hhead, List.length_nil]
  rw [eq_of_toUInt8_eq hd hc hdc.symm]
  rfl

/-- The byte of an ASCII character occurs in the encoding as often as the character in the
text. -/
theorem count_encode {c : Char} (hc : c.toNat < 128) (text : List Char) :
    (encode text).count (Scan.byte c) = text.count c := by
  induction text with
  | nil => rfl
  | cons d rest ih =>
    rw [encode_cons, List.count_append, ih, List.count_cons, Nat.add_comm]
    congr 1
    by_cases hd : d.toNat < 128
    · rw [utf8EncodeChar_of_ascii hd, Scan.byte]
      by_cases hdc : d = c
      · simp [hdc]
      · have hne : d.toUInt8 ≠ c.toUInt8 := fun h => hdc (eq_of_toUInt8_eq hd hc h)
        simp [hdc, hne]
    · have hdc : d ≠ c := fun h => hd (h ▸ hc)
      have hbyte : (Scan.byte c).toNat < 128 := by
        rw [Scan.byte, toNat_toUInt8_of_ascii hc]
        exact hc
      rw [List.count_eq_zero_of_not_mem fun h => hd (utf8EncodeChar_of_mem hbyte h).1]
      simp [hdc]

end CodeQuality.Text
