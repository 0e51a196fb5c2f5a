import CodeQuality.Text.Basic

/-!
# Repeated blocks of lines

Blocks of lines are told apart by the digest of their text.
-/

namespace CodeQuality

/-!
## SHA-256

The message is padded to whole blocks of 64 bytes. Each block is spread over 64 words and mixed
into a state of eight words, whose digits are the digest.
-/

namespace Digest

/-- The round constants, from the cube roots of the first 64 primes. -/
def roundConstants : List UInt32 :=
  [0x428a2f98, 0x71374491, 0xb5c0fbcf, 0xe9b5dba5, 0x3956c25b, 0x59f111f1, 0x923f82a4,
   0xab1c5ed5, 0xd807aa98, 0x12835b01, 0x243185be, 0x550c7dc3, 0x72be5d74, 0x80deb1fe,
   0x9bdc06a7, 0xc19bf174, 0xe49b69c1, 0xefbe4786, 0x0fc19dc6, 0x240ca1cc, 0x2de92c6f,
   0x4a7484aa, 0x5cb0a9dc, 0x76f988da, 0x983e5152, 0xa831c66d, 0xb00327c8, 0xbf597fc7,
   0xc6e00bf3, 0xd5a79147, 0x06ca6351, 0x14292967, 0x27b70a85, 0x2e1b2138, 0x4d2c6dfc,
   0x53380d13, 0x650a7354, 0x766a0abb, 0x81c2c92e, 0x92722c85, 0xa2bfe8a1, 0xa81a664b,
   0xc24b8b70, 0xc76c51a3, 0xd192e819, 0xd6990624, 0xf40e3585, 0x106aa070, 0x19a4c116,
   0x1e376c08, 0x2748774c, 0x34b0bcb5, 0x391c0cb3, 0x4ed8aa4a, 0x5b9cca4f, 0x682e6ff3,
   0x748f82ee, 0x78a5636f, 0x84c87814, 0x8cc70208, 0x90befffa, 0xa4506ceb, 0xbef9a3f7,
   0xc67178f2]

/-- The eight words of the state. -/
structure State where
  a : UInt32
  b : UInt32
  c : UInt32
  d : UInt32
  e : UInt32
  f : UInt32
  g : UInt32
  h : UInt32

/-- The state before the first block, from the square roots of the first eight primes. -/
def initial : State :=
  ⟨0x6a09e667, 0xbb67ae85, 0x3c6ef372, 0xa54ff53a, 0x510e527f, 0x9b05688c, 0x1f83d9ab,
   0x5be0cd19⟩

/-- The word rotated to the right. -/
def rotate (x : UInt32) (n : UInt32) : UInt32 :=
  (x >>> n) ||| (x <<< (32 - n))

/-- One round of mixing with a round constant and a word of the block. -/
def round (s : State) (constant word : UInt32) : State :=
  let s1 := rotate s.e 6 ^^^ rotate s.e 11 ^^^ rotate s.e 25
  let ch := (s.e &&& s.f) ^^^ ((~~~ s.e) &&& s.g)
  let t1 := s.h + s1 + ch + constant + word
  let s0 := rotate s.a 2 ^^^ rotate s.a 13 ^^^ rotate s.a 22
  let maj := (s.a &&& s.b) ^^^ (s.a &&& s.c) ^^^ (s.b &&& s.c)
  ⟨t1 + s0 + maj, s.a, s.b, s.c, s.d + t1, s.e, s.f, s.g⟩

/-- One more word behind the words so far. -/
def extendWords (words : Array UInt32) : Array UInt32 :=
  let back (n : Nat) : UInt32 := words.getD (words.size - n) 0
  let w15 := back 15
  let w2 := back 2
  let s0 := rotate w15 7 ^^^ rotate w15 18 ^^^ (w15 >>> 3)
  let s1 := rotate w2 17 ^^^ rotate w2 19 ^^^ (w2 >>> 10)
  words.push (back 16 + s0 + back 7 + s1)

/-- The 64 words of a block of 16. -/
def schedule (block : List UInt32) : Array UInt32 :=
  (List.range 48).foldl (fun words _ => extendWords words) block.toArray

/-- The state behind a block. -/
def compress (s : State) (block : List UInt32) : State :=
  let mixed := (roundConstants.zip (schedule block).toList).foldl
    (fun s (constant, word) => round s constant word) s
  ⟨s.a + mixed.a, s.b + mixed.b, s.c + mixed.c, s.d + mixed.d, s.e + mixed.e, s.f + mixed.f,
   s.g + mixed.g, s.h + mixed.h⟩

/-- The bytes of a number, the most significant first. -/
def bigEndian : Nat → Nat → List UInt8
  | 0, _ => []
  | count + 1, n => UInt8.ofNat (n / Nat.pow 256 count) :: bigEndian count n

/-- The message with a one bit, zeros up to eight bytes before the end of a block, and its length
in bits. -/
def pad (message : List UInt8) : List UInt8 :=
  let zeros := (119 - message.length % 64) % 64
  message ++ 0x80 :: (List.replicate zeros 0 ++ bigEndian 8 (8 * message.length))

/-- The words of a list of bytes, four bytes a word. -/
def wordsOf : List UInt8 → List UInt32
  | a :: b :: c :: d :: rest =>
    (a.toUInt32 <<< 24 ||| b.toUInt32 <<< 16 ||| c.toUInt32 <<< 8 ||| d.toUInt32) :: wordsOf rest
  | _ => []

/-- The state behind so many blocks of 16 words. -/
def absorb : Nat → State → List UInt32 → State
  | 0, s, _ => s
  | count + 1, s, words => absorb count (compress s (words.take 16)) (words.drop 16)

/-- The eight digits of a word. -/
def hexWord (word : UInt32) : List Char :=
  let digits := Nat.toDigits 16 word.toNat
  List.replicate (8 - digits.length) '0' ++ digits

/-- The digest of a message in hexadecimal digits. -/
def sha256 (message : List UInt8) : String :=
  let words := wordsOf (pad message)
  let s := absorb (words.length / 16) initial words
  String.ofList ([s.a, s.b, s.c, s.d, s.e, s.f, s.g, s.h].flatMap hexWord)

end Digest

/-!
## Blocks

A block is a number of consecutive lines that begins at more than one place of a text. Blocks of
one size are told apart by the digest of their text.
-/

open Text

/-- Consecutive lines that occur more than once. -/
structure DuplicateBlock where
  digest : String
  size : Nat
  /-- The number of the first line of every occurrence, in increasing order. -/
  starts : List Nat
  deriving DecidableEq, Repr

/-- The lines as one text, with line feeds between them. -/
def joinLines (lines : List (List Char)) : List Char :=
  List.intercalate ['\n'] lines

/-- The windows of a size with the number of their first lines, where the first line at hand has
the number `start`. -/
def windows (size : Nat) : Nat → List (List Char) → List (Nat × List (List Char))
  | _, [] => []
  | start, line :: rest =>
    let window := (line :: rest).take size
    if window.length < size then [] else (start, window) :: windows size (start + 1) rest

/-- The windows of a size by their digests. -/
def digests (size : Nat) (lines : List (List Char)) : List (String × Nat) :=
  (windows size 1 lines).map fun (start, window) =>
    (Digest.sha256 (encode (joinLines window)), start)

/-- The block of windows with one digest, when there is more than one. -/
def blockOf? (size : Nat) : List (String × Nat) → Option DuplicateBlock
  | (digest, start) :: second :: rest =>
    some ⟨digest, size, start :: second.2 :: rest.map Prod.snd⟩
  | _ => none

/-- The repeated blocks of a size. -/
def blocksOfSize (size : Nat) (lines : List (List Char)) : List DuplicateBlock :=
  let sorted := (digests size lines).mergeSort fun a b => a.1 ≤ b.1
  (sorted.splitBy fun a b => a.1 == b.1).filterMap (blockOf? size)

/-- The block begins earlier, or at the same line and is no larger. -/
def DuplicateBlock.le (a b : DuplicateBlock) : Bool :=
  let first (block : DuplicateBlock) : Nat := block.starts.headD 0
  first a < first b || (first a == first b && a.size ≤ b.size)

/-- The repeated blocks of a text whose sizes lie between `least`, or one, and `most`, in the
order of their first lines and sizes. -/
def duplicateBlocks (text : List Char) (least most : Nat) : List DuplicateBlock :=
  let lines := Text.lines text
  let sizes := (List.range (min most lines.length + 1)).filter fun size => max least 1 ≤ size
  (sizes.flatMap fun size => blocksOfSize size lines).mergeSort DuplicateBlock.le

end CodeQuality
