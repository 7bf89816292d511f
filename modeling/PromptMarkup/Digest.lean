/-
The message digest SHA-256.

A message is padded to whole blocks of 64 bytes, and each block is mixed into eight words of 32
bits.

* `Digest.ofBytes` — the digest of a message, as eight words;
* `Digest.hex` — the digest of a text, as hexadecimal digits.
-/
import PromptMarkup.Json.Printer

namespace PromptMarkup.Digest

/-- A word turned to the right. -/
def rotate (w : UInt32) (n : UInt32) : UInt32 :=
  (w >>> n) ||| (w <<< (32 - n))

/-- The constants of the 64 rounds. -/
def roundConstants : List UInt32 :=
  [0x428a2f98, 0x71374491, 0xb5c0fbcf, 0xe9b5dba5, 0x3956c25b, 0x59f111f1,
   0x923f82a4, 0xab1c5ed5, 0xd807aa98, 0x12835b01, 0x243185be, 0x550c7dc3,
   0x72be5d74, 0x80deb1fe, 0x9bdc06a7, 0xc19bf174, 0xe49b69c1, 0xefbe4786,
   0x0fc19dc6, 0x240ca1cc, 0x2de92c6f, 0x4a7484aa, 0x5cb0a9dc, 0x76f988da,
   0x983e5152, 0xa831c66d, 0xb00327c8, 0xbf597fc7, 0xc6e00bf3, 0xd5a79147,
   0x06ca6351, 0x14292967, 0x27b70a85, 0x2e1b2138, 0x4d2c6dfc, 0x53380d13,
   0x650a7354, 0x766a0abb, 0x81c2c92e, 0x92722c85, 0xa2bfe8a1, 0xa81a664b,
   0xc24b8b70, 0xc76c51a3, 0xd192e819, 0xd6990624, 0xf40e3585, 0x106aa070,
   0x19a4c116, 0x1e376c08, 0x2748774c, 0x34b0bcb5, 0x391c0cb3, 0x4ed8aa4a,
   0x5b9cca4f, 0x682e6ff3, 0x748f82ee, 0x78a5636f, 0x84c87814, 0x8cc70208,
   0x90befffa, 0xa4506ceb, 0xbef9a3f7, 0xc67178f2]

/-- The words that are mixed. -/
structure State where
  a : UInt32
  b : UInt32
  c : UInt32
  d : UInt32
  e : UInt32
  f : UInt32
  g : UInt32
  h : UInt32
deriving DecidableEq, Repr

/-- The words before the first block. -/
def State.start : State :=
  ⟨0x6a09e667, 0xbb67ae85, 0x3c6ef372, 0xa54ff53a, 0x510e527f, 0x9b05688c, 0x1f83d9ab, 0x5be0cd19⟩

/-- One round, with the constant and the word of the schedule that belong to it. -/
def State.round (s : State) (k w : UInt32) : State :=
  let sum1 := rotate s.e 6 ^^^ rotate s.e 11 ^^^ rotate s.e 25
  let choice := (s.e &&& s.f) ^^^ (~~~s.e &&& s.g)
  let first := s.h + sum1 + choice + k + w
  let sum0 := rotate s.a 2 ^^^ rotate s.a 13 ^^^ rotate s.a 22
  let majority := (s.a &&& s.b) ^^^ (s.a &&& s.c) ^^^ (s.b &&& s.c)
  ⟨first + (sum0 + majority), s.a, s.b, s.c, s.d + first, s.e, s.f, s.g⟩

/-- The sums of the words of two states. -/
def State.add (s t : State) : State :=
  ⟨s.a + t.a, s.b + t.b, s.c + t.c, s.d + t.d, s.e + t.e, s.f + t.f, s.g + t.g, s.h + t.h⟩

/-- The words of a state in order. -/
def State.words (s : State) : List UInt32 :=
  [s.a, s.b, s.c, s.d, s.e, s.f, s.g, s.h]

/-- A word of the schedule; words that are not there yet count as zero. -/
def wordAt (schedule : Array UInt32) (i : Nat) : UInt32 :=
  (schedule[i]?).getD 0

/-- The schedule with one more word. -/
def extend (schedule : Array UInt32) : Array UInt32 :=
  let n := schedule.size
  let far := wordAt schedule (n - 15)
  let near := wordAt schedule (n - 2)
  let sigma0 := rotate far 7 ^^^ rotate far 18 ^^^ (far >>> 3)
  let sigma1 := rotate near 17 ^^^ rotate near 19 ^^^ (near >>> 10)
  schedule.push (wordAt schedule (n - 16) + sigma0 + wordAt schedule (n - 7) + sigma1)

/-- The words that bytes form, four bytes each, the most significant one first. -/
def wordsOf : List UInt8 → List UInt32
  | a :: b :: c :: d :: rest =>
    ((a.toUInt32 <<< 24) ||| (b.toUInt32 <<< 16) ||| (c.toUInt32 <<< 8) ||| d.toUInt32) ::
      wordsOf rest
  | _ => []

/-- The 64 words of the schedule of a block. -/
def schedule (block : List UInt8) : List UInt32 :=
  (Nat.repeat extend 48 (wordsOf block).toArray).toList

/-- Mixes a block into the words. -/
def mix (s : State) (block : List UInt8) : State :=
  s.add ((roundConstants.zip (schedule block)).foldl (fun t kw => t.round kw.1 kw.2) s)

/-- The blocks of a message that has `n` of them. -/
def blocks : Nat → List UInt8 → List (List UInt8)
  | 0, _ => []
  | n + 1, bytes => bytes.take 64 :: blocks n (bytes.drop 64)

/-- The number of zero bytes that fill up the last block. -/
def fillLength (n : Nat) : Nat :=
  (119 - n % 64) % 64

/-- The eight bytes of a number, the most significant one first. -/
def lengthBytes (n : Nat) : List UInt8 :=
  [56, 48, 40, 32, 24, 16, 8, 0].map fun shift => UInt8.ofNat (n >>> shift % 256)

/-- A message, followed by a set bit, zeros and its length in bits. -/
def pad (bytes : List UInt8) : List UInt8 :=
  bytes ++ 0x80 :: (List.replicate (fillLength bytes.length) 0 ++ lengthBytes (8 * bytes.length))

/-- The digest of a message. -/
def ofBytes (bytes : List UInt8) : List UInt32 :=
  let padded := pad bytes
  ((blocks (padded.length / 64) padded).foldl mix State.start).words

/-- A word as eight hexadecimal digits. -/
def hexWord (w : UInt32) : List Char :=
  [28, 24, 20, 16, 12, 8, 4, 0].map fun shift => Json.hexDigit (w.toNat >>> shift % 16)

/-- The bytes of the UTF-8 form of a text. -/
def bytesOf (s : String) : List UInt8 :=
  s.toList.flatMap String.utf8EncodeChar

/-- The digest of a text as hexadecimal digits. -/
def hex (s : String) : String :=
  String.ofList ((ofBytes (bytesOf s)).flatMap hexWord)

end PromptMarkup.Digest
