import LintLedger.Text.Quoted

/-!
# SHA-256

The digest of a run of bytes: the message is padded to blocks of 64 bytes, and each block is mixed
into a state of eight words in 64 rounds.
-/

namespace LintLedger.Digest

/-- the eight words that a message is mixed into -/
structure State where
  a : UInt32
  b : UInt32
  c : UInt32
  d : UInt32
  e : UInt32
  f : UInt32
  g : UInt32
  h : UInt32
deriving Repr, DecidableEq

/-- the state before the first block: the fractions of the square roots of the first primes -/
def State.start : State :=
  ⟨0x6a09e667, 0xbb67ae85, 0x3c6ef372, 0xa54ff53a, 0x510e527f, 0x9b05688c, 0x1f83d9ab, 0x5be0cd19⟩

/-- one word per round: the fractions of the cube roots of the first primes -/
def roundWords : List UInt32 :=
  [
    0x428a2f98, 0x71374491, 0xb5c0fbcf, 0xe9b5dba5, 0x3956c25b, 0x59f111f1, 0x923f82a4, 0xab1c5ed5,
    0xd807aa98, 0x12835b01, 0x243185be, 0x550c7dc3, 0x72be5d74, 0x80deb1fe, 0x9bdc06a7, 0xc19bf174,
    0xe49b69c1, 0xefbe4786, 0x0fc19dc6, 0x240ca1cc, 0x2de92c6f, 0x4a7484aa, 0x5cb0a9dc, 0x76f988da,
    0x983e5152, 0xa831c66d, 0xb00327c8, 0xbf597fc7, 0xc6e00bf3, 0xd5a79147, 0x06ca6351, 0x14292967,
    0x27b70a85, 0x2e1b2138, 0x4d2c6dfc, 0x53380d13, 0x650a7354, 0x766a0abb, 0x81c2c92e, 0x92722c85,
    0xa2bfe8a1, 0xa81a664b, 0xc24b8b70, 0xc76c51a3, 0xd192e819, 0xd6990624, 0xf40e3585, 0x106aa070,
    0x19a4c116, 0x1e376c08, 0x2748774c, 0x34b0bcb5, 0x391c0cb3, 0x4ed8aa4a, 0x5b9cca4f, 0x682e6ff3,
    0x748f82ee, 0x78a5636f, 0x84c87814, 0x8cc70208, 0x90befffa, 0xa4506ceb, 0xbef9a3f7, 0xc67178f2]

/-- the bits of a word moved to the right, those that fall out coming back on the left -/
def rotate (x n : UInt32) : UInt32 := (x >>> n) ||| (x <<< (32 - n))

/-- the word that follows those of a schedule, of which the newest stands first -/
def nextWord (newest : List UInt32) : UInt32 :=
  let w (n : Nat) : UInt32 := newest.getD (n - 1) 0
  let low := rotate (w 15) 7 ^^^ rotate (w 15) 18 ^^^ (w 15 >>> 3)
  let high := rotate (w 2) 17 ^^^ rotate (w 2) 19 ^^^ (w 2 >>> 10)
  w 16 + low + w 7 + high

/-- a schedule, of which the newest word stands first, with `n` more words -/
def extend : Nat → List UInt32 → List UInt32
  | 0, newest => newest
  | n + 1, newest => extend n (nextWord newest :: newest)

/-- the 64 words of a block of 16 -/
def schedule (block : List UInt32) : List UInt32 := (extend 48 block.reverse).reverse

/-- one round of mixing -/
def State.round (s : State) (k w : UInt32) : State :=
  let turned := rotate s.e 6 ^^^ rotate s.e 11 ^^^ rotate s.e 25
  let choice := (s.e &&& s.f) ^^^ (~~~s.e &&& s.g)
  let first := s.h + turned + choice + k + w
  let swung := rotate s.a 2 ^^^ rotate s.a 13 ^^^ rotate s.a 22
  let majority := (s.a &&& s.b) ^^^ (s.a &&& s.c) ^^^ (s.b &&& s.c)
  ⟨first + (swung + majority), s.a, s.b, s.c, s.d + first, s.e, s.f, s.g⟩

/-- the words of two states added one by one -/
def State.add (s t : State) : State :=
  ⟨s.a + t.a, s.b + t.b, s.c + t.c, s.d + t.d, s.e + t.e, s.f + t.f, s.g + t.g, s.h + t.h⟩

/-- a state with one more block mixed into it -/
def State.absorb (s : State) (block : List UInt32) : State :=
  s.add ((roundWords.zip (schedule block)).foldl (fun t kw => t.round kw.1 kw.2) s)

/-- the bytes of a number, the most significant first -/
def bytesOf : Nat → Nat → List UInt8
  | 0, _ => []
  | n + 1, x => UInt8.ofNat (x / Nat.pow 256 n) :: bytesOf n x

/-- a message filled up to whole blocks: a mark, zeros, and its length in bits -/
def pad (message : List UInt8) : List UInt8 :=
  let zeros := (119 - message.length % 64) % 64
  message ++ 0x80 :: List.replicate zeros 0 ++ bytesOf 8 (8 * message.length)

/-- the words of a run of bytes, four bytes each -/
def wordsOf : List UInt8 → List UInt32
  | a :: b :: c :: d :: rest =>
    ((a.toUInt32 <<< 24) ||| (b.toUInt32 <<< 16) ||| (c.toUInt32 <<< 8) ||| d.toUInt32)
      :: wordsOf rest
  | _ => []

/-- a state with `n` blocks of 16 words mixed into it -/
def State.absorbAll : Nat → State → List UInt32 → State
  | 0, s, _ => s
  | n + 1, s, words => State.absorbAll n (s.absorb (words.take 16)) (words.drop 16)

/-- the state in which a message leaves the mixing -/
def State.ofMessage (message : List UInt8) : State :=
  let words := wordsOf (pad message)
  State.absorbAll (words.length / 16) State.start words

/-- the words of a state in base sixteen -/
def State.hex (s : State) : String :=
  String.ofList ([s.a, s.b, s.c, s.d, s.e, s.f, s.g, s.h].flatMap fun w =>
    Text.hexDigits 8 w.toNat)

/-- the digest of a text in base sixteen -/
def sha256 (s : String) : String := (State.ofMessage s.toUTF8.toList).hex

end LintLedger.Digest
