import MinerGateway.Bytes.Fixed

/-!
The SHA-256 digest of a byte string.

The message is padded to whole blocks of sixteen words, each block is stretched to 64 words, and 64
rounds mix them into eight words of state. All arithmetic is on 32-bit words and wraps. Nothing is
proved about the digest: what is said of synthetic work holds of any function from byte strings to
hashes, and names the distinctness of its values where that is needed.
-/

namespace MinerGateway.Sha256

def rotate (x n : UInt32) : UInt32 := (x >>> n) ||| (x <<< (32 - n))

/-- The first 32 bits of the fractional parts of the cube roots of the first 64 primes. -/
def roundConstants : List UInt32 :=
  [0x428a2f98, 0x71374491, 0xb5c0fbcf, 0xe9b5dba5, 0x3956c25b, 0x59f111f1, 0x923f82a4, 0xab1c5ed5,
   0xd807aa98, 0x12835b01, 0x243185be, 0x550c7dc3, 0x72be5d74, 0x80deb1fe, 0x9bdc06a7, 0xc19bf174,
   0xe49b69c1, 0xefbe4786, 0x0fc19dc6, 0x240ca1cc, 0x2de92c6f, 0x4a7484aa, 0x5cb0a9dc, 0x76f988da,
   0x983e5152, 0xa831c66d, 0xb00327c8, 0xbf597fc7, 0xc6e00bf3, 0xd5a79147, 0x06ca6351, 0x14292967,
   0x27b70a85, 0x2e1b2138, 0x4d2c6dfc, 0x53380d13, 0x650a7354, 0x766a0abb, 0x81c2c92e, 0x92722c85,
   0xa2bfe8a1, 0xa81a664b, 0xc24b8b70, 0xc76c51a3, 0xd192e819, 0xd6990624, 0xf40e3585, 0x106aa070,
   0x19a4c116, 0x1e376c08, 0x2748774c, 0x34b0bcb5, 0x391c0cb3, 0x4ed8aa4a, 0x5b9cca4f, 0x682e6ff3,
   0x748f82ee, 0x78a5636f, 0x84c87814, 0x8cc70208, 0x90befffa, 0xa4506ceb, 0xbef9a3f7, 0xc67178f2]

/-- The eight words that the rounds work on. -/
structure State where
  (a b c d e f g h : UInt32)

/-- The first 32 bits of the fractional parts of the square roots of the first eight primes. -/
def State.initial : State :=
  ⟨0x6a09e667, 0xbb67ae85, 0x3c6ef372, 0xa54ff53a, 0x510e527f, 0x9b05688c, 0x1f83d9ab, 0x5be0cd19⟩

def State.words (s : State) : List UInt32 := [s.a, s.b, s.c, s.d, s.e, s.f, s.g, s.h]

def State.add (s t : State) : State :=
  ⟨s.a + t.a, s.b + t.b, s.c + t.c, s.d + t.d, s.e + t.e, s.f + t.f, s.g + t.g, s.h + t.h⟩

/-- One round with the sum of its constant and its word. -/
def State.round (s : State) (input : UInt32) : State :=
  let sum1 := rotate s.e 6 ^^^ rotate s.e 11 ^^^ rotate s.e 25
  let choice := (s.e &&& s.f) ^^^ (~~~s.e &&& s.g)
  let first := s.h + sum1 + choice + input
  let sum0 := rotate s.a 2 ^^^ rotate s.a 13 ^^^ rotate s.a 22
  let majority := (s.a &&& s.b) ^^^ (s.a &&& s.c) ^^^ (s.b &&& s.c)
  ⟨first + sum0 + majority, s.a, s.b, s.c, s.d + first, s.e, s.f, s.g⟩

/-- Appends `count` words to a schedule that is kept with its latest word in front. -/
def stretch : (count : Nat) → (latestFirst : List UInt32) → List UInt32
  | 0, words => words
  | count + 1, words =>
    let near := words.getD 1 0
    let far := words.getD 14 0
    let sigma1 := rotate near 17 ^^^ rotate near 19 ^^^ (near >>> 10)
    let sigma0 := rotate far 7 ^^^ rotate far 18 ^^^ (far >>> 3)
    stretch count ((sigma1 + words.getD 6 0 + sigma0 + words.getD 15 0) :: words)

/-- Mixes one block of sixteen words into the state. -/
def State.absorb (s : State) (block : List UInt32) : State :=
  let schedule := (stretch 48 block.reverse).reverse
  s.add ((List.zipWith (· + ·) roundConstants schedule).foldl State.round s)

/-- The message, a one bit, zeros up to the last eight bytes of a block, and the length in bits. -/
def pad (message : List UInt8) : List UInt8 :=
  let zeros := (119 - message.length % 64) % 64
  message ++ 0x80 :: List.replicate zeros 0 ++ BigEndian.bytes 8 (8 * message.length)

/-- Four bytes a word, the most significant first. -/
def toWords : List UInt8 → List UInt32
  | a :: b :: c :: d :: rest => UInt32.ofNat (BigEndian.value [a, b, c, d]) :: toWords rest
  | _ => []

/-- The first `count` blocks of sixteen words. -/
def toBlocks : (count : Nat) → List UInt32 → List (List UInt32)
  | 0, _ => []
  | count + 1, words => words.take 16 :: toBlocks count (words.drop 16)

def digest (message : List UInt8) : Hash :=
  let words := toWords (pad message)
  let final := (toBlocks (words.length / 16) words).foldl State.absorb State.initial
  ⟨final.words.flatMap fun word => BigEndian.bytes 4 word.toNat, by simp [State.words]⟩

end MinerGateway.Sha256
