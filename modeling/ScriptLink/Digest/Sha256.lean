import ScriptLink.Text.CodePoint

/-! # SHA-256

    The digest of a byte string. The message is padded to whole blocks of sixteen words; each block is stretched to
    sixty-four words and mixed into a state of eight. -/

namespace ScriptLink.Sha256

-- Powers of natural numbers are those of the language, also where others are in scope.
attribute [local instance (10000)] instPowNat

/-- The eight words of the state. -/
structure State where
  a : UInt32
  b : UInt32
  c : UInt32
  d : UInt32
  e : UInt32
  f : UInt32
  g : UInt32
  h : UInt32

/-- The state before the first block: the fractional parts of the square roots of the first eight primes. -/
def start : State :=
  ⟨0x6a09e667, 0xbb67ae85, 0x3c6ef372, 0xa54ff53a, 0x510e527f, 0x9b05688c, 0x1f83d9ab, 0x5be0cd19⟩

/-- The constants of the rounds: the fractional parts of the cube roots of the first sixty-four primes. -/
def roundConstants : List UInt32 :=
  [0x428a2f98, 0x71374491, 0xb5c0fbcf, 0xe9b5dba5, 0x3956c25b, 0x59f111f1, 0x923f82a4, 0xab1c5ed5,
   0xd807aa98, 0x12835b01, 0x243185be, 0x550c7dc3, 0x72be5d74, 0x80deb1fe, 0x9bdc06a7, 0xc19bf174,
   0xe49b69c1, 0xefbe4786, 0x0fc19dc6, 0x240ca1cc, 0x2de92c6f, 0x4a7484aa, 0x5cb0a9dc, 0x76f988da,
   0x983e5152, 0xa831c66d, 0xb00327c8, 0xbf597fc7, 0xc6e00bf3, 0xd5a79147, 0x06ca6351, 0x14292967,
   0x27b70a85, 0x2e1b2138, 0x4d2c6dfc, 0x53380d13, 0x650a7354, 0x766a0abb, 0x81c2c92e, 0x92722c85,
   0xa2bfe8a1, 0xa81a664b, 0xc24b8b70, 0xc76c51a3, 0xd192e819, 0xd6990624, 0xf40e3585, 0x106aa070,
   0x19a4c116, 0x1e376c08, 0x2748774c, 0x34b0bcb5, 0x391c0cb3, 0x4ed8aa4a, 0x5b9cca4f, 0x682e6ff3,
   0x748f82ee, 0x78a5636f, 0x84c87814, 0x8cc70208, 0x90befffa, 0xa4506ceb, 0xbef9a3f7, 0xc67178f2]

/-- A word turned right by some bits. -/
def turn (x : UInt32) (n : UInt32) : UInt32 :=
  (x >>> n) ||| (x <<< (32 - n))

/-- A number as eight bytes, the highest first. -/
def lengthBytes (n : Nat) : List UInt8 :=
  (List.range 8).map fun i => (n / 256 ^ (7 - i)).toUInt8

/-- The message padded to a multiple of 64 bytes: a marker, zeros, and the length in bits. -/
def pad (message : List UInt8) : List UInt8 :=
  let zeros := (119 - message.length % 64) % 64
  message ++ 0x80 :: List.replicate zeros 0 ++ lengthBytes (message.length * 8)

/-- The words that the bytes spell, four at a time. -/
def words : List UInt8 → List UInt32
  | a :: b :: c :: d :: rest =>
    ((a.toUInt32 <<< 24) ||| (b.toUInt32 <<< 16) ||| (c.toUInt32 <<< 8) ||| d.toUInt32) :: words rest
  | _ => []

/-- The next word of the stretched block; the words so far are given in reverse. -/
def nextWord (done : List UInt32) : UInt32 :=
  let back (n : Nat) : UInt32 := done.getD (n - 1) 0
  let s₀ := turn (back 15) 7 ^^^ turn (back 15) 18 ^^^ (back 15 >>> 3)
  let s₁ := turn (back 2) 17 ^^^ turn (back 2) 19 ^^^ (back 2 >>> 10)
  back 16 + s₀ + back 7 + s₁

/-- The sixty-four words of a block of sixteen. -/
def stretch (block : List UInt32) : List UInt32 :=
  ((List.range 48).foldl (fun done _ => nextWord done :: done) block.reverse).reverse

/-- A round with its constant and its word. -/
def mixWord (s : State) (constant word : UInt32) : State :=
  let s₁ := turn s.e 6 ^^^ turn s.e 11 ^^^ turn s.e 25
  let choice := (s.e &&& s.f) ^^^ (~~~ s.e &&& s.g)
  let t₁ := s.h + s₁ + choice + constant + word
  let s₀ := turn s.a 2 ^^^ turn s.a 13 ^^^ turn s.a 22
  let majority := (s.a &&& s.b) ^^^ (s.a &&& s.c) ^^^ (s.b &&& s.c)
  ⟨t₁ + s₀ + majority, s.a, s.b, s.c, s.d + t₁, s.e, s.f, s.g⟩

/-- The state after a block. -/
def mixBlock (s : State) (block : List UInt32) : State :=
  let t := (roundConstants.zip (stretch block)).foldl (fun t round => mixWord t round.1 round.2) s
  ⟨s.a + t.a, s.b + t.b, s.c + t.c, s.d + t.d, s.e + t.e, s.f + t.f, s.g + t.g, s.h + t.h⟩

/-- The state after so many blocks of the message. -/
def mixBlocks : Nat → State → List UInt32 → State
  | 0, s, _ => s
  | blocks + 1, s, message => mixBlocks blocks (mixBlock s (message.take 16)) (message.drop 16)

/-- The digest of a message in hexadecimal digits. -/
def hexDigest (message : List UInt8) : Text :=
  let padded := pad message
  let s := mixBlocks (padded.length / 64) start (words padded)
  [s.a, s.b, s.c, s.d, s.e, s.f, s.g, s.h].flatMap fun word => Text.hex 8 word.toNat

end ScriptLink.Sha256
