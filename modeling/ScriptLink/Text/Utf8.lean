import ScriptLink.Text.CodePoint

/-! # UTF-8

    Strict reading: only the shortest form of a character is accepted, surrogates and numbers beyond the last code
    point are not. The reader takes one byte at a time; after a leading byte it knows how many continuation bytes are
    owed and between which bounds the next one must lie, and these bounds alone shut out every refused form. -/

namespace ScriptLink.Utf8

/-- What is still owed inside a character: the number of continuation bytes, the bounds of the next one, and the
    bits read so far. -/
structure Owed where
  count : Nat
  low : Nat
  high : Nat
  bits : Nat
deriving DecidableEq

/-- What a leading byte above 0x7F announces. -/
def Owed.ofLead (b : Nat) : Option Owed :=
  if 0xC2 ≤ b ∧ b ≤ 0xDF then some ⟨1, 0x80, 0xBF, b - 0xC0⟩
  else if b = 0xE0 then some ⟨2, 0xA0, 0xBF, 0⟩
  else if b = 0xED then some ⟨2, 0x80, 0x9F, 0xD⟩
  else if 0xE1 ≤ b ∧ b ≤ 0xEF then some ⟨2, 0x80, 0xBF, b - 0xE0⟩
  else if b = 0xF0 then some ⟨3, 0x90, 0xBF, 0⟩
  else if 0xF1 ≤ b ∧ b ≤ 0xF3 then some ⟨3, 0x80, 0xBF, b - 0xF0⟩
  else if b = 0xF4 then some ⟨3, 0x80, 0x8F, 4⟩
  else none

/-- The text read so far, in reverse, with the bytes still to come; `owed` is `none` between characters. -/
def decodeFrom (done : Text) : Option Owed → List UInt8 → Option Text
  | none, [] => some done.reverse
  | some _, [] => none
  | none, b :: rest =>
    if b.toNat < 0x80 then decodeFrom (.ofNat b.toNat :: done) none rest
    else match Owed.ofLead b.toNat with
      | some owed => decodeFrom done (some owed) rest
      | none => none
  | some owed, b :: rest =>
    if owed.low ≤ b.toNat ∧ b.toNat ≤ owed.high then
      let bits := owed.bits * 64 + b.toNat % 64
      if owed.count = 1 then decodeFrom (.ofNat bits :: done) none rest
      else decodeFrom done (some ⟨owed.count - 1, 0x80, 0xBF, bits⟩) rest
    else none

/-- The text that the bytes spell, or none when they are not UTF-8. -/
def decode (bytes : List UInt8) : Option Text :=
  decodeFrom [] none bytes

/-- The bytes of a code point; a lone surrogate has none of its own and is written as the replacement character. -/
def encodeOne (c : CodePoint) : List UInt8 :=
  let n := if c.IsHigh ∨ c.IsLow then 0xFFFD else c.val
  if n < 0x80 then [n.toUInt8]
  else if n < 0x800 then [(0xC0 + n / 64).toUInt8, (0x80 + n % 64).toUInt8]
  else if n < 0x10000 then [(0xE0 + n / 4096).toUInt8, (0x80 + n / 64 % 64).toUInt8, (0x80 + n % 64).toUInt8]
  else [(0xF0 + n / 262144).toUInt8, (0x80 + n / 4096 % 64).toUInt8, (0x80 + n / 64 % 64).toUInt8,
    (0x80 + n % 64).toUInt8]

/-- The UTF-8 bytes of a text. -/
def encode (t : Text) : List UInt8 :=
  t.flatMap encodeOne

end ScriptLink.Utf8
