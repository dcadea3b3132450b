/-! # Text as a sequence of code points

    A text may hold any code point from 0 to 0x10FFFF, surrogates included and alone, so it is a list of bounded
    numbers and not a `String`. Two surrogates that stand next to each other stay two code points here; `Text.join`
    makes one character of them, which is what happens to a text on its way through 16-bit units. -/

namespace ScriptLink

/-- A Unicode code point; surrogates are code points like any other. -/
abbrev CodePoint := Fin 0x110000

instance neZero_codePoints : @NeZero Nat Zero.ofOfNat0 0x110000 := ⟨by decide⟩

/-- A sequence of code points. -/
abbrev Text := List CodePoint

namespace CodePoint

/-- The code point with this number; numbers beyond the last code point give the replacement character. -/
def ofNat (n : Nat) : CodePoint :=
  if h : n < 0x110000 then ⟨n, h⟩ else 0xFFFD

/-- The code point of a character. -/
def ofChar (c : Char) : CodePoint :=
  ofNat c.toNat

/-- The first half of a surrogate pair. -/
def IsHigh (c : CodePoint) : Prop := 0xD800 ≤ c.val ∧ c.val < 0xDC00

/-- The second half of a surrogate pair. -/
def IsLow (c : CodePoint) : Prop := 0xDC00 ≤ c.val ∧ c.val < 0xE000

instance (c : CodePoint) : Decidable c.IsHigh := inferInstanceAs (Decidable (_ ∧ _))

instance (c : CodePoint) : Decidable c.IsLow := inferInstanceAs (Decidable (_ ∧ _))

/-- The code point that a high and a low half stand for together. -/
def paired (high low : Nat) : CodePoint :=
  ofNat (0x10000 + (high - 0xD800) * 0x400 + (low - 0xDC00))

/-- The character of a code point, or none for a surrogate. -/
def toChar? (c : CodePoint) : Option Char :=
  if h : c.val.isValidChar then some ⟨c.val.toUInt32, by
    have := c.isLt
    simpa [UInt32.isValidChar, Nat.toUInt32, UInt32.toNat_ofNat_of_lt' (show c.val < UInt32.size by simp [UInt32.size]; omega)]
      using h⟩
  else none

end CodePoint

namespace Text

/-- The code points of a string. -/
def ofString (s : String) : Text :=
  s.toList.map CodePoint.ofChar

/-- The string of a text, or none when the text holds a surrogate. -/
def toString? (t : Text) : Option String :=
  (t.mapM CodePoint.toChar?).map String.ofList

/-- A code point put in front of a text, or joined with the first one where the two are the halves of a pair. -/
def joinCons (c : CodePoint) : Text → Text
  | [] => [c]
  | d :: rest => if c.IsHigh ∧ d.IsLow then CodePoint.paired c.val d.val :: rest else c :: d :: rest

/-- Adjacent high and low surrogates joined into the character that they stand for. No code point can be half of
    two pairs, so the order in which the pairs are joined does not matter. -/
def join (t : Text) : Text :=
  t.foldr joinCons []

@[simp] theorem join_nil : join [] = [] := rfl

@[simp] theorem join_cons (c : CodePoint) (t : Text) : join (c :: t) = joinCons c (join t) := rfl

/-- The text of a natural number in decimal digits. -/
def ofNat (n : Nat) : Text :=
  ofString (toString n)

/-- The text of an integer in decimal digits. -/
def ofInt (n : Int) : Text :=
  match n with
  | .ofNat n => ofNat n
  | .negSucc n => 0x2D :: ofNat (n + 1)

/-- The digit of a number below sixteen, in lower case. -/
def hexDigit (n : Nat) : CodePoint :=
  .ofNat (if n < 10 then 0x30 + n else 0x57 + n)

/-- The last `width` hexadecimal digits of a number, in lower case. -/
def hex : Nat → Nat → Text
  | 0, _ => []
  | width + 1, n => hex width (n / 16) ++ [hexDigit (n % 16)]

/-- The texts one after the other, with a separator between each two. -/
def intercalate (separator : Text) (parts : List Text) : Text :=
  List.intercalate separator parts

end Text

end ScriptLink
