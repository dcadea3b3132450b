import ScriptLink.Number.Shortest
import ScriptLink.Text.CodePoint

/-! # Numbers in text

    A double is written with its shortest digits. Where the decimal point goes, and which words stand for the values
    without digits, differs between the two sides of the link: each has its own layout record. -/

namespace ScriptLink

/-- The decisions that a way of writing doubles makes. -/
structure Layout where
  /-- The exponents of the leading digit that are written positionally, both ends included. -/
  lowest : Int
  highest : Int
  /-- Whether a whole number keeps a point and a zero. -/
  keepsFraction : Bool
  /-- The least number of digits of a written exponent. -/
  exponentWidth : Nat
  /-- Whether a negative zero keeps its sign. -/
  signsZero : Bool
  nan : Text
  infinity : Text

/-- The caller's side: `1.0`, `1e+16`, `1e-05`, `-0.0`, `nan`, `inf`. -/
def Layout.host : Layout where
  lowest := -4
  highest := 15
  keepsFraction := true
  exponentWidth := 2
  signsZero := true
  nan := .ofString "nan"
  infinity := .ofString "inf"

/-- The script's side: `1`, `1e+21`, `1e-7`, `0` for a negative zero, `NaN`, `Infinity`. -/
def Layout.script : Layout where
  lowest := -6
  highest := 20
  keepsFraction := false
  exponentWidth := 1
  signsZero := false
  nan := .ofString "NaN"
  infinity := .ofString "Infinity"

namespace Layout

/-- Digits behind a point, if there are any. -/
def fraction (digits : Text) : Text :=
  if digits = [] then [] else 0x2E :: digits

/-- An exponent with its sign and its least width. -/
def exponentText (layout : Layout) (exponent : Int) : Text :=
  let digits := Text.ofNat exponent.natAbs
  0x65 :: (if exponent < 0 then 0x2D else 0x2B) :: List.replicate (layout.exponentWidth - digits.length) 0x30 ++ digits

/-- The digits of a decimal without trailing zeros, and the exponent of the leading digit. -/
def normalDigits (d : Decimal) : Text × Int :=
  let digits := Text.ofNat d.digits
  ((digits.reverse.dropWhile (· = 0x30)).reverse, d.exponent + digits.length - 1)

/-- A positive decimal in this layout. -/
def decimal (layout : Layout) (d : Decimal) : Text :=
  let (digits, exponent) := normalDigits d
  if layout.lowest ≤ exponent ∧ exponent ≤ layout.highest then
    if exponent < 0 then
      Text.ofString "0." ++ List.replicate (-exponent - 1).toNat 0x30 ++ digits
    else
      let places := exponent.toNat + 1
      let whole := digits.take places ++ List.replicate (places - digits.length) 0x30
      let rest := digits.drop places
      if rest = [] then (if layout.keepsFraction then whole ++ Text.ofString ".0" else whole)
      else whole ++ fraction rest
  else digits.take 1 ++ fraction (digits.drop 1) ++ layout.exponentText exponent

/-- A double in this layout. -/
def write (layout : Layout) : Double → Text
  | .nan => layout.nan
  | .signed negative magnitude =>
    let body :=
      if magnitude.val = infinityCode then layout.infinity
      else if magnitude.val = 0 then (if layout.keepsFraction then Text.ofString "0.0" else [0x30])
      else layout.decimal (Decimal.shortest magnitude.val)
    if negative ∧ (magnitude.val ≠ 0 ∨ layout.signsZero) then 0x2D :: body else body

end Layout

end ScriptLink
