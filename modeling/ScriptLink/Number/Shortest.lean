import ScriptLink.Number.Rounding

/-! # The shortest decimal digits of a double

    A decimal `digits * 10^exponent` reads back as a given finite magnitude when it lies in the magnitude's rounding
    interval: between the midpoints to its two neighbours, the midpoints included where the code is even. The digits
    chosen for a magnitude are those on the coarsest decimal grid that has a point in the interval; of two such
    points the nearer one, and the even one where both are equally near. The magnitude itself always lies on the
    grid of 10^-1074, so some digits are always found. -/

namespace ScriptLink

-- Powers of natural numbers are those of the language, also where others are in scope.
attribute [local instance (10000)] instPowNat

/-- A decimal `digits * 10^exponent`. -/
structure Decimal where
  digits : Nat
  exponent : Int
deriving DecidableEq, Repr, Inhabited

namespace Decimal

/-- Whether the decimal lies in the rounding interval of a code. Everything is counted in half units, with the
    powers of ten on the side where they are natural numbers. -/
def readsAs (d : Decimal) (code : Nat) : Bool :=
  let value := 2 * d.digits * 10 ^ d.exponent.toNat * unitsPerOne
  let scale := 10 ^ (-d.exponent).toNat
  let low := (unitsOfCode (code - 1) + unitsOfCode code) * scale
  let high := (unitsOfCode code + unitsOfCode (code + 1)) * scale
  if code % 2 = 0 then low ≤ value && value ≤ high else low < value && value < high

/-- The distance between the decimal and a code's value, scaled by 10 to the power that clears the fraction. -/
def distance (d : Decimal) (code : Nat) : Nat :=
  let value := d.digits * 10 ^ d.exponent.toNat * unitsPerOne
  let exact := unitsOfCode code * 10 ^ (-d.exponent).toNat
  (value - exact) + (exact - value)

/-- The whole number of steps of 10^exponent that fit into a code's value. -/
def stepsBelow (code : Nat) (exponent : Int) : Nat :=
  unitsOfCode code * 10 ^ (-exponent).toNat / (unitsPerOne * 10 ^ exponent.toNat)

/-- The point of the grid of 10^exponent that is chosen for a code, if the grid has one in its rounding interval. -/
def onGrid (code : Nat) (exponent : Int) : Option Decimal :=
  let below : Decimal := ⟨stepsBelow code exponent, exponent⟩
  let above : Decimal := ⟨stepsBelow code exponent + 1, exponent⟩
  if below.readsAs code then
    if above.readsAs code then
      if below.distance code < above.distance code then some below
      else if above.distance code < below.distance code then some above
      else if below.digits % 2 = 0 then some below else some above
    else some below
  else if above.readsAs code then some above
  else none

/-- An exponent of ten that no grid with a point in the interval of the code exceeds. -/
def coarsest (code : Nat) : Int :=
  ((Nat.log2 (unitsOfCode code) : Int) - 1073) * 30103 / 100000 + 1

/-- The exact value of a code, which is a multiple of 10^-1074. -/
def exact (code : Nat) : Decimal :=
  ⟨unitsOfCode code * 5 ^ (1074 : Nat), -1074⟩

/-- The shortest decimal that reads back as the code. -/
def shortest (code : Nat) : Decimal :=
  ((List.range 24).findSome? fun (step : Nat) => onGrid code (coarsest code - step)).getD (exact code)

end Decimal

end ScriptLink
