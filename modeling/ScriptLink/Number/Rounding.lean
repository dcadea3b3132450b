import ScriptLink.Number.Double

/-! # Rounding to the nearest double

    A non-negative rational is rounded to the code whose value is nearest, a tie going to the even code. Infinity
    takes part as if it were the double after the largest finite one, so what lies half a step or more beyond the
    largest finite magnitude becomes infinite. Integers and decimal notations are rounded from their exact value. -/

namespace ScriptLink

-- Powers of natural numbers are those of the language, also where others are in scope.
attribute [local instance (10000)] instPowNat

/-- The quotient rounded to the nearest natural number, a tie going to the even one. -/
def roundHalfEven (n d : Nat) : Nat :=
  let q := n / d
  if 2 * (n % d) < d then q
  else if d < 2 * (n % d) then q + 1
  else if q % 2 = 0 then q else q + 1

/-- The code nearest to `n / d` units. Below 2^53 units the codes are the natural numbers; above, 53 binary digits
    are kept, and each further digit of the whole part moves the code by 2^52. -/
def nearestCode (n d : Nat) : Nat :=
  let shift := Nat.log2 (n / d) - 52
  min (roundHalfEven n (d * 2 ^ shift) + shift * 2 ^ (52 : Nat)) infinityCode

theorem nearestCode_le (n d : Nat) : nearestCode n d ≤ infinityCode :=
  Nat.min_le_right _ _

/-- The magnitude nearest to the rational `n / d`. -/
def Magnitude.ofRatio (n d : Nat) : Magnitude :=
  ⟨nearestCode (n * unitsPerOne) d, Nat.lt_succ_of_le (nearestCode_le _ _)⟩

namespace Double

/-- The double nearest to `n / d`, negated on demand. -/
def ofRatio (negative : Bool) (n d : Nat) : Double :=
  .signed negative (Magnitude.ofRatio n d)

/-- The double nearest to an integer; infinite when the integer is too large. -/
def ofInt : Int → Double
  | .ofNat n => ofRatio false n 1
  | .negSucc n => ofRatio true (n + 1) 1

theorem ofInt_eq (n : Int) : ofInt n = ofRatio (n < 0) n.natAbs 1 := by
  cases n with
  | ofNat n => simp [ofInt, Int.not_lt.mpr (Int.natCast_nonneg n)]
  | negSucc n => simp [ofInt, Int.negSucc_lt_zero]

/-- The double nearest to an integer, or none when the integer is too large for a finite one. -/
def ofInt? (n : Int) : Option Double :=
  if (ofInt n).isFinite then some (ofInt n) else none

/-- The double nearest to `digits * 10^exponent`. As 10 lies between 2^3 and 2^4, the number of binary digits alone
    shows of very large values that they are infinite, and of very small ones that they are zero; the power of ten is
    not computed then. -/
def ofDecimal (negative : Bool) (digits : Nat) (exponent : Int) : Double :=
  if digits = 0 then .signed negative 0
  else if 0 ≤ exponent then
    if 1024 ≤ Nat.log2 digits + 3 * exponent.toNat then infinity negative
    else ofRatio negative (digits * 10 ^ exponent.toNat) 1
  else if Nat.log2 digits + 1076 ≤ 3 * (-exponent).toNat then .signed negative 0
  else ofRatio negative digits (10 ^ (-exponent).toNat)

end Double

end ScriptLink
