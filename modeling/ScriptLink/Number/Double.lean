/-! # Doubles

    A double is not a number or a sign with a code. The code of a finite magnitude is its place in the increasing
    order of all finite magnitudes, which is also what the 63 low bits of the IEEE-754 form spell; the code after the
    largest finite one stands for infinity. All finite magnitudes are multiples of 2^-1074, so `units` gives them
    exactly as natural numbers; infinity takes the place that the next double would have, 2^1024. Main statements:
    `units` is strictly increasing, and codes below 2^53 are their own units. -/

namespace ScriptLink

-- Powers of natural numbers are those of the language, also where others are in scope.
attribute [local instance (10000)] instPowNat

/-- The code of infinity: one more than that of the largest finite magnitude. -/
abbrev infinityCode : Nat := 0x7FF0000000000000

/-- The code of a magnitude, that of infinity included. -/
abbrev Magnitude := Fin (infinityCode + 1)

-- Zero is that of the language too, and this instance goes before those for sums.
instance (priority := high) neZero_magnitudes : @NeZero Nat Zero.ofOfNat0 (infinityCode + 1) := ⟨by decide⟩

/-- An IEEE-754 double; there is one value that is not a number. -/
inductive Double where
  | nan
  | signed (negative : Bool) (magnitude : Magnitude)
deriving DecidableEq, Inhabited

/-- The multiple of 2^-1074 that a code stands for. -/
def unitsOfCode (code : Nat) : Nat :=
  if code < 2 ^ (52 : Nat) then code else (2 ^ (52 : Nat) + code % 2 ^ (52 : Nat)) * 2 ^ (code / 2 ^ (52 : Nat) - 1)

/-- One unit is 1 / `unitsPerOne`. -/
abbrev unitsPerOne : Nat := 2 ^ (1074 : Nat)

theorem unitsOfCode_of_lt {code : Nat} (h : code < 2 ^ (53 : Nat)) : unitsOfCode code = code := by
  unfold unitsOfCode
  split
  · rfl
  · rename_i h'
    have hq : code / 2 ^ (52 : Nat) = 1 := by omega
    have hr : code % 2 ^ (52 : Nat) = code - 2 ^ (52 : Nat) := by omega
    rw [hq, hr]
    omega

theorem unitsOfCode_lt_succ (code : Nat) : unitsOfCode code < unitsOfCode (code + 1) := by
  by_cases h : code + 1 < 2 ^ (53 : Nat)
  · rw [unitsOfCode_of_lt h, unitsOfCode_of_lt (by omega)]
    omega
  · have h₁ : ¬ code < 2 ^ (52 : Nat) := by omega
    have h₂ : ¬ code + 1 < 2 ^ (52 : Nat) := by omega
    unfold unitsOfCode
    rw [if_neg h₁, if_neg h₂]
    by_cases hr : code % 2 ^ (52 : Nat) + 1 = 2 ^ (52 : Nat)
    · have hq : (code + 1) / 2 ^ (52 : Nat) = code / 2 ^ (52 : Nat) + 1 := by omega
      have hm : (code + 1) % 2 ^ (52 : Nat) = 0 := by omega
      have hs : code / 2 ^ (52 : Nat) + 1 - 1 = (code / 2 ^ (52 : Nat) - 1) + 1 := by omega
      rw [hq, hm, hs, Nat.pow_succ 2 (code / 2 ^ (52 : Nat) - 1)]
      have hp : 0 < 2 ^ (code / 2 ^ (52 : Nat) - 1) := Nat.pow_pos (by decide)
      have : 2 ^ (52 : Nat) + code % 2 ^ (52 : Nat) < (2 ^ (52 : Nat) + 0) * 2 := by omega
      calc (2 ^ (52 : Nat) + code % 2 ^ (52 : Nat)) * 2 ^ (code / 2 ^ (52 : Nat) - 1)
          < ((2 ^ (52 : Nat) + 0) * 2) * 2 ^ (code / 2 ^ (52 : Nat) - 1) := Nat.mul_lt_mul_of_pos_right this hp
        _ = (2 ^ (52 : Nat) + 0) * (2 ^ (code / 2 ^ (52 : Nat) - 1) * 2) := by rw [Nat.mul_assoc, Nat.mul_comm 2]
    · have hq : (code + 1) / 2 ^ (52 : Nat) = code / 2 ^ (52 : Nat) := by omega
      have hm : (code + 1) % 2 ^ (52 : Nat) = code % 2 ^ (52 : Nat) + 1 := by omega
      rw [hq, hm]
      exact Nat.mul_lt_mul_of_pos_right (by omega) (Nat.pow_pos (by decide))

theorem unitsOfCode_lt {a b : Nat} (h : a < b) : unitsOfCode a < unitsOfCode b := by
  induction h with
  | refl => exact unitsOfCode_lt_succ a
  | step _ ih => exact Nat.lt_trans ih (unitsOfCode_lt_succ _)

namespace Double

/-- Positive zero. -/
def zero : Double := .signed false 0

/-- Infinity with this sign. -/
def infinity (negative : Bool) : Double := .signed negative (Fin.last infinityCode)

/-- The double with this IEEE-754 bit pattern. -/
def ofBits (bits : UInt64) : Double :=
  let code := bits.toNat % 2 ^ (63 : Nat)
  if h : code < infinityCode + 1 then .signed (2 ^ (63 : Nat) ≤ bits.toNat) ⟨code, h⟩ else .nan

/-- The IEEE-754 bit pattern of a double; the value that is not a number has a quiet pattern. -/
def toBits : Double → UInt64
  | .nan => 0x7FF8000000000000
  | .signed negative magnitude => (magnitude.val + if negative then 2 ^ (63 : Nat) else 0).toUInt64

/-- Whether the double is neither infinite nor without a number. -/
def isFinite : Double → Bool
  | .nan => false
  | .signed _ magnitude => magnitude.val != infinityCode

/-- Whether the double is a zero of either sign. -/
def isZero : Double → Bool
  | .nan => false
  | .signed _ magnitude => magnitude.val == 0

/-- The double with the other sign. -/
def neg : Double → Double
  | .nan => .nan
  | .signed negative magnitude => .signed (!negative) magnitude

/-- The double with a negative zero made positive. -/
def clearZeroSign (d : Double) : Double :=
  if d.isZero then zero else d

theorem clearZeroSign_idem (d : Double) : d.clearZeroSign.clearZeroSign = d.clearZeroSign := by
  cases h : d.isZero with
  | true =>
    have hd : d.clearZeroSign = .zero := by rw [clearZeroSign, if_pos h]
    rw [hd]
    decide
  | false =>
    have hd : d.clearZeroSign = d := by simp [clearZeroSign, h]
    rw [hd, hd]

/-- The integer that a finite double is equal to, if it is one. -/
def toInt? : Double → Option Int
  | .nan => none
  | .signed negative magnitude =>
    let units := unitsOfCode magnitude.val
    if magnitude.val = infinityCode then none
    else if units % unitsPerOne = 0 then
      some (if negative then -(units / unitsPerOne : Nat) else (units / unitsPerOne : Nat))
    else none

/-- Equality as numbers: the two zeros are equal, and nothing equals what is not a number. -/
def numEq : Double → Double → Bool
  | .signed n₁ m₁, .signed n₂ m₂ => m₁ == m₂ && (n₁ == n₂ || m₁.val == 0)
  | _, _ => false

end Double

end ScriptLink
