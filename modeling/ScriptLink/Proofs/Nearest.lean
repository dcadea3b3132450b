import Mathlib.Tactic.Ring
import Mathlib.Tactic.Linarith
import ScriptLink.Number.Shortest

/-! # The nearest double

    Every code has a rounding interval: what lies between the midpoints to its two neighbours, the midpoints included
    where the code is even. Rounding puts a rational into the interval of the code that it gives, and no rational lies
    in two intervals, so whatever lies in the interval of a code is rounded to it. Main statements: `ofDecimal` gives
    the code in whose interval the decimal lies, in spite of its short cuts for very large and very small decimals, and
    the shortest decimal of a code lies in the interval of the code. -/

namespace ScriptLink

-- Powers of natural numbers are those of the language, also where others are in scope.
attribute [local instance (10000)] instPowNat

/-- Whether the rational `n / d`, in units, lies in the rounding interval of a code. -/
def InInterval (n d code : Nat) : Prop :=
  (unitsOfCode (code - 1) + unitsOfCode code) * d ≤ 2 * n ∧ 2 * n ≤ (unitsOfCode code + unitsOfCode (code + 1)) * d ∧
    (code % 2 = 1 →
      (unitsOfCode (code - 1) + unitsOfCode code) * d ≠ 2 * n ∧ 2 * n ≠ (unitsOfCode code + unitsOfCode (code + 1)) * d)

theorem unitsOfCode_le {a b : Nat} (h : a ≤ b) : unitsOfCode a ≤ unitsOfCode b := by
  rcases Nat.eq_or_lt_of_le h with rfl | h
  · exact Nat.le_refl _
  · exact Nat.le_of_lt (unitsOfCode_lt h)

theorem unitsOfCode_pos {code : Nat} (h : 0 < code) : 0 < unitsOfCode code := by
  have : unitsOfCode 0 = 0 := unitsOfCode_of_lt (by decide)
  exact this ▸ unitsOfCode_lt h

/-- A mantissa and the number of binary digits behind it, as a code: the value is the mantissa at that scale. -/
theorem unitsOfCode_scaled {m shift : Nat} (hm : m ≤ 2 ^ 53) (hs : shift = 0 ∨ 2 ^ 52 ≤ m) :
    unitsOfCode (m + shift * 2 ^ 52) = m * 2 ^ shift := by
  rcases Nat.lt_or_ge m (2 ^ 52) with hlow | hlow
  · obtain rfl : shift = 0 := hs.resolve_right (by omega)
    rw [Nat.zero_mul, Nat.add_zero, Nat.pow_zero, Nat.mul_one]
    exact unitsOfCode_of_lt (by omega)
  · rw [unitsOfCode, if_neg (by omega)]
    rcases Nat.eq_or_lt_of_le hm with rfl | hm
    · have hr : (2 ^ 53 + shift * 2 ^ 52) % 2 ^ 52 = 0 := by omega
      have hq : (2 ^ 53 + shift * 2 ^ 52) / 2 ^ 52 - 1 = shift + 1 := by omega
      rw [hr, hq, Nat.pow_succ 2 shift]
      ring
    · have hr : (m + shift * 2 ^ 52) % 2 ^ 52 = m - 2 ^ 52 := by omega
      have hq : (m + shift * 2 ^ 52) / 2 ^ 52 - 1 = shift := by omega
      rw [hr, hq, Nat.add_sub_cancel' hlow]

/-! ### Rounding lands in the interval -/

/-- Half to even rounds down with at most half a step left, or up with at least half a step left; with exactly half a
    step the result is even. -/
theorem roundHalfEven_cases (n d : Nat) :
    (roundHalfEven n d = n / d ∧ 2 * (n % d) ≤ d ∧ (2 * (n % d) = d → roundHalfEven n d % 2 = 0)) ∨
      (roundHalfEven n d = n / d + 1 ∧ d ≤ 2 * (n % d) ∧ (d = 2 * (n % d) → roundHalfEven n d % 2 = 0)) := by
  unfold roundHalfEven
  dsimp only
  split
  · exact .inl ⟨rfl, by omega, by omega⟩
  · split
    · exact .inr ⟨rfl, by omega, by omega⟩
    · split
      · exact .inl ⟨rfl, by omega, fun _ => by assumption⟩
      · exact .inr ⟨rfl, by omega, by omega⟩

/-- The shift keeps 53 binary digits of the quotient, or all of them. -/
theorem quotient_of_shift {n d : Nat} :
    n / (d * 2 ^ (Nat.log2 (n / d) - 52)) < 2 ^ 53 ∧
      (Nat.log2 (n / d) - 52 = 0 ∨ 2 ^ 52 ≤ n / (d * 2 ^ (Nat.log2 (n / d) - 52))) := by
  rw [← Nat.div_div_eq_div_mul]
  rcases Nat.eq_zero_or_pos (n / d) with hq | hq
  · simp [hq]
  · have hlow := Nat.log2_self_le (Nat.pos_iff_ne_zero.mp hq)
    have hhigh : n / d < 2 ^ (Nat.log2 (n / d) + 1) := Nat.lt_log2_self
    generalize Nat.log2 (n / d) = l at hlow hhigh ⊢
    have hp : 0 < 2 ^ (l - 52) := Nat.pow_pos (by decide)
    constructor
    · rw [Nat.div_lt_iff_lt_mul hp, ← Nat.pow_add]
      exact Nat.lt_of_lt_of_le hhigh (Nat.pow_le_pow_right (by decide) (by omega))
    · rcases Nat.eq_zero_or_pos (l - 52) with h0 | h0
      · exact .inl h0
      · refine .inr ((Nat.le_div_iff_mul_le hp).mpr ?_)
        rw [← Nat.pow_add, show 52 + (l - 52) = l by omega]
        exact hlow

/-- The code that rounding gives, before it is cut off at infinity. -/
def roundedCode (n d : Nat) : Nat :=
  roundHalfEven n (d * 2 ^ (Nat.log2 (n / d) - 52)) + (Nat.log2 (n / d) - 52) * 2 ^ 52

theorem nearestCode_eq (n d : Nat) : nearestCode n d = min (roundedCode n d) infinityCode := rfl

/-- No other double is nearer than the rounded one, and where another one is as near, the rounded one is even. -/
theorem inInterval_roundedCode (n : Nat) {d : Nat} (hd : 0 < d) : InInterval n d (roundedCode n d) := by
  obtain ⟨hq, hshift⟩ := quotient_of_shift (n := n) (d := d)
  have hcases := roundHalfEven_cases n (d * 2 ^ (Nat.log2 (n / d) - 52))
  unfold roundedCode
  -- All that matters of the division is quotient and rest, and all that matters of the logarithm is the shift.
  generalize hs : Nat.log2 (n / d) - 52 = shift at hq hshift hcases ⊢
  have hD : 0 < d * 2 ^ shift := Nat.mul_pos hd (Nat.pow_pos (by decide))
  have hdiv := Nat.div_add_mod n (d * 2 ^ shift)
  have hmod := Nat.mod_lt n hD
  generalize hm : roundHalfEven n (d * 2 ^ shift) = m at hcases ⊢
  generalize n / (d * 2 ^ shift) = q at hq hshift hcases hdiv
  generalize n % (d * 2 ^ shift) = r at hcases hdiv hmod
  have hparity : (m + shift * 2 ^ 52) % 2 = m % 2 := by omega
  have hself : unitsOfCode (m + shift * 2 ^ 52) * d = m * (d * 2 ^ shift) := by
    rw [unitsOfCode_scaled (by omega) (by omega)]
    ring
  have hbelow := unitsOfCode_le (Nat.sub_le (m + shift * 2 ^ 52) 1)
  have habove := unitsOfCode_lt_succ (m + shift * 2 ^ 52)
  rw [InInterval, hparity, Nat.add_mul, Nat.add_mul, hself]
  rcases hcases with ⟨rfl, hr, heven⟩ | ⟨rfl, hr, heven⟩
  · -- Rounded down: only the upper midpoint is near.
    have hnext : (m + 1) * (d * 2 ^ shift) ≤ unitsOfCode (m + shift * 2 ^ 52 + 1) * d := by
      rcases Nat.lt_or_ge m (2 ^ 53) with h | h
      · rw [Nat.add_right_comm, unitsOfCode_scaled (by omega) (by omega)]
        exact Nat.le_of_eq (by ring)
      · omega
    have hlow : unitsOfCode (m + shift * 2 ^ 52 - 1) * d ≤ m * (d * 2 ^ shift) :=
      hself ▸ Nat.mul_le_mul_right d hbelow
    rw [Nat.add_mul, Nat.one_mul] at hnext
    rw [Nat.mul_comm] at hdiv
    refine ⟨by omega, by omega, fun hodd => ⟨?_, by omega⟩⟩
    have hstrict : unitsOfCode (m + shift * 2 ^ 52 - 1) * d < m * (d * 2 ^ shift) := by
      rw [← hself]
      exact Nat.mul_lt_mul_of_pos_right (unitsOfCode_lt (by omega)) hd
    omega
  · -- Rounded up: only the lower midpoint is near.
    have hprev : unitsOfCode (q + 1 + shift * 2 ^ 52 - 1) * d = q * (d * 2 ^ shift) := by
      rw [show q + 1 + shift * 2 ^ 52 - 1 = q + shift * 2 ^ 52 by omega, unitsOfCode_scaled (by omega) hshift]
      ring
    have hnext : (q + 1) * (d * 2 ^ shift) < unitsOfCode (q + 1 + shift * 2 ^ 52 + 1) * d :=
      hself ▸ Nat.mul_lt_mul_of_pos_right habove hd
    rw [hprev]
    rw [Nat.mul_comm] at hdiv
    rw [Nat.add_mul, Nat.one_mul] at hnext ⊢
    refine ⟨by omega, by omega, fun hodd => ⟨by omega, by omega⟩⟩

/-! ### Intervals are disjoint -/

theorem InInterval.not_lt {n d a b : Nat} (hd : 0 < d) (ha : InInterval n d a) (hb : InInterval n d b) : ¬ a < b := by
  intro hlt
  have h₁ : unitsOfCode a ≤ unitsOfCode (b - 1) := unitsOfCode_le (by omega)
  have h₂ : unitsOfCode (a + 1) ≤ unitsOfCode b := unitsOfCode_le (by omega)
  have hsum := Nat.le_of_mul_le_mul_right (Nat.le_trans hb.1 ha.2.1) hd
  have heq : unitsOfCode a = unitsOfCode (b - 1) := by omega
  have hnext : a + 1 = b := by
    by_contra hne
    have := unitsOfCode_lt (show a < b - 1 by omega)
    omega
  subst hnext
  have hlow : (unitsOfCode (a + 1 - 1) + unitsOfCode (a + 1)) * d = 2 * n := Nat.le_antisymm hb.1 ha.2.1
  -- One of two neighbours is odd and does not hold the midpoint.
  rcases Nat.mod_two_eq_zero_or_one a with h | h
  · exact (hb.2.2 (by omega)).1 hlow
  · exact (ha.2.2 h).2 hlow.symm

theorem InInterval.unique {n d a b : Nat} (hd : 0 < d) (ha : InInterval n d a) (hb : InInterval n d b) : a = b :=
  Nat.le_antisymm (Nat.le_of_not_lt (InInterval.not_lt hd hb ha)) (Nat.le_of_not_lt (InInterval.not_lt hd ha hb))

/-- What lies in the interval of a code is rounded to it. -/
theorem nearestCode_of_inInterval {n d code : Nat} (hd : 0 < d) (h : InInterval n d code) (hc : code ≤ infinityCode) :
    nearestCode n d = code := by
  rw [nearestCode_eq, InInterval.unique hd (inInterval_roundedCode n hd) h]
  exact Nat.min_eq_left hc

/-- Whether a rational lies in an interval does not depend on how it is written. -/
theorem InInterval.congr {n d n' d' code : Nat} (hd : 0 < d) (hd' : 0 < d') (he : n * d' = n' * d)
    (h : InInterval n d code) : InInterval n' d' code := by
  have le {a : Nat} (ha : a * d ≤ 2 * n) : a * d' ≤ 2 * n' := by
    refine Nat.le_of_mul_le_mul_right ?_ hd
    calc a * d' * d = a * d * d' := Nat.mul_right_comm ..
      _ ≤ 2 * n * d' := Nat.mul_le_mul_right d' ha
      _ = 2 * n' * d := by rw [Nat.mul_assoc, he, Nat.mul_assoc]
  have ge {a : Nat} (ha : 2 * n ≤ a * d) : 2 * n' ≤ a * d' := by
    refine Nat.le_of_mul_le_mul_right ?_ hd
    calc 2 * n' * d = 2 * n * d' := by rw [Nat.mul_assoc, ← he, Nat.mul_assoc]
      _ ≤ a * d * d' := Nat.mul_le_mul_right d' ha
      _ = a * d' * d := Nat.mul_right_comm ..
  have eq {a : Nat} (ha : a * d' = 2 * n') : a * d = 2 * n := by
    refine Nat.eq_of_mul_eq_mul_right hd' ?_
    calc a * d * d' = a * d' * d := Nat.mul_right_comm ..
      _ = 2 * n * d' := by rw [ha, Nat.mul_assoc, ← he, Nat.mul_assoc]
  exact ⟨le h.1, ge h.2.1, fun hodd =>
    ⟨fun hl => (h.2.2 hodd).1 (eq hl), fun hh => (h.2.2 hodd).2 (eq hh.symm).symm⟩⟩

/-- A magnitude lies in its own interval. -/
theorem inInterval_unitsOfCode (code : Nat) : InInterval (unitsOfCode code) 1 code := by
  have hbelow := unitsOfCode_le (Nat.sub_le code 1)
  have habove := unitsOfCode_lt_succ code
  refine ⟨by omega, by omega, fun hodd => ?_⟩
  have hstrict := unitsOfCode_lt (show code - 1 < code by omega)
  omega

/-! ### Decimals -/

namespace Decimal

/-- The numerator of a decimal in units. -/
def numerator (d : Decimal) : Nat := d.digits * 10 ^ d.exponent.toNat * unitsPerOne

/-- The denominator of a decimal in units. -/
def denominator (d : Decimal) : Nat := 10 ^ (-d.exponent).toNat

theorem denominator_pos (d : Decimal) : 0 < d.denominator := Nat.pow_pos (by decide)

theorem readsAs_iff (d : Decimal) (code : Nat) : d.readsAs code = true ↔ InInterval d.numerator d.denominator code := by
  have hvalue : 2 * d.digits * 10 ^ d.exponent.toNat * unitsPerOne = 2 * d.numerator := by
    rw [numerator, Nat.mul_assoc 2, Nat.mul_assoc 2]
  unfold readsAs InInterval
  dsimp only
  rw [hvalue, ← denominator]
  rcases Nat.mod_two_eq_zero_or_one code with h | h
  · rw [if_pos h, Bool.and_eq_true, decide_eq_true_iff, decide_eq_true_iff]
    exact ⟨fun ⟨hl, hh⟩ => ⟨hl, hh, fun hodd => by omega⟩, fun ⟨hl, hh, _⟩ => ⟨hl, hh⟩⟩
  · rw [if_neg (by omega), Bool.and_eq_true, decide_eq_true_iff, decide_eq_true_iff]
    exact ⟨fun ⟨hl, hh⟩ => ⟨Nat.le_of_lt hl, Nat.le_of_lt hh, fun _ => ⟨Nat.ne_of_lt hl, Nat.ne_of_lt hh⟩⟩,
      fun ⟨hl, hh, hodd⟩ => ⟨Nat.lt_of_le_of_ne hl (hodd h).1, Nat.lt_of_le_of_ne hh (hodd h).2⟩⟩

/-- Zeros at the end of the digits can be moved into the exponent. -/
theorem readsAs_shift {digits zeros code : Nat} {exponent : Int} :
    Decimal.readsAs ⟨digits * 10 ^ zeros, exponent⟩ code = true ↔
      Decimal.readsAs ⟨digits, exponent + zeros⟩ code = true := by
  have he : Decimal.numerator ⟨digits * 10 ^ zeros, exponent⟩ * Decimal.denominator ⟨digits, exponent + zeros⟩ =
      Decimal.numerator ⟨digits, exponent + zeros⟩ * Decimal.denominator ⟨digits * 10 ^ zeros, exponent⟩ := by
    have hpow : 10 ^ zeros * 10 ^ exponent.toNat * 10 ^ (-(exponent + zeros)).toNat =
        10 ^ (exponent + zeros).toNat * 10 ^ (-exponent).toNat := by
      rw [← Nat.pow_add, ← Nat.pow_add, ← Nat.pow_add]
      congr 1
      omega
    simp only [numerator, denominator]
    generalize unitsPerOne = units
    calc digits * 10 ^ zeros * 10 ^ exponent.toNat * units * 10 ^ (-(exponent + zeros)).toNat
        = digits * units * (10 ^ zeros * 10 ^ exponent.toNat * 10 ^ (-(exponent + zeros)).toNat) := by ring
      _ = digits * 10 ^ (exponent + zeros).toNat * units * 10 ^ (-exponent).toNat := by rw [hpow]; ring
  rw [readsAs_iff, readsAs_iff]
  exact ⟨InInterval.congr (denominator_pos _) (denominator_pos _) he,
    InInterval.congr (denominator_pos _) (denominator_pos _) he.symm⟩

/-- Only zero has no digits. -/
theorem digits_pos {d : Decimal} {code : Nat} (h : d.readsAs code = true) (hc : 0 < code) : 0 < d.digits := by
  by_contra hz
  have hz : d.digits = 0 := by omega
  have hlow := ((readsAs_iff d code).mp h).1
  rw [numerator, hz, Nat.zero_mul, Nat.zero_mul, Nat.mul_zero, Nat.le_zero_eq, Nat.mul_eq_zero] at hlow
  have hunits := unitsOfCode_pos hc
  have hd := d.denominator_pos
  omega

end Decimal

/-! ### Decimal notations -/

theorem unitsOfCode_infinityCode : unitsOfCode infinityCode = 2 ^ 1024 * unitsPerOne := by
  have h : infinityCode = 2 ^ 52 + 2046 * 2 ^ 52 := by decide
  rw [h, unitsOfCode_scaled (by decide) (by decide), ← Nat.pow_add, ← Nat.pow_add]

/-- What is not below 2^1024 is rounded to infinity. -/
theorem nearestCode_of_ge {n d : Nat} (hd : 0 < d) (h : unitsOfCode infinityCode * d ≤ n) :
    nearestCode n d = infinityCode := by
  rw [nearestCode_eq]
  refine Nat.min_eq_right (Nat.le_of_not_lt fun hlt => ?_)
  have hhigh := (inInterval_roundedCode n hd).2.1
  have hself := Nat.mul_lt_mul_of_pos_right (unitsOfCode_lt hlt) hd
  have hnext := Nat.mul_le_mul_right d (unitsOfCode_le (show roundedCode n d + 1 ≤ infinityCode from hlt))
  rw [Nat.add_mul] at hhigh
  omega

/-- What is less than half a unit is rounded to zero. -/
theorem nearestCode_of_lt {n d : Nat} (h : 2 * n < d) : nearestCode n d = 0 := by
  have hzero : unitsOfCode 0 = 0 := unitsOfCode_of_lt (by decide)
  have hone : unitsOfCode 1 = 1 := unitsOfCode_of_lt (by decide)
  refine nearestCode_of_inInterval (Nat.lt_of_le_of_lt (Nat.zero_le _) h) ⟨?_, ?_, fun hodd => ?_⟩ (Nat.zero_le _)
  · rw [Nat.zero_sub, hzero, Nat.zero_mul]
    exact Nat.zero_le _
  · rw [hzero, Nat.zero_add, Nat.zero_add, hone, Nat.one_mul]
    exact Nat.le_of_lt h
  · cases hodd

theorem two_pow_le_ten_pow (n : Nat) : 2 ^ (3 * n) ≤ 10 ^ n := by
  rw [Nat.pow_mul]
  exact Nat.pow_le_pow_left (by decide) n

namespace Double

/-- A decimal notation is rounded from its exact value, whatever the number of its digits. -/
theorem ofDecimal_eq (negative : Bool) (digits : Nat) (exponent : Int) : ofDecimal negative digits exponent =
    ofRatio negative (digits * 10 ^ exponent.toNat) (10 ^ (-exponent).toNat) := by
  have hten : 0 < 10 ^ (-exponent).toNat := Nat.pow_pos (by decide)
  have rounds {m : Magnitude}
      (h : nearestCode (digits * 10 ^ exponent.toNat * unitsPerOne) (10 ^ (-exponent).toNat) = m.val) :
      Double.signed negative m = ofRatio negative (digits * 10 ^ exponent.toNat) (10 ^ (-exponent).toNat) :=
    congrArg _ (Fin.ext h.symm)
  rw [ofDecimal]
  split_ifs with hzero hwhole hlarge hsmall
  · refine rounds (nearestCode_of_lt ?_)
    rw [hzero, Nat.zero_mul, Nat.zero_mul]
    exact hten
  · -- The digits are at least a power of two, and so is the power of ten.
    have hdigits := Nat.log2_self_le hzero
    refine rounds (nearestCode_of_ge hten ?_)
    rw [show (-exponent).toNat = 0 by omega, Nat.pow_zero, Nat.mul_one, unitsOfCode_infinityCode]
    refine Nat.mul_le_mul_right _ ?_
    calc 2 ^ 1024 ≤ 2 ^ (Nat.log2 digits + 3 * exponent.toNat) := Nat.pow_le_pow_right (by decide) hlarge
      _ = 2 ^ Nat.log2 digits * 2 ^ (3 * exponent.toNat) := Nat.pow_add ..
      _ ≤ digits * 10 ^ exponent.toNat := Nat.mul_le_mul hdigits (two_pow_le_ten_pow _)
  · rw [show (-exponent).toNat = 0 by omega, Nat.pow_zero]
  · -- The digits are less than a power of two, which the power of ten below the line outweighs.
    have hdigits : digits < 2 ^ (Nat.log2 digits + 1) := Nat.lt_log2_self
    have outweighs (units : Nat) (hu : units = 1074) : 2 * (digits * 2 ^ units) < 10 ^ (-exponent).toNat := by
      calc 2 * (digits * 2 ^ units) = digits * (2 * 2 ^ units) := Nat.mul_left_comm ..
        _ < 2 ^ (Nat.log2 digits + 1) * (2 * 2 ^ units) :=
          Nat.mul_lt_mul_of_pos_right hdigits (Nat.mul_pos Nat.two_pos (Nat.two_pow_pos _))
        _ = 2 ^ (Nat.log2 digits + 1 + (units + 1)) := by rw [← Nat.pow_succ', ← Nat.pow_add]
        _ ≤ 2 ^ (3 * (-exponent).toNat) := Nat.pow_le_pow_right (by decide) (by omega)
        _ ≤ 10 ^ (-exponent).toNat := two_pow_le_ten_pow _
    refine rounds (nearestCode_of_lt ?_)
    rw [show exponent.toNat = 0 by omega, Nat.pow_zero, Nat.mul_one]
    exact outweighs _ rfl
  · rw [show exponent.toNat = 0 by omega, Nat.pow_zero, Nat.mul_one]

end Double

/-- A decimal in the interval of a magnitude is read as it. -/
theorem Double.ofDecimal_of_readsAs {d : Decimal} {magnitude : Magnitude} (negative : Bool)
    (h : d.readsAs magnitude.val = true) :
    Double.ofDecimal negative d.digits d.exponent = .signed negative magnitude := by
  have hround := nearestCode_of_inInterval d.denominator_pos ((Decimal.readsAs_iff d _).mp h)
    (Nat.le_of_lt_succ magnitude.isLt)
  rw [ofDecimal_eq]
  exact congrArg _ (Fin.ext hround)

/-- An integer that reads as a magnitude is converted to it. -/
theorem Double.ofInt_of_readsAs {n : Nat} {magnitude : Magnitude} (negative : Bool)
    (h : Decimal.readsAs ⟨n, 0⟩ magnitude.val = true) (hpos : 0 < magnitude.val) :
    Double.ofInt (if negative then -n else n) = .signed negative magnitude := by
  have hn : 0 < n := Decimal.digits_pos h hpos
  have hnear := nearestCode_of_inInterval (Decimal.denominator_pos _) ((Decimal.readsAs_iff _ _).mp h)
    (Nat.le_of_lt_succ magnitude.isLt)
  have hround : nearestCode (n * unitsPerOne) 1 = magnitude.val := by
    simpa [Decimal.numerator, Decimal.denominator] using hnear
  cases negative
  · have hsign : decide ((n : Int) < 0) = false := by simp
    simp only [Double.ofInt_eq, Double.ofRatio, Bool.false_eq_true, if_false, hsign, Int.natAbs_natCast]
    exact congrArg _ (Fin.ext hround)
  · have hsign : decide (-(n : Int) < 0) = true := by simp; omega
    simp only [Double.ofInt_eq, Double.ofRatio, if_true, hsign, Int.natAbs_neg, Int.natAbs_natCast]
    exact congrArg _ (Fin.ext hround)

theorem Double.ofInt_zero : Double.ofInt 0 = .zero := by
  have hround : nearestCode (0 * unitsPerOne) 1 = 0 := by
    have hself := inInterval_unitsOfCode 0
    rw [unitsOfCode_of_lt (show 0 < 2 ^ 53 by decide)] at hself
    rw [Nat.zero_mul]
    exact nearestCode_of_inInterval Nat.one_pos hself (Nat.zero_le _)
  have hmagnitude : Magnitude.ofRatio 0 1 = 0 := Fin.eq_of_val_eq hround
  rw [Double.ofInt_eq, Double.ofRatio, Int.natAbs_zero, hmagnitude]
  rfl

/-- Natural numbers below 2^53 are doubles. -/
theorem Double.ofInt_exact {n : Nat} (h : n < 2 ^ 53) : ∃ magnitude : Magnitude,
    Double.ofInt n = .signed false magnitude ∧ unitsOfCode magnitude.val = n * unitsPerOne ∧
      magnitude.val < infinityCode := by
  rcases Nat.eq_zero_or_pos n with rfl | hpos
  · refine ⟨0, Double.ofInt_zero, ?_, by decide⟩
    rw [Nat.zero_mul]
    exact unitsOfCode_of_lt (by decide)
  -- The binary digits of the number are filled up to 53, and the code counts those behind the point.
  have hlow := Nat.log2_self_le (Nat.pos_iff_ne_zero.mp hpos)
  have hhigh : n < 2 ^ (Nat.log2 n + 1) := Nat.lt_log2_self
  have hlog : Nat.log2 n < 53 := (Nat.pow_lt_pow_iff_right (show 1 < 2 by decide)).mp (Nat.lt_of_le_of_lt hlow h)
  generalize Nat.log2 n = l at hlow hhigh hlog
  have hfill : 2 ^ 52 ≤ n * 2 ^ (52 - l) ∧ n * 2 ^ (52 - l) < 2 ^ 53 := by
    constructor
    · calc 2 ^ 52 = 2 ^ l * 2 ^ (52 - l) := by rw [← Nat.pow_add]; congr 1; omega
        _ ≤ n * 2 ^ (52 - l) := Nat.mul_le_mul_right _ hlow
    · calc n * 2 ^ (52 - l) < 2 ^ (l + 1) * 2 ^ (52 - l) := Nat.mul_lt_mul_of_pos_right hhigh (Nat.two_pow_pos _)
        _ = 2 ^ 53 := by rw [← Nat.pow_add]; congr 1; omega
  have hunits : unitsOfCode (n * 2 ^ (52 - l) + (1022 + l) * 2 ^ 52) = n * 2 ^ (52 - l) * 2 ^ (1022 + l) :=
    unitsOfCode_scaled (Nat.le_of_lt hfill.2) (.inr hfill.1)
  rw [Nat.mul_assoc, ← Nat.pow_add, show 52 - l + (1022 + l) = 1074 by omega] at hunits
  generalize hcode : n * 2 ^ (52 - l) + (1022 + l) * 2 ^ 52 = code at hunits
  have hinfinity : infinityCode = 2047 * 2 ^ 52 := by decide
  have hfinite : code < infinityCode := by omega
  have hself := inInterval_unitsOfCode code
  rw [hunits] at hself
  refine ⟨⟨code, Nat.lt_succ_of_lt hfinite⟩, ?_, hunits, hfinite⟩
  have hround := nearestCode_of_inInterval Nat.one_pos hself (Nat.le_of_lt hfinite)
  have hmagnitude : Magnitude.ofRatio n 1 = ⟨code, Nat.lt_succ_of_lt hfinite⟩ := Fin.eq_of_val_eq hround
  have hsign : decide ((n : Int) < 0) = false := by simp
  rw [Double.ofInt_eq, Double.ofRatio, Int.natAbs_natCast, hmagnitude, hsign]

theorem Double.eq_of_ofInt? {n : Int} {d : Double} (h : Double.ofInt? n = some d) : d = Double.ofInt n := by
  rw [Double.ofInt?] at h
  split at h
  case isTrue => exact (Option.some.inj h).symm
  case isFalse => cases h

theorem Double.toInt?_ofInt {n : Nat} (h : n < 2 ^ 53) : (Double.ofInt n).toInt? = some (n : Int) := by
  obtain ⟨magnitude, he, hunits, hfinite⟩ := Double.ofInt_exact h
  have hone : 0 < unitsPerOne := Nat.two_pow_pos _
  have hmod : unitsOfCode magnitude.val % unitsPerOne = 0 := by rw [hunits, Nat.mul_mod_left]
  have hdiv : unitsOfCode magnitude.val / unitsPerOne = n := by rw [hunits, Nat.mul_div_cancel _ hone]
  simp only [he, Double.toInt?, if_neg (Nat.ne_of_lt hfinite), hmod, if_true, Bool.false_eq_true, if_false, hdiv]

namespace Decimal

theorem readsAs_exact (code : Nat) : (exact code).readsAs code = true := by
  rw [readsAs_iff]
  refine InInterval.congr Nat.one_pos (denominator_pos _) ?_ (inInterval_unitsOfCode code)
  have hdown : (-1074 : Int).toNat = 0 := rfl
  have hup : (-(-1074) : Int).toNat = 1074 := rfl
  have hten : (10 : Nat) ^ 1074 = 5 ^ 1074 * unitsPerOne := by rw [← Nat.mul_pow]
  simp only [exact, numerator, denominator, hdown, hup, hten, Nat.pow_zero, Nat.mul_one, Nat.mul_assoc]

theorem readsAs_of_onGrid {code : Nat} {exponent : Int} {d : Decimal} (h : onGrid code exponent = some d) :
    d.readsAs code = true := by
  have choose : ∀ below above : Decimal,
      (if below.readsAs code then
        if above.readsAs code then
          if below.distance code < above.distance code then some below
          else if above.distance code < below.distance code then some above
          else if below.digits % 2 = 0 then some below else some above
        else some below
      else if above.readsAs code then some above
      else none) = some d → d.readsAs code = true := by
    intro below above h
    split_ifs at h <;> obtain rfl := Option.some.inj h <;> simp_all
  exact choose _ _ h

/-- The shortest decimal of a code reads as the code. -/
theorem readsAs_shortest (code : Nat) : (shortest code).readsAs code = true := by
  unfold shortest
  rcases h : (List.range 24).findSome? fun (step : Nat) => onGrid code (coarsest code - step) with _ | d
  · exact readsAs_exact code
  · obtain ⟨step, -, hgrid⟩ := List.exists_of_findSome?_eq_some h
    exact readsAs_of_onGrid hgrid

end Decimal

end ScriptLink
