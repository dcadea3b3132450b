import Mathlib.Algebra.Order.Field.Rat
import Mathlib.Algebra.Order.AbsoluteValue.Basic
import Mathlib.Data.Rat.Cast.Order
import Mathlib.Tactic.Positivity
import Mathlib.Tactic.FieldSimp
import ScriptLink.Proofs.Nearest

/-! # Doubles among the rationals

    Every double that is a number has a place among the rationals, infinity that of the double which would come next.
    Nearest to a rational is the double whose place is; of two that are equally near, the one with the even code. Main
    statements: rounding gives a nearest double, there is one place only where a nearest double can be, nearest doubles
    are in the order of the rationals, and a rational that is the place of a double has this place as its nearest. -/

namespace ScriptLink

-- Powers of natural numbers are those of the language, also where others are in scope.
attribute [local instance (10000)] instPowNat

namespace Double

/-- The factor that a sign stands for. -/
def signFactor (negative : Bool) : ℚ := if negative then -1 else 1

/-- The place of a magnitude with a sign. -/
def place (negative : Bool) (magnitude : Magnitude) : ℚ :=
  signFactor negative * (unitsOfCode magnitude.val / unitsPerOne)

/-- The place of a double among the rationals, if it is a number. Infinity has the place of the double that would come
    after the largest finite one. -/
def position? : Double → Option ℚ
  | .nan => none
  | .signed negative magnitude => some (place negative magnitude)

/-- Whether a double is the nearest to a rational: every other place is farther away, or as far away where the code of
    the double is even. -/
def IsNearest : Double → ℚ → Prop
  | .nan, _ => False
  | .signed negative magnitude, q => ∀ negative' magnitude', place negative' magnitude' ≠ place negative magnitude →
      |q - place negative magnitude| < |q - place negative' magnitude'| ∨
        |q - place negative magnitude| = |q - place negative' magnitude'| ∧ magnitude.val % 2 = 0

end Double

/-! ### The nearest code -/

section Codes
variable {n d code other : Nat} {q p p' : ℚ}

/-- Of two places the upper one is the nearer where the rational is not below their midpoint. -/
theorem abs_sub_le_iff_of_lt (h : p' < p) : |q - p| ≤ |q - p'| ↔ p + p' ≤ 2 * q := by
  rcases abs_cases (q - p) with ⟨h₁, _⟩ | ⟨h₁, _⟩ <;> rcases abs_cases (q - p') with ⟨h₂, _⟩ | ⟨h₂, _⟩ <;>
    rw [h₁, h₂] <;> constructor <;> intro <;> linarith

theorem abs_sub_lt_iff_of_lt (h : p' < p) : |q - p| < |q - p'| ↔ p + p' < 2 * q := by
  rcases abs_cases (q - p) with ⟨h₁, _⟩ | ⟨h₁, _⟩ <;> rcases abs_cases (q - p') with ⟨h₂, _⟩ | ⟨h₂, _⟩ <;>
    rw [h₁, h₂] <;> constructor <;> intro <;> linarith

/-- The bounds of an interval as bounds of a rational. -/
theorem InInterval.bounds (hd : 0 < d) (h : InInterval n d code) :
    (unitsOfCode code + unitsOfCode (code - 1) : ℚ) ≤ 2 * (n / d) ∧
      2 * (n / d : ℚ) ≤ unitsOfCode code + unitsOfCode (code + 1) ∧
      (code % 2 = 1 → (unitsOfCode code + unitsOfCode (code - 1) : ℚ) < 2 * (n / d) ∧
        2 * (n / d : ℚ) < unitsOfCode code + unitsOfCode (code + 1)) := by
  have hd : (0 : ℚ) < d := by exact_mod_cast hd
  obtain ⟨hlow, hhigh, hodd⟩ := h
  rw [← mul_div_assoc]
  refine ⟨(le_div_iff₀ hd).mpr ?_, (div_le_iff₀ hd).mpr ?_, fun h => ⟨(lt_div_iff₀ hd).mpr ?_, (div_lt_iff₀ hd).mpr ?_⟩⟩
  · rw [add_comm]
    exact_mod_cast hlow
  · exact_mod_cast hhigh
  · rw [add_comm]
    exact_mod_cast Nat.lt_of_le_of_ne hlow (hodd h).1
  · exact_mod_cast Nat.lt_of_le_of_ne hhigh (hodd h).2

/-- The code in whose interval a rational lies is nearer to it than any other. -/
theorem InInterval.nearest (hd : 0 < d) (h : InInterval n d code) (hne : other ≠ code) :
    |(n / d : ℚ) - unitsOfCode code| < |(n / d : ℚ) - unitsOfCode other| ∨
      |(n / d : ℚ) - unitsOfCode code| = |(n / d : ℚ) - unitsOfCode other| ∧ code % 2 = 0 := by
  obtain ⟨hlow, hhigh, hodd⟩ := h.bounds hd
  have near (hle : |(n / d : ℚ) - unitsOfCode code| ≤ |(n / d : ℚ) - unitsOfCode other|)
      (hlt : code % 2 = 1 → |(n / d : ℚ) - unitsOfCode code| < |(n / d : ℚ) - unitsOfCode other|) :
      |(n / d : ℚ) - unitsOfCode code| < |(n / d : ℚ) - unitsOfCode other| ∨
        |(n / d : ℚ) - unitsOfCode code| = |(n / d : ℚ) - unitsOfCode other| ∧ code % 2 = 0 := by
    rcases Nat.mod_two_eq_zero_or_one code with heven | h
    · exact hle.lt_or_eq.imp_right fun he => ⟨he, heven⟩
    · exact .inl (hlt h)
  rcases Nat.lt_or_gt_of_ne hne with hlt | hgt
  · -- A lower code is not above the neighbour, which is no nearer.
    have hunits : (unitsOfCode other : ℚ) < unitsOfCode code := by exact_mod_cast unitsOfCode_lt hlt
    have hnext : (unitsOfCode other : ℚ) ≤ unitsOfCode (code - 1) := by
      exact_mod_cast unitsOfCode_le (show other ≤ code - 1 by omega)
    exact near ((abs_sub_le_iff_of_lt hunits).mpr (by linarith)) fun h =>
      (abs_sub_lt_iff_of_lt hunits).mpr (by linarith [(hodd h).1])
  · have hunits : (unitsOfCode code : ℚ) < unitsOfCode other := by exact_mod_cast unitsOfCode_lt hgt
    have hnext : (unitsOfCode (code + 1) : ℚ) ≤ unitsOfCode other := by exact_mod_cast unitsOfCode_le hgt
    exact near (le_of_not_gt fun h => by linarith [(abs_sub_lt_iff_of_lt hunits).mp h]) fun h =>
      lt_of_not_ge fun hle => by linarith [(abs_sub_le_iff_of_lt hunits).mp hle, (hodd h).2]

/-- The code that rounding gives is nearer than any other, infinity being the last. -/
theorem nearestCode_nearest (hd : 0 < d) (hle : other ≤ infinityCode) (hne : other ≠ nearestCode n d) :
    |(n / d : ℚ) - unitsOfCode (nearestCode n d)| < |(n / d : ℚ) - unitsOfCode other| ∨
      |(n / d : ℚ) - unitsOfCode (nearestCode n d)| = |(n / d : ℚ) - unitsOfCode other| ∧
        nearestCode n d % 2 = 0 := by
  have hround := inInterval_roundedCode n hd
  rw [nearestCode_eq] at hne ⊢
  rcases le_or_gt (roundedCode n d) infinityCode with h | h
  · rw [Nat.min_eq_left h] at hne ⊢
    exact hround.nearest hd hne
  · -- Beyond infinity every code is farther away than infinity.
    rw [Nat.min_eq_right (Nat.le_of_lt h)] at hne ⊢
    have hinfinity : (unitsOfCode infinityCode : ℚ) ≤ unitsOfCode (roundedCode n d - 1) := by
      exact_mod_cast unitsOfCode_le (show infinityCode ≤ roundedCode n d - 1 by omega)
    have hrounded : (unitsOfCode infinityCode : ℚ) < unitsOfCode (roundedCode n d) := by
      exact_mod_cast unitsOfCode_lt h
    have hunits : (unitsOfCode other : ℚ) < unitsOfCode infinityCode := by
      exact_mod_cast unitsOfCode_lt (Nat.lt_of_le_of_ne hle hne)
    exact .inl ((abs_sub_lt_iff_of_lt hunits).mpr (by linarith [(hround.bounds hd).1]))

end Codes

namespace Double
variable {negative : Bool} {magnitude : Magnitude} {d e : Double} {q r : ℚ}

/-! ### Rounding -/

theorem unitsPerOne_pos : (0 : ℚ) < unitsPerOne := Nat.cast_pos.mpr (Nat.two_pow_pos 1074)

theorem abs_signFactor (negative : Bool) : |signFactor negative| = 1 := by
  cases negative <;> simp [signFactor]

theorem place_zero (negative : Bool) : place negative 0 = 0 := by
  have hzero : unitsOfCode (0 : Magnitude).val = 0 := unitsOfCode_of_lt (by decide)
  rw [place, hzero, Nat.cast_zero, zero_div, mul_zero]

/-- How far a place is from a rational of the same sign. -/
theorem abs_sub_place (x : ℚ) (negative : Bool) (magnitude : Magnitude) :
    |signFactor negative * x - place negative magnitude| =
      |x * unitsPerOne - unitsOfCode magnitude.val| / unitsPerOne := by
  have scaled {units : ℚ} (hunits : 0 < units) (code : ℚ) :
      |signFactor negative * x - signFactor negative * (code / units)| = |x * units - code| / units := by
    have hfactor : signFactor negative * x - signFactor negative * (code / units) =
        signFactor negative * ((x * units - code) / units) := by field_simp
    rw [hfactor, abs_mul, abs_signFactor, one_mul, abs_div, abs_of_pos hunits]
  exact scaled unitsPerOne_pos _

/-- How far a place is from a rational of the other sign. -/
theorem abs_sub_place_not {x : ℚ} (hx : 0 ≤ x) (negative : Bool) (magnitude : Magnitude) :
    |signFactor negative * x - place (!negative) magnitude| = x + unitsOfCode magnitude.val / unitsPerOne := by
  have hplace : (0 : ℚ) ≤ unitsOfCode magnitude.val / unitsPerOne := div_nonneg (Nat.cast_nonneg _) unitsPerOne_pos.le
  have hfactor : signFactor negative * x - place (!negative) magnitude =
      signFactor negative * (x + unitsOfCode magnitude.val / unitsPerOne) := by
    unfold place
    generalize (unitsOfCode magnitude.val / unitsPerOne : ℚ) = away
    cases negative
    · simp [signFactor]
    · simp [signFactor]
      ring
  rw [hfactor, abs_mul, abs_signFactor, one_mul, abs_of_nonneg (add_nonneg hx hplace)]

/-- A magnitude that is nearer than all others is nearest with either sign: on the other side of zero nothing is
    nearer than zero itself. -/
theorem isNearest_signed {x : ℚ} (hx : 0 ≤ x) (negative : Bool) {magnitude : Magnitude}
    (near : ∀ other : Magnitude, other ≠ magnitude →
      |x * unitsPerOne - unitsOfCode magnitude.val| < |x * unitsPerOne - unitsOfCode other.val| ∨
        |x * unitsPerOne - unitsOfCode magnitude.val| = |x * unitsPerOne - unitsOfCode other.val| ∧
          magnitude.val % 2 = 0) :
    (signed negative magnitude).IsNearest (signFactor negative * x) := by
  have hunits := unitsPerOne_pos
  have near (other : Magnitude) (hne : other ≠ magnitude) :
      |signFactor negative * x - place negative magnitude| < |signFactor negative * x - place negative other| ∨
        |signFactor negative * x - place negative magnitude| = |signFactor negative * x - place negative other| ∧
          magnitude.val % 2 = 0 := by
    rw [abs_sub_place, abs_sub_place]
    exact (near other hne).imp (div_lt_div_of_pos_right · hunits) (And.imp_left (congrArg (· / (unitsPerOne : ℚ))))
  intro negative' magnitude' hne
  by_cases hsign : negative' = negative
  · subst hsign
    exact near magnitude' fun h => hne (h ▸ rfl)
  · obtain rfl : negative' = !negative := Bool.eq_not_of_ne hsign
    have hzero : |signFactor negative * x - place negative 0| = x := by
      rw [place_zero, sub_zero, abs_mul, abs_signFactor, one_mul, abs_of_nonneg hx]
    have haway : (0 : ℚ) ≤ unitsOfCode magnitude'.val / unitsPerOne := div_nonneg (Nat.cast_nonneg _) hunits.le
    rw [abs_sub_place_not hx]
    by_cases hmagnitude : magnitude = 0
    · rw [hmagnitude, place_zero] at hne
      have hstrict := haway.lt_of_ne fun h => hne (by rw [place, ← h, mul_zero])
      rw [hmagnitude, hzero]
      exact .inl (lt_add_of_pos_right x hstrict)
    · rcases near 0 (Ne.symm hmagnitude) with h | ⟨h, heven⟩ <;> rw [hzero] at h
      · exact .inl (h.trans_le (le_add_of_nonneg_right haway))
      · rw [h]
        exact (le_add_of_nonneg_right haway).lt_or_eq.imp_right fun he => ⟨he, heven⟩

/-- Rounding gives a double that is nearest to the rational. -/
theorem isNearest_ofRatio (negative : Bool) (n : Nat) {d : Nat} (hd : 0 < d) :
    (ofRatio negative n d).IsNearest (signFactor negative * (n / d)) := by
  have hscaled : ((n * unitsPerOne : ℕ) / d : ℚ) = n / d * unitsPerOne := by
    rw [Nat.cast_mul, mul_div_right_comm]
  refine isNearest_signed (div_nonneg (Nat.cast_nonneg n) (Nat.cast_nonneg d)) negative fun other hne => ?_
  rw [← hscaled]
  exact nearestCode_nearest hd (Nat.le_of_lt_succ other.isLt) fun h => hne (Fin.ext h)

/-! ### One nearest place -/

/-- A code with its sign. -/
def signedCode (negative : Bool) (magnitude : Magnitude) : ℤ :=
  if negative then -magnitude.val else magnitude.val

theorem natAbs_signedCode (negative : Bool) (magnitude : Magnitude) :
    (signedCode negative magnitude).natAbs = magnitude.val := by
  cases negative <;> simp [signedCode]

theorem exists_signedCode {z : ℤ} (h : z.natAbs ≤ infinityCode) :
    ∃ negative magnitude, signedCode negative magnitude = z := by
  refine ⟨decide (z < 0), ⟨z.natAbs, Nat.lt_succ_of_le h⟩, ?_⟩
  simp only [signedCode, decide_eq_true_eq]
  split <;> omega

/-- Places are in the order of the codes with their signs. -/
theorem place_lt_iff {negative negative' : Bool} {magnitude magnitude' : Magnitude} :
    place negative magnitude < place negative' magnitude' ↔
      signedCode negative magnitude < signedCode negative' magnitude' := by
  have hplace (negative : Bool) (magnitude : Magnitude) : place negative magnitude =
      ((if negative then -(unitsOfCode magnitude.val : ℤ) else unitsOfCode magnitude.val : ℤ) : ℚ) / unitsPerOne := by
    unfold place
    generalize (unitsPerOne : ℚ) = units
    cases negative
    · simp [signFactor]
    · simp [signFactor, neg_div]
  have hunits (a b : ℕ) : unitsOfCode a < unitsOfCode b ↔ a < b := StrictMono.lt_iff_lt fun _ _ => unitsOfCode_lt
  have hzero : unitsOfCode 0 = 0 := unitsOfCode_of_lt (by decide)
  have hle := hunits magnitude.val magnitude'.val
  have hge := hunits magnitude'.val magnitude.val
  have hpos := hunits 0 magnitude.val
  have hpos' := hunits 0 magnitude'.val
  rw [hplace, hplace, div_lt_div_iff_of_pos_right unitsPerOne_pos, Int.cast_lt, signedCode, signedCode]
  rw [hzero] at hpos hpos'
  cases negative <;> cases negative' <;> simp only [if_true, if_false, Bool.false_eq_true] <;> omega

theorem place_eq_iff {negative negative' : Bool} {magnitude magnitude' : Magnitude} :
    place negative magnitude = place negative' magnitude' ↔
      signedCode negative magnitude = signedCode negative' magnitude' := by
  have hlt : place negative magnitude < place negative' magnitude' ↔ _ := place_lt_iff
  have hgt : place negative' magnitude' < place negative magnitude ↔ _ := place_lt_iff
  constructor
  · intro h
    rw [h] at hlt hgt
    have := mt hlt.mpr (lt_irrefl _)
    have := mt hgt.mpr (lt_irrefl _)
    omega
  · intro h
    exact le_antisymm (not_lt.mp (mt hgt.mp (by omega))) (not_lt.mp (mt hlt.mp (by omega)))

/-- Between two places with even codes there is a further one. -/
theorem exists_place_between {negative negative' : Bool} {magnitude magnitude' : Magnitude}
    (h : place negative magnitude < place negative' magnitude') (heven : magnitude.val % 2 = 0)
    (heven' : magnitude'.val % 2 = 0) : ∃ negative'' magnitude'',
      place negative magnitude < place negative'' magnitude'' ∧
        place negative'' magnitude'' < place negative' magnitude' := by
  have hlt := place_lt_iff.mp h
  have hcode := natAbs_signedCode negative magnitude
  have hcode' := natAbs_signedCode negative' magnitude'
  have hm := magnitude.isLt
  have hm' := magnitude'.isLt
  obtain ⟨negative'', magnitude'', hnext⟩ :=
    exists_signedCode (show (signedCode negative magnitude + 1).natAbs ≤ infinityCode by omega)
  exact ⟨negative'', magnitude'', place_lt_iff.mpr (by omega), place_lt_iff.mpr (by omega)⟩

theorem IsNearest.abs_sub_le {negative : Bool} {magnitude : Magnitude} (hd : (signed negative magnitude).IsNearest q)
    (negative' : Bool) (magnitude' : Magnitude) :
    |q - place negative magnitude| ≤ |q - place negative' magnitude'| := by
  by_cases hne : place negative' magnitude' = place negative magnitude
  · rw [hne]
  · exact (hd negative' magnitude' hne).elim le_of_lt fun h => h.1.le

/-- Nearest doubles are in the order of the rationals, so that there is one place where a nearest double can be. -/
theorem IsNearest.place_le {negative negative' : Bool} {magnitude magnitude' : Magnitude}
    (hd : (signed negative magnitude).IsNearest q) (he : (signed negative' magnitude').IsNearest r) (h : q ≤ r) :
    place negative magnitude ≤ place negative' magnitude' := by
  by_contra hnot
  have hlt := lt_of_not_ge hnot
  have hlow := (abs_sub_le_iff_of_lt hlt).mp (hd.abs_sub_le negative' magnitude')
  have hhigh := mt (abs_sub_lt_iff_of_lt hlt).mpr (not_lt.mpr (he.abs_sub_le negative magnitude))
  -- Both rationals are the midpoint, so that both codes are even, and something nearer lies between them.
  have hq : 2 * q = place negative magnitude + place negative' magnitude' := by linarith
  have hr : 2 * r = place negative magnitude + place negative' magnitude' := by linarith
  have heven : magnitude.val % 2 = 0 := by
    refine ((hd negative' magnitude' hlt.ne).resolve_left fun h => ?_).2
    linarith [(abs_sub_lt_iff_of_lt hlt).mp h]
  have heven' : magnitude'.val % 2 = 0 := by
    refine ((he negative magnitude hlt.ne').resolve_left fun h => ?_).2
    exact absurd ((abs_sub_le_iff_of_lt hlt).mpr (by linarith)) (not_le.mpr h)
  obtain ⟨negative'', magnitude'', hbelow, habove⟩ := exists_place_between hlt heven' heven
  have hnear := hd.abs_sub_le negative'' magnitude''
  linarith [(abs_sub_le_iff_of_lt habove).mp hnear]

theorem IsNearest.position?_eq (hd : d.IsNearest q) (he : e.IsNearest q) : d.position? = e.position? := by
  cases d with
  | nan => exact hd.elim
  | signed negative magnitude =>
    cases e with
    | nan => exact he.elim
    | signed negative' magnitude' =>
      exact congrArg some ((hd.place_le he le_rfl).antisymm (he.place_le hd le_rfl))

/-- A sign leaves one nearest double. -/
theorem IsNearest.magnitude_eq {magnitude' : Magnitude} (hd : (signed negative magnitude).IsNearest q)
    (he : (signed negative magnitude').IsNearest q) : magnitude = magnitude' := by
  have hplace := place_eq_iff.mp (Option.some.inj (hd.position?_eq he))
  have hcode := natAbs_signedCode negative magnitude
  have hcode' := natAbs_signedCode negative magnitude'
  exact Fin.ext (by omega)

/-- A rational that is the place of a double has this place as its nearest. -/
theorem IsNearest.position?_eq_some (hd : d.IsNearest q) (he : e.position? = some q) : d.position? = some q := by
  cases d with
  | nan => exact hd.elim
  | signed negative magnitude =>
    cases e with
    | nan => cases he
    | signed negative' magnitude' =>
      obtain rfl := Option.some.inj he
      have hnear := hd.abs_sub_le negative' magnitude'
      rw [sub_self, abs_zero, abs_nonpos_iff, sub_eq_zero] at hnear
      exact congrArg some hnear.symm

theorem clearZeroSign_signed (negative : Bool) (magnitude : Magnitude) : (signed negative magnitude).clearZeroSign =
    if signedCode negative magnitude = 0 then zero else .signed negative magnitude := by
  have hcode := natAbs_signedCode negative magnitude
  have hzero : (signed negative magnitude).isZero = decide (signedCode negative magnitude = 0) := by
    rw [isZero, beq_eq_decide]
    exact decide_eq_decide.mpr (by omega)
  rw [clearZeroSign, hzero]
  simp only [decide_eq_true_eq]

/-- A code with its sign gives the sign back, unless it is zero. -/
theorem signed_eq_of_signedCode {negative negative' : Bool} {magnitude magnitude' : Magnitude}
    (h : signedCode negative magnitude = signedCode negative' magnitude') (hne : signedCode negative magnitude ≠ 0) :
    signed negative magnitude = .signed negative' magnitude' := by
  have hcode := natAbs_signedCode negative magnitude
  have hcode' := natAbs_signedCode negative' magnitude'
  have hmagnitude : magnitude = magnitude' := Fin.ext (by omega)
  subst hmagnitude
  refine congrArg (Double.signed · magnitude) ?_
  cases negative <;> cases negative' <;>
    simp only [signedCode, if_true, if_false, Bool.false_eq_true] at h hne <;> first | rfl | omega

theorem clearZeroSign_signed_ne_nan (negative : Bool) (magnitude : Magnitude) :
    (signed negative magnitude).clearZeroSign ≠ nan := by
  rw [clearZeroSign_signed]
  split <;> exact Double.noConfusion

/-- Two doubles have one place when they differ in the sign of a zero at most. -/
theorem position?_eq_iff : d.position? = e.position? ↔ d.clearZeroSign = e.clearZeroSign := by
  cases d with
  | nan =>
    cases e with
    | nan => exact ⟨fun _ => rfl, fun _ => rfl⟩
    | signed negative magnitude =>
      exact iff_of_false (Option.some_ne_none _).symm (clearZeroSign_signed_ne_nan negative magnitude).symm
  | signed negative magnitude =>
    cases e with
    | nan => exact iff_of_false (Option.some_ne_none _) (clearZeroSign_signed_ne_nan negative magnitude)
    | signed negative' magnitude' =>
      rw [clearZeroSign_signed, clearZeroSign_signed, position?, position?, Option.some.injEq, place_eq_iff]
      constructor
      · intro h
        rw [← h]
        split
        case isTrue => rfl
        case isFalse hne => exact signed_eq_of_signedCode h hne
      · intro h
        split_ifs at h with hzero hzero' hzero'
        · rw [hzero, hzero']
        · cases h
          exact absurd rfl hzero'
        · cases h
          exact absurd rfl hzero
        · cases h
          rfl

/-! ### Integers and decimal notations -/

theorem isNearest_ofInt (n : ℤ) : (ofInt n).IsNearest n := by
  have hnear := isNearest_ofRatio (n < 0) n.natAbs Nat.one_pos
  have hvalue : signFactor (n < 0) * ((n.natAbs : ℚ) / (1 : ℕ)) = n := by
    rw [Nat.cast_one, div_one, Nat.cast_natAbs, Int.cast_abs]
    rcases lt_or_ge n 0 with h | h
    · rw [signFactor, if_pos (decide_eq_true h), abs_of_neg (by exact_mod_cast h)]
      ring
    · rw [signFactor, if_neg (by simpa using h), abs_of_nonneg (by exact_mod_cast h), one_mul]
  rw [ofInt_eq, ← hvalue]
  exact hnear

/-- The value of digits at a decimal exponent, with a sign. -/
def decimalValue (negative : Bool) (digits : ℕ) (exponent : ℤ) : ℚ :=
  signFactor negative * (digits * 10 ^ exponent)

/-- A decimal notation becomes the nearest double with its sign. -/
theorem ofDecimal_iff {digits : ℕ} {exponent : ℤ} : ofDecimal negative digits exponent = .signed negative magnitude ↔
    (signed negative magnitude).IsNearest (decimalValue negative digits exponent) := by
  have hvalue : decimalValue negative digits exponent = signFactor negative *
      ((digits * 10 ^ exponent.toNat : ℕ) / (10 ^ (-exponent).toNat : ℕ)) := by
    rw [decimalValue]
    congr 1
    cases exponent with
    | ofNat k => simp
    | negSucc k => simp [zpow_negSucc, div_eq_mul_inv]
  have hnear := isNearest_ofRatio negative (digits * 10 ^ exponent.toNat)
    (show 0 < 10 ^ (-exponent).toNat from Nat.pow_pos (by decide))
  rw [← hvalue] at hnear
  rw [ofDecimal_eq]
  constructor
  · intro h
    rwa [h] at hnear
  · exact fun h => congrArg _ (hnear.magnitude_eq h)

end Double

end ScriptLink
