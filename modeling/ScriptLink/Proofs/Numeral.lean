import ScriptLink.Number.Layout
import ScriptLink.Proofs.Grammar

/-! # Numbers read back from text

    What a layout writes for a finite double is read back: as the double itself, or as an integer where the layout
    shows neither point nor exponent. The digits may have lost zeros at their end and have got a point or an exponent,
    but the decimal that they spell lies in the same rounding intervals. Main statement: `readUnsigned_write`. -/

namespace ScriptLink

-- Powers of natural numbers are those of the language, also where others are in scope.
attribute [local instance (10000)] instPowNat

/-! ### Digits -/

namespace Text
open Json (isDigit digitsValue)

/-- The digit of a number below ten. -/
def digit (n : Nat) : CodePoint := .ofNat (0x30 + n)

theorem val_digit {n : Nat} (h : n < 10) : (digit n).val = 0x30 + n := by
  rw [digit, CodePoint.ofNat, dif_pos (by omega)]

theorem ofChar_digitChar {n : Nat} (h : n < 10) : CodePoint.ofChar n.digitChar = digit n := by
  revert h
  revert n
  decide

theorem ofNat_of_lt {n : Nat} (h : n < 10) : ofNat n = [digit n] := by
  rw [ofNat, ofString, Nat.toString_eq_ofList_toDigits, String.toList_ofList, Nat.toDigits_of_lt_base h]
  exact congrArg (fun c => [c]) (ofChar_digitChar h)

theorem ofNat_of_le {n : Nat} (h : 10 ≤ n) : ofNat n = ofNat (n / 10) ++ [digit (n % 10)] := by
  have hdigit := ofChar_digitChar (Nat.mod_lt n (show 0 < 10 by decide))
  simp only [ofNat, ofString, Nat.toString_eq_ofList_toDigits, String.toList_ofList,
    Nat.toDigits_of_base_le (show 1 < 10 by decide) h, List.map_append, List.map_cons, List.map_nil, hdigit]

theorem isDigit_digit {n : Nat} (h : n < 10) : isDigit (digit n) = true := by
  revert h
  revert n
  decide

theorem IsDigits.append {s t : Text} (hs : s.IsDigits) (ht : t.IsDigits) : (s ++ t).IsDigits := fun c hc =>
  (List.mem_append.mp hc).elim (hs c) (ht c)

theorem isDigits_zeros (n : Nat) : IsDigits (List.replicate n 0x30) := fun c hc => by
  rw [List.eq_of_mem_replicate hc]
  rfl

theorem isDigits_ofNat (n : Nat) : (ofNat n).IsDigits := by
  induction n using Nat.strongRecOn with
  | ind n ih =>
    rcases Nat.lt_or_ge n 10 with h | h
    · rw [ofNat_of_lt h]
      intro c hc
      rw [List.mem_singleton.mp hc, isDigit_digit h]
    · rw [ofNat_of_le h]
      refine (ih (n / 10) (by omega)).append fun c hc => ?_
      rw [List.mem_singleton.mp hc, isDigit_digit (by omega)]

theorem ofNat_ne_nil (n : Nat) : ofNat n ≠ [] := by
  rcases Nat.lt_or_ge n 10 with h | h
  · simp [ofNat_of_lt h]
  · simp [ofNat_of_le h]

/-- The digits of a number do not begin with a zero, unless the number is zero. -/
theorem head?_ofNat_ne {n : Nat} (h : 0 < n) : (ofNat n).head? ≠ some 0x30 := by
  induction n using Nat.strongRecOn with
  | ind n ih =>
    rcases Nat.lt_or_ge n 10 with hn | hn
    · rw [ofNat_of_lt hn, List.head?_cons]
      intro he
      have := congrArg Fin.val (Option.some.inj he)
      rw [val_digit hn] at this
      exact absurd this (by change 0x30 + n ≠ 0x30; omega)
    · obtain ⟨c, t, hc⟩ := List.exists_cons_of_ne_nil (ofNat_ne_nil (n / 10))
      have hfirst := ih (n / 10) (by omega) (by omega)
      rw [hc] at hfirst
      rw [ofNat_of_le hn, hc]
      exact hfirst

theorem digitsValue_append (s t : Text) :
    digitsValue (s ++ t) = digitsValue s * 10 ^ t.length + digitsValue t := by
  have from_ (n : Nat) : t.foldl (fun n c => n * 10 + (c.val - 0x30)) n = n * 10 ^ t.length + digitsValue t := by
    induction t generalizing n with
    | nil => simp [digitsValue]
    | cons c t ih =>
      have hcons : digitsValue (c :: t) = t.foldl (fun n c => n * 10 + (c.val - 0x30)) (0 * 10 + (c.val - 0x30)) := rfl
      rw [hcons, List.foldl_cons, ih, ih, List.length_cons, Nat.pow_succ]
      ring
  rw [digitsValue, List.foldl_append, from_]
  rfl

theorem digitsValue_eq_decimal (t : Text) : digitsValue t = t.decimal := by
  induction t using List.reverseRecOn with
  | nil => rfl
  | append_singleton t c ih =>
    rw [digitsValue_append, ih, decimal, decimal, List.reverse_append, List.reverse_singleton, List.singleton_append,
      List.map_cons, Nat.ofDigits_cons, List.length_singleton, Nat.pow_one, Nat.mul_comm, Nat.add_comm]
    simp [digitsValue]

theorem digitsValue_zeros (n : Nat) : digitsValue (List.replicate n 0x30) = 0 := by
  induction n with
  | zero => rfl
  | succ n ih =>
    rw [List.replicate_succ, ← List.singleton_append, digitsValue_append, ih, Nat.add_zero]
    exact Nat.zero_mul _

theorem digitsValue_ofNat (n : Nat) : digitsValue (ofNat n) = n := by
  induction n using Nat.strongRecOn with
  | ind n ih =>
    have single {k : Nat} (hk : k < 10) : digitsValue [digit k] = k := by
      simp [digitsValue, val_digit hk]
    rcases Nat.lt_or_ge n 10 with h | h
    · rw [ofNat_of_lt h, single h]
    · rw [ofNat_of_le h, digitsValue_append, ih (n / 10) (by omega), single (by omega), List.length_singleton]
      omega

theorem length_ofNat_le {n k : Nat} (hk : 0 < k) (h : n < 10 ^ k) : (ofNat n).length ≤ k := by
  rw [ofNat, ofString, List.length_map, Nat.toString_eq_ofList_toDigits, String.toList_ofList]
  exact (Nat.length_toDigits_le_iff (by decide) hk).mpr h

theorem IsWhole.accepted {t : Text} (h : t.IsWhole) : ¬ (t = [] ∨ t.head? = some 0x30 ∧ t.length ≠ 1) := by
  rintro (hn | ⟨hz, hl⟩)
  · exact h.ne_nil hn
  · exact h.zero.elim (fun hne => hne hz) hl

theorem IsWhole.append {s t : Text} (hs : s.IsWhole) (hz : s.head? ≠ some 0x30) (ht : t.IsDigits) :
    (s ++ t).IsWhole := by
  refine ⟨hs.isDigits.append ht, List.append_ne_nil_of_left_ne_nil hs.ne_nil t, .inl ?_⟩
  obtain ⟨c, s, rfl⟩ := List.exists_cons_of_ne_nil hs.ne_nil
  exact hz

theorem isWhole_ofNat (n : Nat) : (ofNat n).IsWhole := by
  refine ⟨isDigits_ofNat n, ofNat_ne_nil n, ?_⟩
  rcases Nat.eq_zero_or_pos n with rfl | h
  · exact .inr rfl
  · exact .inl (head?_ofNat_ne h)

/-- A text without the zeros at its end. -/
def trimmed (t : Text) : Text := (t.reverse.dropWhile (· = 0x30)).reverse

theorem eq_trimmed_append (t : Text) : ∃ zeros, t = t.trimmed ++ List.replicate zeros 0x30 := by
  refine ⟨(t.reverse.takeWhile (· = 0x30)).length, ?_⟩
  have hzeros : t.reverse.takeWhile (· = 0x30) = List.replicate (t.reverse.takeWhile (· = 0x30)).length 0x30 :=
    List.eq_replicate_of_mem fun c hc => of_decide_eq_true (List.all_eq_true.mp List.all_takeWhile c hc)
  have hsplit := congrArg List.reverse (List.takeWhile_append_dropWhile (p := (· = 0x30)) (l := t.reverse))
  rw [List.reverse_append, List.reverse_reverse] at hsplit
  rw [← List.reverse_replicate, ← hzeros]
  exact hsplit.symm

end Text

/-! ### The parts of a number -/

namespace Json
open Text

/-- What may stand behind a value: nothing, the next thing of the container around it, or a blank. -/
def Ends (rest : Text) : Prop := ∀ c ∈ rest.head?, c = 0x2C ∨ c = 0x5D ∨ c = 0x7D ∨ isBlank c = true

theorem ends_nil : Ends [] := by simp [Ends]

/-- Whether a text does not go on with a digit. -/
def Breaks (rest : Text) : Prop := ∀ c ∈ rest.head?, isDigit c = false

theorem isBlank_iff {c : CodePoint} : isBlank c = true ↔ c = 0x20 ∨ c = 0x09 ∨ c = 0x0A ∨ c = 0x0D := by
  simp [isBlank, or_assoc]

/-- What ends a value is none of the characters with which a number goes on. -/
theorem Ends.not_number {c : CodePoint} {rest : Text} (h : Ends (c :: rest)) :
    isDigit c = false ∧ c ≠ 0x2E ∧ c ≠ 0x65 ∧ c ≠ 0x45 := by
  rcases h c rfl with rfl | rfl | rfl | hblank
  · decide
  · decide
  · decide
  · rcases isBlank_iff.mp hblank with rfl | rfl | rfl | rfl <;> decide

theorem Ends.breaks {rest : Text} (h : Ends rest) : Breaks rest := fun c hc => by
  cases rest with
  | nil => cases hc
  | cons d rest =>
    obtain rfl := Option.some.inj hc
    exact h.not_number.1

theorem breaks_cons {c : CodePoint} (h : isDigit c = false) (rest : Text) : Breaks (c :: rest) := fun d hd => by
  obtain rfl := Option.some.inj hd
  exact h

variable {digits rest : Text}

theorem takeWhile_digits (hd : digits.IsDigits) (hr : Breaks rest) : (digits ++ rest).takeWhile isDigit = digits := by
  rw [List.takeWhile_append_of_pos hd]
  cases rest with
  | nil => simp
  | cons c rest => simp [hr c rfl]

theorem dropWhile_digits (hd : digits.IsDigits) (hr : Breaks rest) : (digits ++ rest).dropWhile isDigit = rest := by
  rw [List.dropWhile_append_of_pos hd]
  cases rest with
  | nil => rfl
  | cons c rest => simp [hr c rfl]

open Grammar

/-- A fraction is read up to what is neither a digit nor, where there are no digits, a point. -/
theorem readFraction_of {point : Text} (h : Fraction point digits) (hr : Breaks rest) (hpoint : rest.head? ≠ some 0x2E) :
    readFraction (point ++ rest) = some (digits, rest) := by
  cases h with
  | none =>
    cases rest with
    | nil => rfl
    | cons c rest =>
      have hc : ¬ 0x2E = c := fun he => hpoint (by rw [← he, List.head?_cons])
      simp [readFraction, after?, hc]
  | point hne hd =>
    simp only [readFraction, List.cons_append, after?, if_true, takeWhile_digits hd hr, dropWhile_digits hd hr, hne,
      if_false]

/-- An exponent is read up to what ends the number. -/
theorem readExponent_of {mark : Text} {exponent : Option ℤ} (h : Exponent mark exponent) (hr : Ends rest) :
    readExponent (mark ++ rest) = some (exponent, rest) := by
  cases h with
  | none =>
    cases rest with
    | nil => rfl
    | cons c rest =>
      obtain ⟨-, -, hlower, hupper⟩ := hr.not_number
      simp [readExponent, hlower, hupper]
  | @unsigned mark digits hmark hne hd =>
    obtain ⟨c, tail, rfl⟩ := List.exists_cons_of_ne_nil hne
    have hc := hd c List.mem_cons_self
    have hminus : c ≠ 0x2D := by
      rintro rfl
      cases hc
    have hplus : c ≠ 0x2B := by
      rintro rfl
      cases hc
    have htake := takeWhile_digits hd hr.breaks
    have hdrop := dropWhile_digits hd hr.breaks
    rw [List.cons_append] at htake hdrop
    simp only [readExponent, List.cons_append, hmark, List.head?_cons, Option.some.injEq, hminus, hplus, or_self, if_true,
      if_false, htake, hdrop, hne, digitsValue_eq_decimal]
  | plus hmark hne hd =>
    have hplus : ¬ (0x2B : CodePoint) = 0x2D := by decide
    simp only [readExponent, List.cons_append, hmark, List.head?_cons, Option.some.injEq, hplus, or_true, if_true, if_false,
      List.drop_one, List.tail_cons, takeWhile_digits hd hr.breaks, dropWhile_digits hd hr.breaks, hne,
      digitsValue_eq_decimal]
  | minus hmark hne hd =>
    simp only [readExponent, List.cons_append, hmark, List.head?_cons, true_or, if_true, if_false,
      List.drop_one, List.tail_cons, takeWhile_digits hd hr.breaks, dropWhile_digits hd hr.breaks, hne,
      digitsValue_eq_decimal]

theorem exponent_exponentText (layout : Layout) (exponent : Int) :
    Exponent (layout.exponentText exponent) (some exponent) := by
  have hdigits := (isDigits_zeros (layout.exponentWidth - (ofNat exponent.natAbs).length)).append
    (isDigits_ofNat exponent.natAbs)
  have hvalue : decimal (List.replicate (layout.exponentWidth - (ofNat exponent.natAbs).length) 0x30 ++
      ofNat exponent.natAbs) = exponent.natAbs := by
    rw [← digitsValue_eq_decimal, digitsValue_append, digitsValue_zeros, digitsValue_ofNat, Nat.zero_mul, Nat.zero_add]
  have hne : List.replicate (layout.exponentWidth - (ofNat exponent.natAbs).length) 0x30 ++
      ofNat exponent.natAbs ≠ [] := List.append_ne_nil_of_right_ne_nil _ (ofNat_ne_nil _)
  unfold Layout.exponentText
  rcases lt_or_ge exponent 0 with h | h
  · have hminus : Exponent (0x65 :: 0x2D :: _) _ := .minus (.inl rfl) hne hdigits
    rw [hvalue, show (-(exponent.natAbs : ℤ)) = exponent by omega] at hminus
    rw [if_pos h]
    exact hminus
  · have hplus : Exponent (0x65 :: 0x2B :: _) _ := .plus (.inl rfl) hne hdigits
    rw [hvalue, show (exponent.natAbs : ℤ) = exponent by omega] at hplus
    rw [if_neg (Int.not_lt.mpr h)]
    exact hplus

/-! ### Numbers behind their sign -/

section Unsigned
variable {whole point fraction mark : Text} {exponent : Option ℤ}

/-- Neither a digit nor a point stands where the fraction of a number is over. -/
theorem Grammar.Exponent.stops (h : Exponent mark exponent) (hr : Ends rest) :
    Breaks (mark ++ rest) ∧ (mark ++ rest).head? ≠ some 0x2E := by
  have letter {c : CodePoint} (hmark : c = 0x65 ∨ c = 0x45) (s : Text) : Breaks (c :: s) ∧ (c :: s).head? ≠ some 0x2E := by
    rcases hmark with rfl | rfl
    · exact ⟨breaks_cons rfl s, by simp⟩
    · exact ⟨breaks_cons rfl s, by simp⟩
  cases h with
  | none =>
    refine ⟨hr.breaks, fun hpoint => ?_⟩
    cases rest with
    | nil => cases hpoint
    | cons c rest => exact hr.not_number.2.1 (Option.some.inj hpoint)
  | unsigned hmark => exact letter hmark _
  | plus hmark => exact letter hmark _
  | minus hmark => exact letter hmark _

theorem Grammar.Fraction.breaks (h : Fraction point fraction) (hr : Breaks rest) : Breaks (point ++ rest) := by
  cases h with
  | none => exact hr
  | point => exact breaks_cons rfl _

/-- A whole number without fraction and exponent is read as an integer. -/
theorem readUnsigned_int (negative : Bool) (hw : whole.IsWhole) (hlong : whole.length ≤ intDigitLimit) (hr : Ends rest) :
    readUnsigned negative (whole ++ rest) =
      some (.int (if negative then -digitsValue whole else digitsValue whole), rest) := by
  have hfraction := readFraction_of .none hr.breaks (Exponent.none.stops hr).2
  have hexponent := readExponent_of .none hr
  rw [List.nil_append] at hfraction hexponent
  simp only [readUnsigned, takeWhile_digits hw.isDigits hr.breaks, dropWhile_digits hw.isDigits hr.breaks, hw.accepted,
    if_false, hfraction, hexponent, Nat.not_lt.mpr hlong, Option.bind_eq_bind, Option.bind_some]

/-- A number with a fraction or an exponent is read as a double. -/
theorem readUnsigned_float (negative : Bool) (hw : whole.IsWhole) (hf : Fraction point fraction)
    (he : Exponent mark exponent) (hsome : point ++ mark ≠ []) (hr : Ends rest) :
    readUnsigned negative (whole ++ (point ++ (mark ++ rest))) =
      some (.float (.ofDecimal negative (digitsValue (whole ++ fraction)) (exponent.getD 0 - fraction.length)), rest) := by
  obtain ⟨hbreaks, hpoint⟩ := he.stops hr
  have hwhole := hf.breaks hbreaks
  simp only [readUnsigned, takeWhile_digits hw.isDigits hwhole, dropWhile_digits hw.isDigits hwhole, hw.accepted,
    if_false, readFraction_of hf hbreaks hpoint, readExponent_of he hr, Option.bind_eq_bind, Option.bind_some]
  split
  case h_1 =>
    cases hf with
    | none =>
      cases he
      exact absurd rfl hsome
    | point hne => exact absurd rfl hne
  case h_2 => rfl

theorem readUnsigned_fraction (negative : Bool) (hw : whole.IsWhole) (hfn : fraction ≠ []) (hfd : fraction.IsDigits)
    (hr : Ends rest) :
    readUnsigned negative (whole ++ 0x2E :: fraction ++ rest) =
      some (.float (.ofDecimal negative (digitsValue (whole ++ fraction)) (-fraction.length)), rest) := by
  have hread := readUnsigned_float negative hw (.point hfn hfd) .none (List.cons_ne_nil _ _) hr
  rw [Option.getD_none, Int.zero_sub, List.nil_append, ← List.append_assoc] at hread
  exact hread

theorem readUnsigned_exponent (layout : Layout) (exponent : Int) (negative : Bool) (hw : whole.IsWhole)
    (hfd : fraction.IsDigits) (hr : Ends rest) :
    readUnsigned negative (whole ++ (Layout.fraction fraction ++ (layout.exponentText exponent ++ rest))) =
      some (.float (.ofDecimal negative (digitsValue (whole ++ fraction)) (exponent - fraction.length)), rest) := by
  have hfraction : Fraction (Layout.fraction fraction) fraction := by
    unfold Layout.fraction
    split
    case isTrue h =>
      subst h
      exact .none
    case isFalse h => exact .point h hfd
  exact readUnsigned_float negative hw hfraction (exponent_exponentText layout exponent)
    (List.append_ne_nil_of_right_ne_nil _ (List.cons_ne_nil _ _)) hr

end Unsigned

end Json

/-! ### Decimals in a layout -/

namespace Decimal
open Text
open Json (digitsValue)

/-- The digits of a decimal without the zeros at their end. -/
def significant (d : Decimal) : Text := (ofNat d.digits).trimmed

/-- The decimal with the zeros at the end of its digits moved into the exponent. -/
def normal (d : Decimal) : Decimal :=
  ⟨digitsValue d.significant, d.exponent + (ofNat d.digits).length - d.significant.length⟩

theorem normalDigits_eq (d : Decimal) :
    Layout.normalDigits d = (d.significant, d.normal.exponent + d.significant.length - 1) := by
  simp only [Layout.normalDigits, normal, Prod.mk.injEq]
  exact ⟨rfl, by omega⟩

theorem significant_append (d : Decimal) : ∃ zeros : Nat, ofNat d.digits = d.significant ++ List.replicate zeros 0x30 ∧
    d.digits = d.normal.digits * 10 ^ zeros ∧ d.normal.exponent = d.exponent + zeros := by
  obtain ⟨zeros, h⟩ := eq_trimmed_append (ofNat d.digits)
  refine ⟨zeros, h, ?_, ?_⟩
  · have hvalue := digitsValue_ofNat d.digits
    rw [h, digitsValue_append, digitsValue_zeros, List.length_replicate, Nat.add_zero] at hvalue
    exact hvalue.symm
  · have hlength := congrArg List.length h
    rw [List.length_append, List.length_replicate] at hlength
    simp only [normal, significant]
    omega

theorem readsAs_normal {d : Decimal} {code : Nat} (h : d.readsAs code = true) : d.normal.readsAs code = true := by
  obtain ⟨zeros, -, hdigits, hexponent⟩ := d.significant_append
  have h : Decimal.readsAs ⟨d.normal.digits * 10 ^ zeros, d.exponent⟩ code = true := by
    rw [← hdigits]
    exact h
  have hnormal := readsAs_shift.mp h
  rw [← hexponent] at hnormal
  exact hnormal

theorem significant_isWhole {d : Decimal} (h : 0 < d.digits) :
    d.significant.IsWhole ∧ d.significant.head? ≠ some 0x30 := by
  obtain ⟨zeros, happend, hdigits, -⟩ := d.significant_append
  have hne : d.significant ≠ [] := by
    intro hnil
    rw [normal, hnil] at hdigits
    rw [hdigits] at h
    exact absurd h (by simp [digitsValue])
  have hhead : d.significant.head? ≠ some 0x30 := by
    obtain ⟨c, t, ht⟩ := List.exists_cons_of_ne_nil hne
    have hfirst := head?_ofNat_ne h
    rw [happend, ht] at hfirst
    rw [ht]
    exact hfirst
  refine ⟨⟨fun c hc => ?_, hne, .inl hhead⟩, hhead⟩
  refine isDigits_ofNat d.digits c ?_
  rw [happend]
  exact List.mem_append_left _ hc

end Decimal

namespace Layout
open Text
open Json (digitsValue Ends)
variable {layout : Layout} {d : Decimal} {rest : Text}

/-- The whole number as which a decimal is written, if it is written without point and exponent. -/
def whole? (layout : Layout) (d : Decimal) : Option Nat :=
  let leading := d.normal.exponent + d.significant.length - 1
  if layout.keepsFraction = false ∧ layout.lowest ≤ leading ∧ leading ≤ layout.highest ∧ 0 ≤ d.normal.exponent then
    some (d.normal.digits * 10 ^ d.normal.exponent.toNat)
  else none

/-- What the text of a decimal is read back as, when it lies in the interval of this magnitude. -/
def numeral (layout : Layout) (negative : Bool) (d : Decimal) (magnitude : Magnitude) : Json :=
  match layout.whole? d with
  | some n => .int (if negative then -n else n)
  | none => .float (.signed negative magnitude)

theorem whole?_of_negative (h : d.normal.exponent < 0) : layout.whole? d = none := by
  rw [whole?, if_neg (by omega)]

/-- A decimal that lies in the interval of a magnitude is read as the magnitude, however its zeros are written. -/
theorem ofDecimal_normal {magnitude : Magnitude} (negative : Bool) (h : d.readsAs magnitude.val = true)
    {digits zeros : Nat} {exponent : Int} (hdigits : digits = d.normal.digits * 10 ^ zeros)
    (hexponent : d.normal.exponent = exponent + zeros) :
    Double.ofDecimal negative digits exponent = .signed negative magnitude := by
  refine Double.ofDecimal_of_readsAs (d := ⟨digits, exponent⟩) negative ?_
  have hnormal := Decimal.readsAs_normal h
  rw [hdigits]
  refine Decimal.readsAs_shift.mpr ?_
  rw [← hexponent]
  exact hnormal

/-- Digits behind a zero and a point. -/
theorem readUnsigned_below (negative : Bool) (hd : 0 < d.digits) (hr : Ends rest) {zeros : Nat}
    (hzeros : d.normal.exponent = -(zeros + d.significant.length : Nat)) :
    Json.readUnsigned negative (Text.ofString "0." ++ List.replicate zeros 0x30 ++ d.significant ++ rest) =
      some (.float (.ofDecimal negative d.normal.digits d.normal.exponent), rest) := by
  obtain ⟨hwhole, -⟩ := Decimal.significant_isWhole hd
  have hfraction := (isDigits_zeros zeros).append hwhole.isDigits
  have hread := Json.readUnsigned_fraction negative (isWhole_ofNat 0)
    (List.append_ne_nil_of_right_ne_nil (List.replicate zeros 0x30) hwhole.ne_nil) hfraction hr
  rw [digitsValue_append, digitsValue_append, digitsValue_zeros, digitsValue_ofNat, List.length_append,
    List.length_replicate, Nat.zero_mul, Nat.zero_mul, Nat.zero_add, Nat.zero_add, ← hzeros] at hread
  rw [List.append_assoc _ _ d.significant]
  exact hread

/-- Digits with a point between them. -/
theorem readUnsigned_inside (negative : Bool) (hd : 0 < d.digits) (hr : Ends rest) {places : Nat} (hplaces : 0 < places)
    (hpart : d.significant.drop places ≠ []) (hexponent : d.normal.exponent = places - d.significant.length) :
    Json.readUnsigned negative (d.significant.take places ++ 0x2E :: d.significant.drop places ++ rest) =
      some (.float (.ofDecimal negative d.normal.digits d.normal.exponent), rest) := by
  obtain ⟨hwhole, hhead⟩ := Decimal.significant_isWhole hd
  have hlength : places < d.significant.length := by
    by_contra h
    exact hpart (List.drop_eq_nil_of_le (by omega))
  have hfront : IsWhole (d.significant.take places) := by
    refine ⟨fun c hc => hwhole.isDigits c (List.mem_of_mem_take hc), ?_, .inl ?_⟩
    · intro h
      have := congrArg List.length h
      rw [List.length_take, List.length_nil] at this
      omega
    · rw [List.head?_take, if_neg (by omega)]
      exact hhead
  have hback : IsDigits (d.significant.drop places) := fun c hc => hwhole.isDigits c (List.mem_of_mem_drop hc)
  have hread := Json.readUnsigned_fraction negative hfront hpart hback hr
  rw [List.take_append_drop, List.length_drop] at hread
  rw [hread]
  refine congrArg (fun e => some (Json.float (.ofDecimal negative d.normal.digits e), rest)) ?_
  omega

/-- A digit, further ones behind a point, and an exponent. -/
theorem readUnsigned_scientific (layout : Layout) (negative : Bool) (hd : 0 < d.digits) (hr : Ends rest) :
    Json.readUnsigned negative (d.significant.take 1 ++ fraction (d.significant.drop 1) ++
      layout.exponentText (d.normal.exponent + d.significant.length - 1) ++ rest) =
      some (.float (.ofDecimal negative d.normal.digits d.normal.exponent), rest) := by
  obtain ⟨hwhole, hhead⟩ := Decimal.significant_isWhole hd
  have hlength := List.length_pos_iff.mpr hwhole.ne_nil
  have hfront : IsWhole (d.significant.take 1) := by
    refine ⟨fun c hc => hwhole.isDigits c (List.mem_of_mem_take hc), ?_, .inr ?_⟩
    · intro h
      have := congrArg List.length h
      rw [List.length_take, List.length_nil] at this
      omega
    · rw [List.length_take]
      omega
  have hback : IsDigits (d.significant.drop 1) := fun c hc => hwhole.isDigits c (List.mem_of_mem_drop hc)
  have hread := Json.readUnsigned_exponent layout (d.normal.exponent + d.significant.length - 1) negative hfront hback hr
  rw [List.take_append_drop, List.length_drop] at hread
  rw [List.append_assoc, List.append_assoc, hread]
  refine congrArg (fun e => some (Json.float (.ofDecimal negative d.normal.digits e), rest)) ?_
  omega

/-- The digits of a whole number, with as many zeros behind them as it takes. -/
theorem whole_append_zeros (hd : 0 < d.digits) (zeros : Nat) :
    (d.significant ++ List.replicate zeros 0x30).IsWhole ∧
      digitsValue (d.significant ++ List.replicate zeros 0x30) = d.normal.digits * 10 ^ zeros := by
  obtain ⟨hwhole, hhead⟩ := Decimal.significant_isWhole hd
  refine ⟨hwhole.append hhead (isDigits_zeros zeros), ?_⟩
  rw [digitsValue_append, digitsValue_zeros, List.length_replicate]
  rfl

/-- A whole number with a point and a zero. -/
theorem readUnsigned_pointed (negative : Bool) (hd : 0 < d.digits) (hr : Ends rest) (zeros : Nat) :
    Json.readUnsigned negative (d.significant ++ List.replicate zeros 0x30 ++ Text.ofString ".0" ++ rest) =
      some (.float (.ofDecimal negative (d.normal.digits * 10 ^ (zeros + 1)) (-1)), rest) := by
  obtain ⟨hwhole, hvalue⟩ := whole_append_zeros hd zeros
  have hread := Json.readUnsigned_fraction negative hwhole (List.cons_ne_nil 0x30 []) (isDigits_zeros 1) hr
  rw [digitsValue_append _ [0x30], hvalue] at hread
  rw [Nat.pow_succ, ← Nat.mul_assoc]
  exact hread

/-- What is written for a decimal is read back: the magnitude in whose interval the decimal lies, or an integer. -/
theorem readUnsigned_decimal {magnitude : Magnitude} (negative : Bool) (hlong : layout.highest < 4300)
    (h : d.readsAs magnitude.val = true) (hpos : 0 < magnitude.val) (hr : Ends rest) :
    Json.readUnsigned negative (layout.decimal d ++ rest) = some (layout.numeral negative d magnitude, rest) := by
  have hd := Decimal.digits_pos h hpos
  obtain ⟨hwhole, -⟩ := Decimal.significant_isWhole hd
  have hlength := List.length_pos_iff.mpr hwhole.ne_nil
  have hfloat : Double.ofDecimal negative d.normal.digits d.normal.exponent = .signed negative magnitude :=
    ofDecimal_normal negative h (Nat.mul_one _).symm (Int.add_zero _).symm
  simp only [decimal, Decimal.normalDigits_eq]
  split
  case isTrue hplain =>
    split
    case isTrue hbelow =>
      -- A zero, a point, and the digits behind further zeros.
      rw [readUnsigned_below negative hd hr (by omega), hfloat, numeral, whole?_of_negative (by omega)]
    case isFalse hbelow =>
      generalize hplaces : (d.normal.exponent + d.significant.length - 1).toNat + 1 = places
      split
      case isTrue hall =>
        -- No digit is behind the point, and layouts differ in whether there is a point at all.
        have hle : d.significant.length ≤ places := List.drop_eq_nil_iff.mp hall
        obtain ⟨hdigits, hvalue⟩ := whole_append_zeros hd (places - d.significant.length)
        rw [List.take_of_length_le hle]
        split
        case isTrue hkeeps =>
          have hten : Double.ofDecimal negative (d.normal.digits * 10 ^ (places - d.significant.length + 1)) (-1) =
              .signed negative magnitude := ofDecimal_normal negative h rfl (by omega)
          rw [readUnsigned_pointed negative hd hr, hten, numeral, whole?, if_neg (by simp [hkeeps])]
        case isFalse hkeeps =>
          have hzeros : d.normal.exponent.toNat = places - d.significant.length := by omega
          have hlimit : (d.significant ++ List.replicate (places - d.significant.length) 0x30).length ≤
              Json.intDigitLimit := by
            rw [List.length_append, List.length_replicate, Json.intDigitLimit]
            omega
          have hwhole? : layout.whole? d = some (d.normal.digits * 10 ^ (places - d.significant.length)) := by
            rw [whole?, if_pos ⟨Bool.eq_false_of_not_eq_true hkeeps, hplain.1, hplain.2, by omega⟩, hzeros]
          rw [Json.readUnsigned_int negative hdigits hlimit hr, hvalue, numeral, hwhole?]
      case isFalse hpart =>
        -- The point stands among the digits.
        have hlt : places < d.significant.length := by
          by_contra h
          exact hpart (List.drop_eq_nil_of_le (by omega))
        have hfraction : fraction (d.significant.drop places) = 0x2E :: d.significant.drop places := if_neg hpart
        rw [hfraction, Nat.sub_eq_zero_of_le (Nat.le_of_lt hlt), List.replicate_zero, List.append_nil,
          readUnsigned_inside negative hd hr (by omega) hpart (by omega), hfloat, numeral, whole?_of_negative (by omega)]
  case isFalse hplain =>
    rw [readUnsigned_scientific layout negative hd hr, hfloat, numeral, whole?, if_neg (by omega)]

end Layout

/-! ### Doubles in a layout -/

namespace Json

/-- No word begins like a number. -/
theorem words_not_number : words.all (fun word => match word.1 with
    | first :: second :: _ => !isDigit first && (first != 0x2D || !isDigit second)
    | _ => false) = true := by
  decide

theorem readUnsigned_starts {negative : Bool} {s : Text} {found : Json × Text}
    (h : readUnsigned negative s = some found) : ∃ c rest, s = c :: rest ∧ isDigit c = true := by
  cases s with
  | nil => simp [readUnsigned] at h
  | cons c rest =>
    refine ⟨c, rest, rfl, ?_⟩
    by_contra hc
    simp [readUnsigned, hc] at h

/-- A number is read as one, with its sign in front. -/
theorem readScalar_number {negative : Bool} {s : Text} {found : Json × Text}
    (h : readUnsigned negative s = some found) : readScalar (if negative then 0x2D :: s else s) = some found := by
  obtain ⟨c, rest, rfl, hc⟩ := readUnsigned_starts h
  have hquote : c ≠ 0x22 := by
    rintro rfl
    cases hc
  have hminus : c ≠ 0x2D := by
    rintro rfl
    cases hc
  have hwords : ∀ s, (s = c :: rest ∨ s = 0x2D :: c :: rest) →
      (words.findSome? fun word => (after? word.1 s).map fun rest => (word.2, rest)) = none := by
    intro s hs
    refine List.findSome?_eq_none_iff.mpr fun word hword => ?_
    have hnot := List.all_eq_true.mp words_not_number word hword
    obtain ⟨_ | ⟨first, _ | ⟨second, later⟩⟩, value⟩ := word
    · cases hnot
    · cases hnot
    · simp only [Bool.and_eq_true, Bool.not_eq_true', Bool.or_eq_true, bne_iff_ne] at hnot
      have hfirst : first ≠ c := by
        rintro rfl
        exact absurd (hnot.1.symm.trans hc) (by decide)
      have hsecond : first = 0x2D → second ≠ c := by
        rintro rfl rfl
        exact hnot.2.elim (fun h => h rfl) fun h => absurd (h.symm.trans hc) (by decide)
      rcases hs with rfl | rfl
      · simp [after?, hfirst]
      · by_cases hm : first = 0x2D
        · simp [after?, hm, hsecond hm]
        · simp [after?, hm]
  cases negative with
  | true => simp [readScalar, hwords (0x2D :: c :: rest) (.inr rfl), h]
  | false => simp [readScalar, hwords (c :: rest) (.inl rfl), hquote, hminus, h]

end Json

namespace Layout
open Json (Ends)
variable {layout : Layout} {d : Double} {rest : Text}

/-- What the text of a finite double is read back as. -/
def rereads (layout : Layout) : Double → Json
  | .nan => .null
  | .signed negative magnitude =>
    if magnitude.val = 0 then
      if layout.keepsFraction then .float (.signed (negative && layout.signsZero) magnitude) else .int 0
    else layout.numeral negative (Decimal.shortest magnitude.val) magnitude

/-- A zero is written as one digit, or as two with a point between them. -/
theorem readUnsigned_zero (negative : Bool) (keepsFraction : Bool) (hr : Ends rest) :
    Json.readUnsigned negative ((if keepsFraction then Text.ofString "0.0" else [0x30]) ++ rest) =
      some (if keepsFraction then .float (.signed negative 0) else .int 0, rest) := by
  cases keepsFraction with
  | true =>
    exact Json.readUnsigned_fraction negative (Text.isWhole_ofNat 0) (List.cons_ne_nil 0x30 []) (Text.isDigits_zeros 1) hr
  | false =>
    have hread := Json.readUnsigned_int negative (Text.isWhole_ofNat 0) (show 1 ≤ Json.intDigitLimit by decide) hr
    cases negative <;> exact hread

/-- What a layout writes for a finite double is a sign, or none, and digits that are read back. -/
theorem readUnsigned_write (hlong : layout.highest < 4300) (hd : d.isFinite = true) :
    ∃ negative body, layout.write d = (if negative then 0x2D :: body else body) ∧
      ∀ rest, Ends rest → Json.readUnsigned negative (body ++ rest) = some (layout.rereads d, rest) := by
  cases d with
  | nan => cases hd
  | signed negative magnitude =>
    have hfinite : magnitude.val ≠ infinityCode := by simpa [Double.isFinite] using hd
    rcases Nat.eq_zero_or_pos magnitude.val with hzero | hpos
    · have hmagnitude : magnitude = 0 := Fin.ext hzero
      subst hmagnitude
      refine ⟨negative && layout.signsZero, if layout.keepsFraction then Text.ofString "0.0" else [0x30], ?_, ?_⟩
      · have hinfinite : ¬ (0 : Nat) = infinityCode := by decide
        simp [write, hinfinite]
      · intro rest hr
        rw [readUnsigned_zero _ _ hr]
        simp [rereads]
    · have hreads := Decimal.readsAs_shortest magnitude.val
      have hne : magnitude.val ≠ 0 := Nat.pos_iff_ne_zero.mp hpos
      refine ⟨negative, layout.decimal (Decimal.shortest magnitude.val), ?_, ?_⟩
      · simp only [write, hfinite, hne, if_false, ne_eq, not_false_eq_true, true_or, and_true]
      · intro rest hr
        rw [readUnsigned_decimal negative hlong hreads hpos hr, rereads, if_neg hne]

theorem rereads_host (hd : d.isFinite = true) : Layout.host.rereads d = .float d := by
  cases d with
  | nan => cases hd
  | signed negative magnitude =>
    simp only [rereads, numeral, whole?, host, Bool.and_true, if_true, Bool.true_eq_false, false_and, if_false,
      ite_self]

/-- The number that a script writes is equal to it, and only a negative zero loses its sign. -/
theorem rereads_script (hd : d.isFinite = true) :
    (∃ n, Layout.script.rereads d = .int n ∧ Double.ofInt n = d.clearZeroSign) ∨
      Layout.script.rereads d = .float d.clearZeroSign := by
  cases d with
  | nan => cases hd
  | signed negative magnitude =>
    rcases Nat.eq_zero_or_pos magnitude.val with hzero | hpos
    · refine .inl ⟨0, by simp [rereads, hzero, script], ?_⟩
      rw [Double.clearZeroSign, if_pos (by simp [Double.isZero, hzero])]
      exact Double.ofInt_zero
    · have hne : magnitude.val ≠ 0 := Nat.pos_iff_ne_zero.mp hpos
      have hclear : (Double.signed negative magnitude).clearZeroSign = .signed negative magnitude := by
        simp [Double.clearZeroSign, Double.isZero, hne]
      rw [rereads, if_neg hne, numeral, hclear]
      split
      case h_1 n hn =>
        refine .inl ⟨_, rfl, Double.ofInt_of_readsAs negative ?_ hpos⟩
        have hnormal := Decimal.readsAs_normal (Decimal.readsAs_shortest magnitude.val)
        rw [whole?] at hn
        split at hn
        case isTrue hwhole =>
          obtain rfl := Option.some.inj hn
          refine Decimal.readsAs_shift.mpr ?_
          rw [Int.zero_add, Int.toNat_of_nonneg hwhole.2.2.2]
          exact hnormal
        case isFalse => cases hn
      case h_2 => exact .inr rfl

end Layout

end ScriptLink
