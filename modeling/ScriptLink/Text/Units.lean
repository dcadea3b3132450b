import ScriptLink.Text.CodePoint

/-! # Text as 16-bit units

    A script's strings are sequences of 16-bit units. A code point above 0xFFFF takes two units, a high and a low
    surrogate; on the way back two such units become one code point again, whether one code point or two separate
    surrogates had made them. Main statement: a text comes back from its units with its surrogate pairs joined. -/

namespace ScriptLink

/-- A 16-bit unit of a script's string. -/
abbrev CodeUnit := Fin 0x10000

instance neZero_codeUnits : @NeZero Nat Zero.ofOfNat0 0x10000 := ⟨by decide⟩

/-- A script's string. -/
abbrev Units := List CodeUnit

namespace CodePoint

/-- The code point with the number of a unit. -/
def ofUnit (u : CodeUnit) : CodePoint :=
  ⟨u.val, by omega⟩

/-- The unit with this number, taken modulo 0x10000. -/
def unit (n : Nat) : CodeUnit :=
  Fin.ofNat 0x10000 n

/-- One unit for a code point up to 0xFFFF, a surrogate pair for any other. -/
def toUnits (c : CodePoint) : Units :=
  if c.val < 0x10000 then [unit c.val]
  else [unit (0xD800 + (c.val - 0x10000) / 0x400), unit (0xDC00 + (c.val - 0x10000) % 0x400)]

end CodePoint

/-- The units of a text. -/
def Text.toUnits (t : Text) : Units :=
  t.flatMap CodePoint.toUnits

/-- The text of a script's string: surrogate pairs are joined, lone surrogates stay. -/
def Units.toText (us : Units) : Text :=
  Text.join (us.map CodePoint.ofUnit)

theorem CodePoint.ofUnit_unit {c : CodePoint} (h : c.val < 0x10000) : ofUnit (unit c.val) = c := by
  apply Fin.ext
  simp only [ofUnit, unit, Fin.ofNat]
  exact Nat.mod_eq_of_lt h

theorem CodePoint.val_ofUnit_unit {n : Nat} (h : n < 0x10000) : (ofUnit (unit n)).val = n := by
  simp only [ofUnit, unit, Fin.ofNat]
  exact Nat.mod_eq_of_lt h

theorem Text.joinCons_of_not_high {c : CodePoint} (h : ¬ c.IsHigh) (t : Text) : joinCons c t = c :: t := by
  cases t with
  | nil => rfl
  | cons d rest => simp [joinCons, h]

/-- The halves of a code point above 0xFFFF stand for it together. -/
theorem CodePoint.paired_halves {c : CodePoint} (h : 0x10000 ≤ c.val) :
    paired (0xD800 + (c.val - 0x10000) / 0x400) (0xDC00 + (c.val - 0x10000) % 0x400) = c := by
  have hc := c.isLt
  have hn : 0x10000 + (0xD800 + (c.val - 0x10000) / 0x400 - 0xD800) * 0x400 +
      (0xDC00 + (c.val - 0x10000) % 0x400 - 0xDC00) = c.val := by omega
  rw [paired, hn, ofNat, dif_pos hc]

/-- The units of a code point in front of a text are joined into the code point. -/
theorem Text.join_toUnits_append (c : CodePoint) (t : Text) :
    join (c.toUnits.map CodePoint.ofUnit ++ t) = joinCons c (join t) := by
  unfold CodePoint.toUnits
  split
  case isTrue h => simp [CodePoint.ofUnit_unit h]
  case isFalse h =>
    have hc := c.isLt
    have high := CodePoint.val_ofUnit_unit (n := 0xD800 + (c.val - 0x10000) / 0x400) (by omega)
    have low := CodePoint.val_ofUnit_unit (n := 0xDC00 + (c.val - 0x10000) % 0x400) (by omega)
    simp only [List.map_cons, List.map_nil, List.cons_append, List.nil_append, join_cons]
    rw [joinCons_of_not_high (c := c) (by rw [CodePoint.IsHigh]; omega)]
    generalize CodePoint.ofUnit (CodePoint.unit (0xD800 + (c.val - 0x10000) / 0x400)) = first at high ⊢
    generalize CodePoint.ofUnit (CodePoint.unit (0xDC00 + (c.val - 0x10000) % 0x400)) = second at low ⊢
    rw [joinCons_of_not_high (c := second) (by rw [CodePoint.IsHigh, low]; omega)]
    simp only [joinCons]
    rw [if_pos ⟨by rw [CodePoint.IsHigh, high]; omega, by rw [CodePoint.IsLow, low]; omega⟩, high, low]
    rw [CodePoint.paired_halves (by omega)]

/-- A text comes back from its units with its surrogate pairs joined. -/
theorem Text.toText_toUnits (t : Text) : t.toUnits.toText = t.join := by
  induction t with
  | nil => rfl
  | cons c t ih =>
    simp only [Text.toUnits, Units.toText, List.flatMap_cons, List.map_append] at ih ⊢
    rw [join_toUnits_append, ih, join_cons]

/-- The units of a string. -/
def Units.ofString (s : String) : Units :=
  (Text.ofString s).toUnits

end ScriptLink
