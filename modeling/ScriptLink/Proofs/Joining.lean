import Mathlib.Data.List.Basic
import ScriptLink.Text.Units

/-! # Joined texts

    Texts with the same units are told apart by their separate halves alone: they become equal once the halves are
    joined. Main statements: joining changes no unit, and a string comes back from its text. -/

namespace ScriptLink

namespace CodePoint

theorem val_paired {high low : Nat} (hh : 0xD800 ≤ high ∧ high < 0xDC00) (hl : 0xDC00 ≤ low ∧ low < 0xE000) :
    (paired high low).val = 0x10000 + (high - 0xD800) * 0x400 + (low - 0xDC00) := by
  rw [paired, ofNat, dif_pos (by omega)]

theorem toUnits_paired {c d : CodePoint} (hc : c.IsHigh) (hd : d.IsLow) :
    (paired c.val d.val).toUnits = c.toUnits ++ d.toUnits := by
  have hc : 0xD800 ≤ c.val ∧ c.val < 0xDC00 := hc
  have hd : 0xDC00 ≤ d.val ∧ d.val < 0xE000 := hd
  have hval := val_paired hc hd
  have hhigh : 0xD800 + ((paired c.val d.val).val - 0x10000) / 0x400 = c.val := by omega
  have hlow : 0xDC00 + ((paired c.val d.val).val - 0x10000) % 0x400 = d.val := by omega
  rw [toUnits, if_neg (by omega), hhigh, hlow, toUnits, if_pos (by omega), toUnits, if_pos (by omega)]
  rfl

theorem toUnits_ofUnit (u : CodeUnit) : (ofUnit u).toUnits = [u] := by
  have hu : (ofUnit u).val < 0x10000 := u.isLt
  rw [toUnits, if_pos hu]
  exact congrArg (fun v => [v]) (Fin.ext (Nat.mod_eq_of_lt hu))

end CodePoint

namespace Text

theorem toUnits_cons (c : CodePoint) (t : Text) : toUnits (c :: t) = c.toUnits ++ t.toUnits := List.flatMap_cons ..

theorem toUnits_joinCons (c : CodePoint) (t : Text) : (joinCons c t).toUnits = c.toUnits ++ t.toUnits := by
  cases t with
  | nil => exact toUnits_cons c []
  | cons d rest =>
    rw [joinCons]
    split
    case isTrue h => rw [toUnits_cons, toUnits_cons, CodePoint.toUnits_paired h.1 h.2, List.append_assoc]
    case isFalse => rw [toUnits_cons]

/-- Joining changes no unit. -/
theorem toUnits_join (t : Text) : t.join.toUnits = t.toUnits := by
  induction t with
  | nil => rfl
  | cons c t ih => rw [join_cons, toUnits_joinCons, ih, toUnits_cons]

/-- A string comes back from its text. -/
theorem toUnits_toText (us : Units) : us.toText.toUnits = us := by
  rw [Units.toText, toUnits_join]
  induction us with
  | nil => rfl
  | cons u us ih => rw [List.map_cons, toUnits_cons, CodePoint.toUnits_ofUnit, ih, List.singleton_append]

theorem join_join (t : Text) : t.join.join = t.join := by
  rw [← toText_toUnits t.join, toUnits_join, toText_toUnits]

theorem join_toText (us : Units) : us.toText.join = us.toText := by
  rw [← toText_toUnits us.toText, toUnits_toText]

/-- Texts become equal by joining just when they have the same units. -/
theorem join_eq_join_iff {s t : Text} : s.join = t.join ↔ s.toUnits = t.toUnits := by
  constructor
  · intro h
    rw [← toUnits_join s, h, toUnits_join]
  · intro h
    rw [← toText_toUnits s, h, toText_toUnits]

theorem toText_injective : Function.Injective Units.toText := fun us vs h => by
  rw [← toUnits_toText us, h, toUnits_toText]

/-- A text without characters from the surrogates on is told from every other text by its units. -/
theorem eq_of_toUnits_eq {s t : Text} (hs : ∀ c ∈ s, c.val < 0xD800) (h : t.toUnits = s.toUnits) : t = s := by
  have ne_nil (c : CodePoint) (t : Text) : toUnits (c :: t) ≠ [] := by
    rw [toUnits_cons, CodePoint.toUnits]
    split <;> simp
  induction t generalizing s with
  | nil =>
    cases s with
    | nil => rfl
    | cons d s => exact absurd h.symm (ne_nil d s)
  | cons c t ih =>
    cases s with
    | nil => exact absurd h (ne_nil c t)
    | cons d s =>
      have hd : d.val < 0xD800 := hs d List.mem_cons_self
      rw [toUnits_cons, toUnits_cons, CodePoint.toUnits.eq_1 d, if_pos (by omega)] at h
      by_cases hc : c.val < 0x10000
      · rw [CodePoint.toUnits, if_pos hc] at h
        obtain ⟨hunit, hrest⟩ := List.cons.inj h
        have hval : c.val % 0x10000 = d.val % 0x10000 := congrArg Fin.val hunit
        have hcd : c = d := Fin.ext (by omega)
        rw [hcd, ih (fun e he => hs e (List.mem_cons_of_mem _ he)) hrest]
      · rw [CodePoint.toUnits, if_neg hc] at h
        have hunit := (List.cons.inj h).1
        have hval : (0xD800 + (c.val - 0x10000) / 0x400) % 0x10000 = d.val % 0x10000 := congrArg Fin.val hunit
        have := c.isLt
        omega

end Text

end ScriptLink
