import Mathlib.Data.List.Perm.Basic
import ScriptLink.Proofs.Joining
import ScriptLink.Proofs.Numeral
import ScriptLink.Script.Conversion

/-! # What an object shows by itself

    An object that is no proxy shows its own properties whatever its prototypes hold: its kind, its length and the
    properties found under its names. The order of names only rearranges them, and rearranging them twice is
    rearranging them once. -/

namespace ScriptLink.Script

/-! ### The order of names -/

theorem inOrder_perm (names : List Units) : (inOrder names).Perm names := by
  have hrest : (names.filter fun name => (indexOf? name).isNone) =
      names.filter fun name => !(indexOf? name).isSome :=
    List.filter_congr fun name _ => by cases indexOf? name <;> rfl
  rw [inOrder, hrest]
  exact ((List.mergeSort_perm _ _).append_right _).trans (List.filter_append_perm _ _)

theorem mem_inOrder {name : Units} {names : List Units} : name ∈ inOrder names ↔ name ∈ names :=
  (inOrder_perm names).mem_iff

theorem nodup_inOrder {names : List Units} (h : names.Nodup) : (inOrder names).Nodup :=
  (inOrder_perm names).nodup_iff.mpr h

theorem inOrder_inOrder (names : List Units) : inOrder (inOrder names) = inOrder names := by
  have hindices : ∀ name ∈ (names.filter fun name => (indexOf? name).isSome).mergeSort
      (fun a b => (indexOf? a).getD 0 ≤ (indexOf? b).getD 0), (indexOf? name).isSome := fun name hn =>
    (List.mem_filter.mp ((List.mergeSort_perm _ _).mem_iff.mp hn)).2
  have hothers : ∀ name ∈ names.filter fun name => (indexOf? name).isNone, (indexOf? name).isNone := fun name hn =>
    (List.mem_filter.mp hn).2
  have hsorted : ((names.filter fun name => (indexOf? name).isSome).mergeSort
      (fun a b => (indexOf? a).getD 0 ≤ (indexOf? b).getD 0)).Pairwise
        (fun a b => decide ((indexOf? a).getD 0 ≤ (indexOf? b).getD 0) = true) :=
    List.pairwise_mergeSort (fun a b c hab hbc => by simp only [decide_eq_true_eq] at *; omega)
      (fun a b => by simp; omega) _
  unfold inOrder
  generalize (names.filter fun name => (indexOf? name).isSome).mergeSort
    (fun a b => (indexOf? a).getD 0 ≤ (indexOf? b).getD 0) = indices at hindices hsorted
  generalize (names.filter fun name => (indexOf? name).isNone) = others at hothers
  have hno : ∀ name ∈ others, ¬ (indexOf? name).isSome := fun name hn => by simpa using hothers name hn
  have hyes : ∀ name ∈ indices, ¬ (indexOf? name).isNone := fun name hn => by
    have := hindices name hn
    cases h : indexOf? name <;> simp_all
  rw [List.filter_append, List.filter_append, List.filter_eq_self.mpr hindices, List.filter_eq_nil_iff.mpr hno,
    List.filter_eq_nil_iff.mpr hyes, List.filter_eq_self.mpr hothers, List.append_nil, List.nil_append,
    List.mergeSort_of_pairwise hsorted]

/-- Names without an index among them stand as they were made. -/
theorem inOrder_of_no_index {names : List Units} (h : ∀ name ∈ names, indexOf? name = none) : inOrder names = names := by
  have hindices : names.filter (fun name => (indexOf? name).isSome) = [] :=
    List.filter_eq_nil_iff.mpr fun name hn => by simp [h name hn]
  have hothers : names.filter (fun name => (indexOf? name).isNone) = names :=
    List.filter_eq_self.mpr fun name hn => by simp [h name hn]
  rw [inOrder, hindices, hothers, List.mergeSort_nil, List.nil_append]

/-- Names without one that is no index, in order. -/
theorem inOrder_filter_ne {name : Units} (h : indexOf? name = none) (names : List Units) :
    inOrder (names.filter fun other => other ≠ name) = (inOrder names).filter fun other => other ≠ name := by
  have hindex {other : Units} (ho : (indexOf? other).isSome) : other ≠ name := by
    rintro rfl
    rw [h] at ho
    cases ho
  have hindices : (names.filter fun other => other ≠ name).filter (fun other => (indexOf? other).isSome) =
      names.filter fun other => (indexOf? other).isSome := by
    rw [List.filter_filter]
    refine List.filter_congr fun other _ => ?_
    cases ho : (indexOf? other).isSome
    · rfl
    · simpa using hindex ho
  have hsorted : ((names.filter fun other => (indexOf? other).isSome).mergeSort
      (fun a b => (indexOf? a).getD 0 ≤ (indexOf? b).getD 0)).filter (fun other => other ≠ name) =
        (names.filter fun other => (indexOf? other).isSome).mergeSort
          (fun a b => (indexOf? a).getD 0 ≤ (indexOf? b).getD 0) := by
    refine List.filter_eq_self.mpr fun other ho => decide_eq_true (hindex ?_)
    exact (List.mem_filter.mp ((List.mergeSort_perm _ _).mem_iff.mp ho)).2
  rw [inOrder, inOrder, hindices, List.filter_append, hsorted, List.filter_filter, List.filter_filter]
  refine congrArg _ (List.filter_congr fun other _ => Bool.and_comm _ _)

/-! ### The names of indices -/

theorem digits_below (n : Nat) : ∀ c ∈ Text.ofNat n, c.val < 0xD800 := fun c hc => by
  have hdigit := Text.isDigits_ofNat n c hc
  simp only [Json.isDigit, Bool.and_eq_true, decide_eq_true_eq] at hdigit
  omega

theorem nameOfIndex_injective : Function.Injective nameOfIndex := fun m n h => by
  have htext : Text.ofNat m = Text.ofNat n := Text.eq_of_toUnits_eq (digits_below n) h
  rw [← Text.digitsValue_ofNat m, htext, Text.digitsValue_ofNat]

theorem nameOfIndex_ne_lengthName (n : Nat) : nameOfIndex n ≠ lengthName := by
  intro h
  have htext := Text.eq_of_toUnits_eq (digits_below n) h.symm
  have hdigits := Text.isDigits_ofNat n
  rw [← htext] at hdigits
  exact absurd (hdigits 0x6C (by decide)) (by decide)

/-! ### An object by itself -/

namespace Realm
variable {r : Realm} {ref : Ref}

/-- An own property is found before all others. -/
theorem find_of_own {key : Key} {property : Property} (hnature : ∀ target, (r.object ref).nature ≠ .proxy target)
    (h : (r.object ref).own? key = some property) : r.find ref key = .ok (some (ref, property)) := by
  rw [find, steps, findFrom]
  split
  case h_1 hn => exact absurd hn (hnature none)
  case h_2 target hn => exact absurd hn (hnature (some target))
  case h_3 => rw [h]

theorem isArray_of_nature {n : Nat} (h : (r.object ref).nature = .array n) : r.isArray ref = .ok true := by
  rw [isArray, steps, isArrayFrom, h]

theorem isArray_of_plain (h : (r.object ref).nature = .plain) : r.isArray ref = .ok false := by
  rw [isArray, steps, isArrayFrom, h]

theorem callable_of_plain (h : (r.object ref).nature = .plain) : r.callable ref = false := by
  rw [callable, routine?, steps, routineFrom?, h]
  rfl

theorem keys_of_plain (h : (r.object ref).nature = .plain) : r.keys ref = .ok (r.object ref).enumerableNames := by
  rw [keys, steps, keysFrom, h]

theorem lengthOf_of_nature {n : Nat} (h : (r.object ref).nature = .array n) : r.lengthOf ref = .ok n := by
  rw [lengthOf, h]

/-- An object without a tag of its own or of a prototype has that of plain objects. -/
theorem tagOf_of_plain (h : (r.object ref).nature = .plain)
    (htag : ∃ v, r.get ref (.symbol .toStringTag) = .ok v ∧ ∀ us, v ≠ .string us) :
    r.tagOf ref = .ok (.ofString "Object") := by
  obtain ⟨v, hget, hv⟩ := htag
  have hnature : r.natureTag ref = .ok "Object" := by
    simp only [natureTag, isArray_of_plain h, callable_of_plain h, h, bind, Except.bind, pure, Except.pure,
      Bool.false_eq_true, if_false]
  simp only [tagOf, hnature, hget, bind, Except.bind]
  cases v with
  | string us => exact absurd rfl (hv us)
  | _ => rfl

end Realm

end ScriptLink.Script
