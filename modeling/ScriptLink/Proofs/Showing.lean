import ScriptLink.Proofs.LineGrammar
import ScriptLink.Proofs.LoopStep

/-! # What of the peer's lines can be shown

    A line is decoded only if what stands on it is not nested too deep, and an integer on it has a bounded number of
    digits. So what was decoded can be shown where the stack has room for one call more than there are containers inside
    each other. The room where a report is translated is always enough for that, the room where an event is logged is
    not. -/

namespace ScriptLink
open Json.Grammar

variable {s : Text} {j : Json} {calls : Nat}

/-! ### Parts that can be shown -/

theorem Host.ofJsonItems_eq_map (items : List Json) : ofJsonItems items = items.map Value.ofJson := by
  induction items with
  | nil => rfl
  | cons item rest ih => rw [ofJsonItems, ih, List.map_cons]

theorem Host.ofJsonMembers_eq_map (members : List (Text × Json)) :
    ofJsonMembers members = members.map fun member => (Value.text member.1, Value.ofJson member.2) := by
  induction members with
  | nil => rfl
  | cons member rest ih => rw [ofJsonMembers, ih, List.map_cons]

theorem Host.Value.unshown?_array {items : List Json} : (Value.ofJson (.array items)).unshown? (calls + 1) = Option.none ↔
    ∀ item ∈ items, (Value.ofJson item).unshown? calls = Option.none := by
  have hcalls : ¬ calls + 1 < (Shape.sequence .list).calls := Nat.not_lt.mpr (Nat.le_add_left 1 calls)
  rw [Value.ofJson, Value.unshown?, if_neg hcalls, itemsUnshown?_eq_none, ofJsonItems_eq_map, List.forall_mem_map]
  rfl

theorem Host.Value.unshown?_object {members : List (Text × Json)} (h : 0 < calls) :
    (Value.ofJson (.object members)).unshown? (calls + 1) = Option.none ↔
      ∀ member ∈ members, (Value.ofJson member.2).unshown? calls = Option.none := by
  have hcalls : ¬ calls + 1 < (Shape.mapping .dict).calls := Nat.not_lt.mpr (Nat.le_add_left 1 calls)
  rw [Value.ofJson, Value.unshown?, if_neg hcalls, entriesUnshown?_eq_none, ofJsonMembers_eq_map, List.forall_mem_map]
  exact forall₂_congr fun member _ => and_iff_right (if_neg (Nat.not_lt.mpr h))

/-! ### What was read -/

theorem Json.Grammar.Separated.exists_part {α : Type} {part : Text → α → Prop} {as : List α}
    (h : Separated part s as) : ∀ a ∈ as, ∃ t, part t a := by
  induction h with
  | last _ h _ => exact List.forall_mem_singleton.mpr ⟨_, h⟩
  | cons _ h _ _ ih => exact List.forall_mem_cons.mpr ⟨⟨_, h⟩, ih⟩

theorem Json.Grammar.Merged.mem {entries members : List (Text × Json)} (h : Merged entries members) :
    ∀ member ∈ members, member ∈ entries :=
  fun member hm => List.mem_reverse.mp (List.mem_of_find?_eq_some (h.last member hm))

theorem Text.decimal_lt (h : s.IsDigits) : s.decimal < 10 ^ s.length := by
  have hlt := Nat.ofDigits_lt_base_pow_length (b := 10) (l := s.reverse.map fun c => c.val - 0x30) (by decide) (by
    intro digit hm
    obtain ⟨c, hc, rfl⟩ := List.mem_map.mp hm
    have hdigit := h c (List.mem_reverse.mp hc)
    simp only [Json.isDigit, Bool.and_eq_true, decide_eq_true_eq] at hdigit
    omega)
  rwa [List.length_map, List.length_reverse] at hlt

/-- An integer that was read is short enough to be written again. -/
theorem Json.isTooLong_of_length {n : ℤ} (hdigits : s.IsDigits) (hlength : s.length ≤ intDigitLimit)
    (hn : n.natAbs = s.decimal) : isTooLong n = false := by
  have hlt : n.natAbs < 10 ^ intDigitLimit := by
    rw [hn]
    exact Nat.lt_of_lt_of_le (Text.decimal_lt hdigits) (Nat.pow_le_pow_right (by decide) hlength)
  exact decide_eq_false (Nat.not_le_of_lt hlt)

theorem Host.Value.unshown?_int {n : ℤ} (h : Json.isTooLong n = false) :
    (Value.ofJson (.int n)).unshown? (calls + 1) = Option.none := by
  simp [Value.ofJson, Value.unshown?, Scalar.calls, Scalar.unshown?, h]

theorem Json.Grammar.Number.shown (h : Number s j) : (Host.Value.ofJson j).unshown? (calls + 1) = none := by
  cases h with
  | int negative hwhole hlength =>
    refine Host.Value.unshown?_int (isTooLong_of_length hwhole.isDigits hlength ?_)
    cases negative <;> simp
  | float => rfl

theorem Json.Grammar.Scalar.shown (h : Scalar s j) : (Host.Value.ofJson j).unshown? (calls + 1) = none := by
  cases h with
  | word h => cases h <;> rfl
  | number h => exact h.shown
  | text => rfl

/-- What was read with room for some containers can be shown with room for one call more. -/
theorem Json.Derives.shown {room : ℕ} (h : Derives room s j) (hcalls : room < calls) :
    (Host.Value.ofJson j).unshown? calls = none := by
  obtain ⟨calls, rfl⟩ := Nat.exists_eq_add_one.mpr (Nat.zero_lt_of_lt hcalls)
  induction room generalizing s j calls with
  | zero => exact Scalar.shown h
  | succ room ih =>
    obtain ⟨calls, rfl⟩ : ∃ below, calls = below + 1 := ⟨calls - 1, by omega⟩
    cases h with
    | scalar h => exact h.shown
    | emptyArray => exact Host.Value.unshown?_array.mpr (List.forall_mem_nil _)
    | array h =>
      refine Host.Value.unshown?_array.mpr fun item hitem => ?_
      obtain ⟨t, ht⟩ := h.exists_part item hitem
      exact ih ht _ (by omega)
    | emptyObject => exact (Host.Value.unshown?_object (Nat.succ_pos _)).mpr (List.forall_mem_nil _)
    | object h hmerged =>
      refine (Host.Value.unshown?_object (Nat.succ_pos _)).mpr fun member hmember => ?_
      obtain ⟨t, ht⟩ := h.exists_part member (hmerged.mem member hmember)
      cases ht with
      | named _ _ _ h => exact ih h _ (by omega)

/-! ### Messages on lines -/

theorem ScriptError.unshown?_of_shown {report : Host.Value} (h : report.unshown? reportRoom = none) :
    unshown? report = none := by
  unfold unshown?
  split
  · split
    · rfl
    · exact h
  · exact h

/-- A report lies inside two objects of its message, so that it can be told where the message can be shown with room
    for them. -/
theorem Json.tellable_of_shown {content : Json}
    (h : (Host.Value.ofJson content).unshown? (ScriptError.reportRoom + 2) = none) : content.Tellable := by
  intro answer id hm
  obtain ⟨type, parts, j, -, hpayload, -, -, hanswer⟩ := Answer.ofMessage?_eq_some.mp hm
  cases content with
  | object members =>
    have hpart := (Host.Value.unshown?_object (by decide)).mp h _ (Members.mem_of_find? hpayload)
    have hparts := (Host.Value.unshown?_object (by decide)).mp hpart
    simp only [Answer.ofPayload?, Host.lookup?_ofJsonMembers] at hanswer
    split_ifs at hanswer
    · obtain ⟨_, -, rfl⟩ := Option.map_eq_some_iff.mp hanswer
      rfl
    · obtain ⟨_, hreport, rfl⟩ := Option.map_eq_some_iff.mp hanswer
      obtain ⟨report, hfind, rfl⟩ := Option.map_eq_some_iff.mp hreport
      exact ScriptError.unshown?_of_shown (hparts _ (Members.mem_of_find? hfind))
    · obtain ⟨_, -, rfl⟩ := Option.map_eq_some_iff.mp hanswer
      rfl
  | _ => cases hpayload

theorem LineDerives.shown {room : ℕ} {line : List UInt8} (h : LineDerives room line j) (hcalls : room < calls) :
    (Host.Value.ofJson j).unshown? calls = none := by
  obtain ⟨_, -, -, -, _, _, _, -, -, -, h⟩ := h
  exact h.shown hcalls

/-- The answer of a message on a line can always be told. -/
theorem tellable_of_contentOn? {line : List UInt8} {content : Json} (h : contentOn? line = some content) :
    content.Tellable := by
  unfold contentOn? at h
  split at h
  · cases h
  · exact Json.tellable_of_shown ((read_line_iff.mp h).shown (by decide))

theorem Event.ofLine?_cases {line : List UInt8} {event : Event} (h : Event.ofLine? line = some event) :
    (∃ content : Json, event = .message (.ofJson content) ∧ content.Tellable) ∨ ∃ words, event = .protocolError words := by
  unfold Event.ofLine? at h
  split at h
  · cases h
  · split at h
    case h_1 content hread =>
      exact .inl ⟨content, (Option.some.inj h).symm, Json.tellable_of_shown ((read_line_iff.mp hread).shown (by decide))⟩
    case h_2 => exact .inr ⟨_, (Option.some.inj h).symm⟩

/-- What is nested less deep than the log has room for can be logged. -/
theorem LineDerives.not_unloggable {room : ℕ} {line : List UInt8} (h : LineDerives room line j)
    (hroom : room < Event.logRoom - 3) : ¬ j.Unloggable := by
  rintro ⟨-, reason, hshown, -⟩
  cases hshown.symm.trans (h.shown hroom)

/-! ### A line of brackets -/

theorem Json.fits_nested {n room : ℕ} (h : n < room) : (nested n).Fits room := by
  obtain ⟨room, rfl⟩ := Nat.exists_eq_add_one.mpr (Nat.zero_lt_of_lt h)
  induction n generalizing room with
  | zero => trivial
  | succ n ih =>
    obtain ⟨room, rfl⟩ : ∃ below, room = below + 1 := ⟨room - 1, by omega⟩
    exact ⟨ih _ (by omega), trivial⟩

theorem Json.retold_nested (numeral : Double → Json) (n : ℕ) : (nested n).retold numeral = nested n := by
  induction n with
  | zero => rfl
  | succ n ih => rw [nested, retold, retoldItems, ih, retoldItems]

theorem Json.at?_nested (n : ℕ) (name : String) : (nested n).at? name = none := by
  cases n <;> rfl

theorem contentOn?_nested {n : ℕ} (h : n < Json.nestingLimit) :
    contentOn? (Json.nested n).line = some (Json.nested n) := by
  rw [contentOn?_line (Json.fits_nested h), Json.retold_nested]

end ScriptLink
