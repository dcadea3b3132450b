import ScriptLink.Proofs.LineText

/-! # The text of a compact line

    The script's writer leaves characters as they are, but for control characters and lone surrogates. Main statements:
    what it makes of a JSON value has no newline in it, and the line of an object holds that object. -/

namespace ScriptLink

/-- A character that a line can hold: no control character, and no surrogate. -/
def CodePoint.IsLegible (c : CodePoint) : Prop := 0x20 ≤ c.val ∧ ¬ c.IsHigh ∧ ¬ c.IsLow

instance (c : CodePoint) : Decidable c.IsLegible := inferInstanceAs (Decidable (_ ∧ _ ∧ _))

/-- A text of such points only. -/
def Text.IsLegible (t : Text) : Prop := ∀ c ∈ t, c.IsLegible

theorem Text.IsGraphic.isLegible {t : Text} (h : t.IsGraphic) : t.IsLegible := by
  intro c hc
  have hgraphic : 0x20 ≤ c.val ∧ c.val < 0x7F := h c hc
  refine ⟨hgraphic.1, ?_, ?_⟩
  · unfold CodePoint.IsHigh
    omega
  · unfold CodePoint.IsLow
    omega

theorem Text.mem_intercalate {separator : Text} {parts : List Text} {c : CodePoint}
    (h : c ∈ Text.intercalate separator parts) : c ∈ separator ∨ ∃ part ∈ parts, c ∈ part := by
  induction parts with
  | nil => cases h
  | cons part parts ih =>
    cases parts with
    | nil =>
      rw [Json.intercalate_singleton] at h
      exact .inr ⟨part, List.mem_cons_self, h⟩
    | cons next parts =>
      rw [Json.intercalate_cons_cons, List.mem_append, List.mem_append] at h
      rcases h with h | h | h
      · exact .inr ⟨part, List.mem_cons_self, h⟩
      · exact .inl h
      · rcases ih h with h | ⟨other, hm, h⟩
        · exact .inl h
        · exact .inr ⟨other, List.mem_cons_of_mem _ hm, h⟩

namespace Text.IsLegible
variable {t : Text}

theorem decode_encode (h : t.IsLegible) : Utf8.decode (Utf8.encode t) = some t :=
  Utf8.decode_encode fun c hc => (h c hc).2

theorem newline_notMem (h : t.IsLegible) : (0x0A : UInt8) ∉ Utf8.encode t := by
  intro hm
  obtain ⟨c, hc, hbyte⟩ := List.mem_flatMap.mp hm
  obtain ⟨hspace, hhigh, hlow⟩ := h c hc
  have hc' := c.isLt
  -- Every byte is the character itself or above 0x7F.
  have hlarge : ∀ n, 0x20 ≤ n → n < 256 → (0x0A : UInt8) ≠ n.toUInt8 := by
    intro n hn hn' he
    have hval := congrArg UInt8.toNat he
    rw [Utf8.toNat_toUInt8 hn', show (0x0A : UInt8).toNat = 10 from rfl] at hval
    omega
  simp only [Utf8.encodeOne, hhigh, hlow, or_self, if_false] at hbyte
  split_ifs at hbyte with hone htwo hthree
  all_goals simp only [List.mem_cons, List.not_mem_nil, or_false] at hbyte
  · exact hlarge _ hspace (by omega) hbyte
  · rcases hbyte with hbyte | hbyte
    all_goals exact hlarge _ (by omega) (by omega) hbyte
  · rcases hbyte with hbyte | hbyte | hbyte
    all_goals exact hlarge _ (by omega) (by omega) hbyte
  · rcases hbyte with hbyte | hbyte | hbyte | hbyte
    all_goals exact hlarge _ (by omega) (by omega) hbyte

end Text.IsLegible

namespace Json

theorem isLegible_compactChar (c : CodePoint) : (compactChar c).IsLegible := by
  unfold compactChar
  split_ifs with h₁ h₂ h₃ h₄ h₅ h₆ h₇
  · refine Text.IsGraphic.isLegible (.cons (by decide) (.cons ?_ (by simp [Text.IsGraphic])))
    rcases h₁ with rfl | rfl <;> decide
  · exact Text.IsGraphic.isLegible (by decide)
  · exact Text.IsGraphic.isLegible (by decide)
  · exact Text.IsGraphic.isLegible (by decide)
  · exact Text.IsGraphic.isLegible (by decide)
  · exact Text.IsGraphic.isLegible (by decide)
  · exact (Text.IsGraphic.append (by decide) (.hex 4 c.val)).isLegible
  · intro d hd
    rw [not_or, not_or, not_lt] at h₇
    rw [List.mem_singleton.mp hd]
    exact h₇

theorem isLegible_compactString (t : Text) : (compactString t).IsLegible := by
  intro c hc
  rw [compactString, List.mem_append, List.mem_cons] at hc
  rcases hc with (rfl | hc) | hc
  · decide
  · obtain ⟨d, -, hc⟩ := List.mem_flatMap.mp hc
    exact isLegible_compactChar d c hc
  · rw [List.mem_singleton.mp hc]
    decide

theorem isLegible_compactList {opening closing : CodePoint} {parts : List Text} (ho : opening.IsLegible)
    (hc : closing.IsLegible) (h : ∀ part ∈ parts, part.IsLegible) : (compactList opening closing parts).IsLegible := by
  intro c hm
  rw [compactList, List.mem_append, List.mem_cons] at hm
  rcases hm with (rfl | hm) | hm
  · exact ho
  · rcases Text.mem_intercalate hm with hm | ⟨part, hpart, hm⟩
    · rw [List.mem_singleton.mp hm]
      decide
    · exact h part hpart c hm
  · rw [List.mem_singleton.mp hm]
    exact hc

theorem isLegible_compactDouble (d : Double) : (compactDouble d).IsLegible := by
  unfold compactDouble
  split_ifs
  · exact (Layout.isGraphic_write (by decide) (by decide) d).isLegible
  · exact Text.IsGraphic.isLegible (by decide)

mutual

theorem isLegible_compact : ∀ j : Json, (compact j).IsLegible
  | .null => Text.IsGraphic.isLegible (by decide)
  | .bool b => Text.IsGraphic.isLegible (by cases b <;> decide)
  | .int n => (Text.IsGraphic.ofInt n).isLegible
  | .float d => isLegible_compactDouble d
  | .text t => isLegible_compactString t
  | .array items => isLegible_compactList (by decide) (by decide) (isLegible_compactItems items)
  | .object members => isLegible_compactList (by decide) (by decide) (isLegible_compactMembers members)

theorem isLegible_compactItems : ∀ items : List Json, ∀ part ∈ compactItems items, part.IsLegible
  | [] => List.forall_mem_nil _
  | item :: rest => List.forall_mem_cons.mpr ⟨isLegible_compact item, isLegible_compactItems rest⟩

theorem isLegible_compactMembers : ∀ members : List (Text × Json), ∀ part ∈ compactMembers members, part.IsLegible
  | [] => List.forall_mem_nil _
  | (name, item) :: rest => by
    refine List.forall_mem_cons.mpr ⟨fun c hc => ?_, isLegible_compactMembers rest⟩
    rw [List.mem_append, List.mem_cons] at hc
    rcases hc with hc | rfl | hc
    · exact isLegible_compactString name c hc
    · decide
    · exact isLegible_compact item c hc

end

/-- The line that an object is written as holds this object. -/
theorem contentOn?_compact {members : Members Json} (h : Fits nestingLimit (.object members)) :
    contentOn? (Utf8.encode (compact (.object members))) = some (retold Layout.script.rereads (.object members)) := by
  have hblank : (Utf8.encode (compact (.object members))).all isBlankByte = false := by
    rw [compact, compactList, Utf8.encode, List.cons_append, List.flatMap_cons, List.all_append]
    rfl
  rw [contentOn?, hblank, if_neg Bool.false_ne_true, (isLegible_compact _).decode_encode, Option.bind_some,
    (spells_compact _ h).read?]

end Json

end ScriptLink
