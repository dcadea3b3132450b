import ScriptLink.Proofs.Framing
import ScriptLink.Proofs.LineText
import ScriptLink.Proofs.Parsing

/-! # What a line becomes

    A line is a message just when its bytes are the UTF-8 of a text that the grammar derives. Strict reading of UTF-8
    takes the bytes of texts without halves and no others: the bounds on the second byte of a character shut out what
    could be written shorter, the halves, and what lies beyond the last code point. Main statement: a line becomes
    nothing when it is blank, a message with the value of its derivation when it has one, and a protocol error
    otherwise. -/

namespace ScriptLink

namespace Utf8

/-! ### Bytes that are UTF-8 -/

variable {done t : Text} {bytes rest : List UInt8}

/-- A leading byte by its high bits; the rest of them bounds the next byte. -/
theorem ofLead_eq : ∀ b < 256, Owed.ofLead b =
    if 0xC2 ≤ b ∧ b < 0xE0 then some ⟨1, 0x80, 0xBF, b - 0xC0⟩
    else if 0xE0 ≤ b ∧ b < 0xF0 then some ⟨2, if b = 0xE0 then 0xA0 else 0x80, if b = 0xED then 0x9F else 0xBF, b - 0xE0⟩
    else if 0xF0 ≤ b ∧ b < 0xF5 then some ⟨3, if b = 0xF0 then 0x90 else 0x80, if b = 0xF4 then 0x8F else 0xBF, b - 0xF0⟩
    else none := by
  decide +kernel

theorem toUInt8_eq {n : ℕ} {b : UInt8} (h : n = b.toNat) : n.toUInt8 = b := by
  rw [h, Nat.toUInt8_eq, UInt8.ofNat_toNat]

/-- A byte that is owed is there and lies between its bounds; the last one ends the character. -/
theorem exists_of_decodeFrom_last {low high bits : ℕ} (h : decodeFrom done (some ⟨1, low, high, bits⟩) bytes = some t) :
    ∃ b rest, bytes = b :: rest ∧ low ≤ b.toNat ∧ b.toNat ≤ high ∧
      decodeFrom (.ofNat (bits * 64 + b.toNat % 64) :: done) none rest = some t := by
  cases bytes with
  | nil => cases h
  | cons b rest =>
    rw [decodeFrom] at h
    split at h
    case isTrue hb => exact ⟨b, rest, rfl, hb.1, hb.2, h⟩
    case isFalse => cases h

theorem exists_of_decodeFrom_more {k low high bits : ℕ}
    (h : decodeFrom done (some ⟨k + 2, low, high, bits⟩) bytes = some t) :
    ∃ b rest, bytes = b :: rest ∧ low ≤ b.toNat ∧ b.toNat ≤ high ∧
      decodeFrom done (some ⟨k + 1, 0x80, 0xBF, bits * 64 + b.toNat % 64⟩) rest = some t := by
  cases bytes with
  | nil => cases h
  | cons b rest =>
    rw [decodeFrom] at h
    split at h
    case isTrue hb =>
      dsimp only at h
      rw [if_neg (by omega)] at h
      exact ⟨b, rest, rfl, hb.1, hb.2, h⟩
    case isFalse => cases h

/-- The bytes of a code point by its number. -/
theorem encodeOne_ofNat {n : ℕ} (hn : n < 0x110000) (hgap : n < 0xD800 ∨ 0xE000 ≤ n) :
    ¬ (CodePoint.ofNat n).IsHigh ∧ ¬ (CodePoint.ofNat n).IsLow ∧ encodeOne (.ofNat n) =
      if n < 0x80 then [n.toUInt8]
      else if n < 0x800 then [(0xC0 + n / 64).toUInt8, (0x80 + n % 64).toUInt8]
      else if n < 0x10000 then [(0xE0 + n / 4096).toUInt8, (0x80 + n / 64 % 64).toUInt8, (0x80 + n % 64).toUInt8]
      else [(0xF0 + n / 262144).toUInt8, (0x80 + n / 4096 % 64).toUInt8, (0x80 + n / 64 % 64).toUInt8,
        (0x80 + n % 64).toUInt8] := by
  have hval : (CodePoint.ofNat n).val = n := by rw [CodePoint.ofNat, dif_pos hn]
  have hhigh : ¬ (CodePoint.ofNat n).IsHigh := by
    rw [CodePoint.IsHigh, hval]
    omega
  have hlow : ¬ (CodePoint.ofNat n).IsLow := by
    rw [CodePoint.IsLow, hval]
    omega
  refine ⟨hhigh, hlow, ?_⟩
  simp only [encodeOne, hhigh, hlow, or_self, if_false, hval]

theorem encodeOne_ne_nil (c : CodePoint) : encodeOne c ≠ [] := by
  unfold encodeOne
  dsimp only
  split_ifs <;> exact List.cons_ne_nil _ _

/-- Between characters, the bytes of one character come next. -/
theorem exists_of_decodeFrom_none {b : UInt8} (h : decodeFrom done none (b :: rest) = some t) :
    ∃ c rest', b :: rest = encodeOne c ++ rest' ∧ ¬ c.IsHigh ∧ ¬ c.IsLow ∧ decodeFrom (c :: done) none rest' = some t := by
  have hb := b.toNat_lt
  -- What the bytes spell is written back as these bytes.
  have found {n : ℕ} {rest' : List UInt8} (hn : n < 0x110000) (hgap : n < 0xD800 ∨ 0xE000 ≤ n)
      (hbytes : b :: rest = encodeOne (.ofNat n) ++ rest') (h : decodeFrom (.ofNat n :: done) none rest' = some t) :
      ∃ c rest', b :: rest = encodeOne c ++ rest' ∧ ¬ c.IsHigh ∧ ¬ c.IsLow ∧
        decodeFrom (c :: done) none rest' = some t := by
    obtain ⟨hhigh, hlow, -⟩ := encodeOne_ofNat hn hgap
    exact ⟨_, rest', hbytes, hhigh, hlow, h⟩
  rw [decodeFrom] at h
  split at h
  case isTrue hone =>
    refine found (by omega) (by omega) ?_ h
    rw [(encodeOne_ofNat (by omega) (by omega)).2.2, if_pos hone, toUInt8_eq rfl]
    rfl
  case isFalse hone =>
    rw [ofLead_eq _ hb] at h
    -- The first byte tells how many follow; the second one is bounded so that no shorter form would do, that no half
    -- is spelled, and that there are no numbers above 0x10FFFF.
    by_cases htwo : 0xC2 ≤ b.toNat ∧ b.toNat < 0xE0
    · rw [if_pos htwo] at h
      obtain ⟨b₁, rest₁, rfl, hlow₁, hhigh₁, h⟩ := exists_of_decodeFrom_last h
      refine found (by omega) (by omega) ?_ h
      rw [(encodeOne_ofNat (by omega) (by omega)).2.2, if_neg (by omega), if_pos (by omega),
        toUInt8_eq (b := b) (by omega), toUInt8_eq (b := b₁) (by omega)]
      rfl
    rw [if_neg htwo] at h
    by_cases hthree : 0xE0 ≤ b.toNat ∧ b.toNat < 0xF0
    · rw [if_pos hthree] at h
      obtain ⟨b₁, rest₁, rfl, hlow₁, hhigh₁, h⟩ := exists_of_decodeFrom_more (k := 0) h
      obtain ⟨b₂, rest₂, rfl, hlow₂, hhigh₂, h⟩ := exists_of_decodeFrom_last h
      have hbounds : 0x80 ≤ b₁.toNat ∧ b₁.toNat ≤ 0xBF ∧ (b.toNat = 0xE0 → 0xA0 ≤ b₁.toNat) ∧
          (b.toNat = 0xED → b₁.toNat ≤ 0x9F) := by
        split at hlow₁ <;> split at hhigh₁ <;> omega
      refine found (by omega) (by omega) ?_ h
      rw [(encodeOne_ofNat (by omega) (by omega)).2.2, if_neg (by omega), if_neg (by omega), if_pos (by omega),
        toUInt8_eq (b := b) (by omega), toUInt8_eq (b := b₁) (by omega), toUInt8_eq (b := b₂) (by omega)]
      rfl
    rw [if_neg hthree] at h
    by_cases hfour : 0xF0 ≤ b.toNat ∧ b.toNat < 0xF5
    · rw [if_pos hfour] at h
      obtain ⟨b₁, rest₁, rfl, hlow₁, hhigh₁, h⟩ := exists_of_decodeFrom_more (k := 1) h
      obtain ⟨b₂, rest₂, rfl, hlow₂, hhigh₂, h⟩ := exists_of_decodeFrom_more (k := 0) h
      obtain ⟨b₃, rest₃, rfl, hlow₃, hhigh₃, h⟩ := exists_of_decodeFrom_last h
      have hbounds : 0x80 ≤ b₁.toNat ∧ b₁.toNat ≤ 0xBF ∧ (b.toNat = 0xF0 → 0x90 ≤ b₁.toNat) ∧
          (b.toNat = 0xF4 → b₁.toNat ≤ 0x8F) := by
        split at hlow₁ <;> split at hhigh₁ <;> omega
      refine found (by omega) (by omega) ?_ h
      rw [(encodeOne_ofNat (by omega) (by omega)).2.2, if_neg (by omega), if_neg (by omega), if_neg (by omega),
        toUInt8_eq (b := b) (by omega), toUInt8_eq (b := b₁) (by omega), toUInt8_eq (b := b₂) (by omega),
        toUInt8_eq (b := b₃) (by omega)]
      rfl
    · rw [if_neg hfour] at h
      cases h

/-- What is read as UTF-8 is the UTF-8 of a text without halves. -/
theorem exists_of_decodeFrom (h : decodeFrom done none bytes = some t) :
    ∃ later : Text, t = done.reverse ++ later ∧ bytes = encode later ∧ later.NoHalves := by
  induction hlength : bytes.length using Nat.strongRecOn generalizing bytes done with
  | ind length ih =>
    cases bytes with
    | nil =>
      obtain rfl := Option.some.inj h
      exact ⟨[], (List.append_nil _).symm, rfl, List.forall_mem_nil _⟩
    | cons b rest =>
      obtain ⟨c, rest', hbytes, hhigh, hlow, h⟩ := exists_of_decodeFrom_none h
      have hshorter : rest'.length < length := by
        rw [← hlength, hbytes, List.length_append]
        exact Nat.lt_add_of_pos_left (List.length_pos_iff.mpr (encodeOne_ne_nil c))
      obtain ⟨later, rfl, rfl, hlater⟩ := ih _ hshorter h rfl
      refine ⟨c :: later, by simp, ?_, List.forall_mem_cons.mpr ⟨⟨hhigh, hlow⟩, hlater⟩⟩
      rw [hbytes]
      rfl

/-- Bytes are read as a text just when they are its UTF-8 and it has no halves. -/
theorem decode_eq_some_iff : decode bytes = some t ↔ bytes = encode t ∧ t.NoHalves := by
  constructor
  · intro h
    obtain ⟨later, rfl, rfl, hlater⟩ := exists_of_decodeFrom h
    exact ⟨rfl, hlater⟩
  · rintro ⟨rfl, h⟩
    exact decode_encode h

end Utf8

/-! ### Lines -/

/-- Whether a line is the UTF-8 of a text that stands for a value with at most `room` containers nested in each other.
    No byte order mark stands in front of the text. -/
def LineDerives (room : ℕ) (line : List UInt8) (j : Json) : Prop :=
  ∃ t : Text, line = Utf8.encode t ∧ t.NoHalves ∧ t.head? ≠ some 0xFEFF ∧ Json.DerivesWhole room t j

/-- Whether nothing but space, tab, newline, return, vertical tab and form feed is on a line. -/
def LineBlank (line : List UInt8) : Prop :=
  ∀ b ∈ line, b = 0x20 ∨ b = 0x09 ∨ b = 0x0A ∨ b = 0x0D ∨ b = 0x0B ∨ b = 0x0C

/-- What a line becomes, by the grammar alone. -/
inductive LineBecomes (line : List UInt8) : Option Event → Prop
  | nothing (h : LineBlank line) : LineBecomes line none
  | message {room : ℕ} {j : Json} (hblank : ¬ LineBlank line) (hroom : room ≤ Json.nestingLimit)
      (h : LineDerives room line j) : LineBecomes line (some (.message (.ofJson j)))
  | undecodable (hblank : ¬ LineBlank line) (h : ∀ room ≤ Json.nestingLimit, ∀ j, ¬ LineDerives room line j) :
      LineBecomes line (some (.protocolError (.ofString "Could not decode Node output")))

theorem lineBlank_iff {line : List UInt8} : LineBlank line ↔ line.all isBlankByte = true := by
  have byte (b : UInt8) : (b = 0x20 ∨ b = 0x09 ∨ b = 0x0A ∨ b = 0x0D ∨ b = 0x0B ∨ b = 0x0C) ↔ isBlankByte b = true := by
    simp only [isBlankByte, Bool.or_eq_true, Bool.and_eq_true, beq_iff_eq, decide_eq_true_eq, UInt8.le_iff_toNat_le,
      ← UInt8.toNat_inj, UInt8.reduceToNat]
    omega
  simp only [LineBlank, byte, List.all_eq_true]

/-- No value begins with a byte order mark, nor with one of the characters that make a line blank. -/
theorem Json.Derives.starts {room : ℕ} {c : CodePoint} {tail : Text} {j : Json} (h : Derives room (c :: tail) j) :
    c ∉ ([0xFEFF, 0x20, 0x09, 0x0A, 0x0D, 0x0B, 0x0C] : Text) := by
  obtain ⟨c', tail', he, hblank, -⟩ := h.spells.starts
  obtain ⟨rfl, rfl⟩ := List.cons.inj he
  have hread := h.spells.reads [] ends_nil
  rw [List.append_nil] at hread
  have refused (hbracket : c ≠ 0x5B) (hbrace : c ≠ 0x7B) (hnone : readScalar (c :: tail) = none) : False := by
    rw [readValue_scalar room hbracket hbrace, hnone] at hread
    cases hread
  simp only [List.mem_cons, List.not_mem_nil, or_false]
  rintro (rfl | rfl | rfl | rfl | rfl | rfl | rfl)
  · exact refused (by decide) (by decide) rfl
  · cases hblank
  · cases hblank
  · cases hblank
  · cases hblank
  · exact refused (by decide) (by decide) rfl
  · exact refused (by decide) (by decide) rfl

theorem Json.DerivesWhole.head?_ne {room : ℕ} {t : Text} {j : Json} (h : DerivesWhole room t j) :
    t.head? ≠ some 0xFEFF := by
  obtain ⟨before, core, after, hbefore, -, rfl, h⟩ := h
  intro hhead
  cases before with
  | cons c before =>
    obtain rfl := Option.some.inj hhead
    exact absurd (hbefore _ List.mem_cons_self) (by decide)
  | nil =>
    obtain ⟨c, tail, rfl, -⟩ := h.spells.starts
    obtain rfl := Option.some.inj hhead
    exact h.starts List.mem_cons_self

/-- A character of one byte is this byte, and all others have a byte above 0x7F. -/
theorem Utf8.exists_mem_encodeOne {c : CodePoint} (hhigh : ¬ c.IsHigh) (hlow : ¬ c.IsLow) :
    ∃ b ∈ encodeOne c, b.toNat = c.val ∨ 0x80 ≤ b.toNat := by
  have hc := c.isLt
  simp only [encodeOne, hhigh, hlow, or_self, if_false]
  split_ifs with hone htwo hthree
  · exact ⟨_, List.mem_cons_self, .inl (toNat_toUInt8 (by omega))⟩
  -- The first byte of a longer character has its topmost bit set.
  all_goals
    refine ⟨_, List.mem_cons_self, .inr ?_⟩
    rw [toNat_toUInt8 (by omega)]
    omega

/-- A line with a value on it is not blank. -/
theorem LineDerives.not_lineBlank {room : ℕ} {line : List UInt8} {j : Json} (h : LineDerives room line j) :
    ¬ LineBlank line := by
  obtain ⟨_, rfl, ht, -, before, core, after, -, -, rfl, h⟩ := h
  intro hblank
  obtain ⟨c, tail, rfl, -⟩ := h.spells.starts
  have hc : c ∈ before ++ c :: tail ++ after := by simp
  obtain ⟨hhigh, hlow⟩ := ht c hc
  obtain ⟨b, hb, hbyte⟩ := Utf8.exists_mem_encodeOne hhigh hlow
  have apart : c.val ∉ ([0xFEFF, 0x20, 0x09, 0x0A, 0x0D, 0x0B, 0x0C] : Text).map Fin.val := fun hm =>
    h.starts ((List.mem_map_of_injective Fin.val_injective).mp hm)
  rcases hblank b (List.mem_flatMap.mpr ⟨c, hc, hb⟩) with rfl | rfl | rfl | rfl | rfl | rfl
  all_goals
    rcases hbyte with hbyte | hbyte
    · rw [← hbyte] at apart
      exact apart (by decide)
    · exact absurd hbyte (by decide)

/-- A line is read as a value just when it derives it. -/
theorem read_line_iff {limit : ℕ} {line : List UInt8} {j : Json} :
    (Utf8.decode line).bind (Json.read? limit) = some j ↔ LineDerives limit line j := by
  simp only [Option.bind_eq_some_iff, Utf8.decode_eq_some_iff]
  constructor
  · rintro ⟨t, ⟨hline, ht⟩, hread⟩
    have hderives := (Json.read?_iff ht).mp hread
    exact ⟨t, hline, ht, hderives.head?_ne, hderives⟩
  · rintro ⟨t, hline, ht, -, hderives⟩
    exact ⟨t, ⟨hline, ht⟩, (Json.read?_iff ht).mpr hderives⟩

theorem LineDerives.mono {room room' : ℕ} {line : List UInt8} {j : Json} (hle : room ≤ room')
    (h : LineDerives room line j) : LineDerives room' line j := by
  obtain ⟨t, hline, ht, hmark, before, core, after, hbefore, hafter, he, hcore⟩ := h
  exact ⟨t, hline, ht, hmark, before, core, after, hbefore, hafter, he, hcore.mono hle⟩

/-- What a line becomes is decided by the grammar. -/
theorem lineBecomes_iff {line : List UInt8} {event : Option Event} :
    LineBecomes line event ↔ Event.ofLine? line = event := by
  have holds : LineBecomes line (Event.ofLine? line) := by
    rw [Event.ofLine?]
    split
    case isTrue h => exact .nothing (lineBlank_iff.mpr h)
    case isFalse h =>
      have hblank := mt lineBlank_iff.mp h
      split
      case h_1 j hread => exact .message hblank le_rfl (read_line_iff.mp hread)
      case h_2 hread =>
        refine .undecodable hblank fun room hroom j hderives => ?_
        rw [read_line_iff.mpr (hderives.mono hroom)] at hread
        cases hread
  constructor
  · intro h
    cases h with
    | nothing h => rw [Event.ofLine?, if_pos (lineBlank_iff.mp h)]
    | message hblank hroom h => rw [Event.ofLine?, if_neg (mt lineBlank_iff.mpr hblank), read_line_iff.mpr (h.mono hroom)]
    | undecodable hblank h =>
      rw [Event.ofLine?, if_neg (mt lineBlank_iff.mpr hblank)]
      split
      case h_1 j hread => exact absurd (read_line_iff.mp hread) (h _ le_rfl j)
      case h_2 => rfl
  · rintro rfl
    exact holds

/-- A line with a value on it is a message with this value. -/
theorem LineDerives.ofLine?_eq {room : ℕ} {line : List UInt8} {j : Json} (hroom : room ≤ Json.nestingLimit)
    (h : LineDerives room line j) : Event.ofLine? line = some (.message (.ofJson j)) :=
  lineBecomes_iff.mp (.message h.not_lineBlank hroom h)

/-- The line that a value is written as derives it. -/
theorem lineDerives_line {room : ℕ} {j : Json} (h : j.Fits room) : LineDerives room j.line (j.retold .float) := by
  obtain ⟨text, hwrite, hspells⟩ := Json.write_ofJson j h
  rw [← read_line_iff, Json.line, hwrite, (Json.isGraphic_write _ hwrite).decode_encode, Option.bind_some,
    hspells.read?]

/-- The newline behind a line puts into the queue what the line becomes by the grammar, for values nested up to 200
    deep and beyond. -/
theorem queue_take_newline_by_grammar : 200 ≤ Json.nestingLimit ∧
    (∀ line event, LineBecomes line event ↔ Event.ofLine? line = event) ∧
    ∀ r : Reader, (r.take [0x0A]).engine.queue = r.engine.queue ++ (Event.ofLine? r.unfinished).toList := by
  refine ⟨by decide, fun line event => lineBecomes_iff, fun r => ?_⟩
  simp only [Reader.take, linesOfChunk_newline, linesOfChunk_nil]
  rcases h : Event.ofLine? r.unfinished <;> simp [h]

end ScriptLink
