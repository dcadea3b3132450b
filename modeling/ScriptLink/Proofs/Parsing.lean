import ScriptLink.Proofs.JsonText

/-! # The reader and the grammar

    The reader takes exactly what the grammar derives, and gives the value of the derivation. The two directions are
    shown part by part: what a production derives is read, whatever ends it; and what a reader took is derived by a
    production. Characters that come from UTF-8 are no halves of pairs, so that halves stand only where escapes spell
    them. Main statement: `read?_iff`. -/

namespace ScriptLink.Json

open Grammar

/-! ### Escapes -/

theorem hexDigit_iff {c : CodePoint} {n : ℕ} : HexDigit c n ↔ hexValue? c = some n := by
  have decimal : ∀ n < 10, hexValue? (.ofNat (0x30 + n)) = some n := by decide
  have lower : ∀ n < 6, hexValue? (.ofNat (0x61 + n)) = some (10 + n) := by decide
  have upper : ∀ n < 6, hexValue? (.ofNat (0x41 + n)) = some (10 + n) := by decide
  have self {m : ℕ} (h : m = c.val) : CodePoint.ofNat m = c := by rw [h, CodePoint.ofNat, dif_pos c.isLt]
  constructor
  · rintro (h | h | h)
    · exact decimal _ h
    · exact lower _ h
    · exact upper _ h
  · intro h
    unfold hexValue? at h
    split_ifs at h with hdigit hlower hupper <;> obtain rfl := Option.some.inj h
    · have hrange : 0x30 ≤ c.val ∧ c.val ≤ 0x39 := by simpa [isDigit] using hdigit
      have hchar := HexDigit.decimal (n := c.val - 0x30) (by omega)
      rwa [self (by omega)] at hchar
    · have hchar := HexDigit.lower (n := c.val - 0x61) (by omega)
      rwa [self (by omega), show 10 + (c.val - 0x61) = c.val - 0x57 by omega] at hchar
    · have hchar := HexDigit.upper (n := c.val - 0x41) (by omega)
      rwa [self (by omega), show 10 + (c.val - 0x41) = c.val - 0x37 by omega] at hchar

theorem unitEscape_iff {s : Text} {n : ℕ} :
    UnitEscape s n ↔ ∃ a b c d, s = [0x5C, 0x75, a, b, c, d] ∧ hex4? a b c d = some n := by
  constructor
  · rintro ⟨ha, hb, hc, hd⟩
    refine ⟨_, _, _, _, rfl, ?_⟩
    simp only [hex4?, hexDigit_iff.mp ha, hexDigit_iff.mp hb, hexDigit_iff.mp hc, hexDigit_iff.mp hd,
      Option.bind_eq_bind, Option.bind_some, Option.pure_def, Nat.ofDigits_cons, Nat.ofDigits_nil, Option.some.injEq]
    omega
  · rintro ⟨a, b, c, d, rfl, h⟩
    simp only [hex4?, Option.bind_eq_bind, Option.bind_eq_some_iff, Option.pure_def, Option.some.injEq] at h
    obtain ⟨i, hi, j, hj, k, hk, l, hl, rfl⟩ := h
    have hescape := UnitEscape.digits (hexDigit_iff.mpr hi) (hexDigit_iff.mpr hj) (hexDigit_iff.mpr hk)
      (hexDigit_iff.mpr hl)
    have hvalue : Nat.ofDigits 16 [l, k, j, i] = ((i * 16 + j) * 16 + k) * 16 + l := by
      simp only [Nat.ofDigits_cons, Nat.ofDigits_nil]
      omega
    rwa [hvalue] at hescape

theorem shortEscape_iff {e c : CodePoint} : ShortEscape e c ↔ shortEscape? e = some c := by
  constructor
  · rintro ⟨⟩ <;> rfl
  · intro h
    unfold shortEscape? at h
    split_ifs at h with h₁ h₂ h₃ h₄ h₅ h₆ <;> obtain rfl := Option.some.inj h
    · rcases h₁ with rfl | rfl | rfl
      · exact .quote
      · exact .backslash
      · exact .slash
    · exact h₂ ▸ .backspace
    · exact h₃ ▸ .formFeed
    · exact h₄ ▸ .newline
    · exact h₅ ▸ .carriageReturn
    · exact h₆ ▸ .tab

theorem Grammar.UnitEscape.lt {s : Text} {n : ℕ} (h : UnitEscape s n) : n < 0x10000 := by
  have below {c : CodePoint} {n : ℕ} (h : HexDigit c n) : n < 16 := by
    rcases h with h | h | h <;> omega
  rcases h with ⟨ha, hb, hc, hd⟩
  have := below ha
  have := below hb
  have := below hc
  have := below hd
  simp only [Nat.ofDigits_cons, Nat.ofDigits_nil]
  omega

/-- Where an escape stands, no other one stands. -/
theorem Grammar.UnitEscape.unique {escape escape' s s' : Text} {n n' : ℕ} (h : UnitEscape escape n)
    (h' : UnitEscape escape' n') (he : escape ++ s = escape' ++ s') : escape = escape' ∧ n = n' ∧ s = s' := by
  obtain ⟨a, b, c, d, rfl, hn⟩ := unitEscape_iff.mp h
  obtain ⟨a', b', c', d', rfl, hn'⟩ := unitEscape_iff.mp h'
  obtain ⟨hescape, hs⟩ := List.append_inj he rfl
  simp only [List.cons.injEq, true_and, and_true] at hescape
  obtain ⟨rfl, rfl, rfl, rfl⟩ := hescape
  exact ⟨rfl, Option.some.inj (hn.symm.trans hn'), hs⟩

theorem spellsCharacters_unitEscape {escape : Text} {n : ℕ} (h : UnitEscape escape n) :
    SpellsCharacters escape [.ofNat n] := fun done rest => by
  obtain ⟨a, b, c, d, rfl, hn⟩ := unitEscape_iff.mp h
  have hslash : (0x5C : CodePoint) ≠ 0x22 := by decide
  simp only [List.cons_append, List.nil_append]
  rw [readString.eq_def]
  simp only [hslash, if_false, if_true, hn]
  rfl

/-! ### Strings -/

section Characters
variable {s t escape : Text} {n : ℕ}

theorem val_ofNat_of_lt (h : n < 0x110000) : (CodePoint.ofNat n).val = n := by
  rw [CodePoint.ofNat, dif_pos h]

theorem isHigh_ofNat_iff (h : n < 0x10000) : (CodePoint.ofNat n).IsHigh ↔ 0xD800 ≤ n ∧ n < 0xDC00 := by
  rw [CodePoint.IsHigh, val_ofNat_of_lt (by omega)]

theorem isLow_ofNat_iff (h : n < 0x10000) : (CodePoint.ofNat n).IsLow ↔ 0xDC00 ≤ n ∧ n < 0xE000 := by
  rw [CodePoint.IsLow, val_ofNat_of_lt (by omega)]

/-- A string begins with a second half only where the escape of one stands. -/
theorem Grammar.Characters.lowFollows (h : Characters s t) {c : CodePoint} (hc : t.head? = some c) (hlow : c.IsLow) :
    LowFollows s := by
  cases h with
  | nil => cases hc
  | raw _ _ _ hscalar =>
    obtain rfl := Option.some.inj hc
    exact absurd hlow hscalar.2
  | short he =>
    obtain rfl := Option.some.inj hc
    rcases he <;> exact absurd hlow (by decide)
  | unit he =>
    obtain rfl := Option.some.inj hc
    obtain ⟨hle, hlt⟩ := (isLow_ofNat_iff he.lt).mp hlow
    exact ⟨_, _, _, he, hle, hlt, rfl⟩
  | pair hfirst hsecond hhigh hlow' =>
    obtain rfl := Option.some.inj hc
    rw [CodePoint.IsLow, CodePoint.val_paired hhigh hlow'] at hlow
    omega

/-- An escape by itself is joined with nothing behind it. -/
theorem joinCons_of_lone (he : UnitEscape escape n) (h : Characters s t)
    (hlone : ¬ (0xD800 ≤ n ∧ n < 0xDC00 ∧ LowFollows s)) : Text.joinCons (.ofNat n) t = .ofNat n :: t := by
  cases t with
  | nil => rfl
  | cons c t =>
    refine if_neg fun ⟨hhigh, hlow⟩ => ?_
    obtain ⟨hle, hlt⟩ := (isHigh_ofNat_iff he.lt).mp hhigh
    exact hlone ⟨hle, hlt, h.lowFollows rfl hlow⟩

theorem joinCons_low {low : ℕ} (hlow : 0xDC00 ≤ low ∧ low < 0xE000) (t : Text) :
    Text.joinCons (.ofNat low) t = .ofNat low :: t :=
  Text.joinCons_of_not_high (mt (isHigh_ofNat_iff (by omega)).mp (by omega)) t

theorem joinCons_pair {high low : ℕ} (hhigh : 0xD800 ≤ high ∧ high < 0xDC00) (hlow : 0xDC00 ≤ low ∧ low < 0xE000)
    (t : Text) : Text.joinCons (.ofNat high) (.ofNat low :: t) = .paired high low :: t := by
  rw [Text.joinCons, if_pos ⟨(isHigh_ofNat_iff (by omega)).mpr hhigh, (isLow_ofNat_iff (by omega)).mpr hlow⟩,
    val_ofNat_of_lt (by omega), val_ofNat_of_lt (by omega)]

/-- The characters of a string are read as they are spelled, and joined to those that the grammar derives. -/
theorem Grammar.Characters.spells (h : Characters s t) : ∃ raw, SpellsCharacters s raw ∧ raw.join = t := by
  induction h with
  | nil => exact ⟨[], fun _ _ => rfl, rfl⟩
  | @raw c s t hquote hslash hcontrol hscalar h ih =>
    obtain ⟨raw, hspells, rfl⟩ := ih
    exact ⟨c :: raw, (spellsCharacters_self hquote hslash hcontrol).append hspells,
      Text.joinCons_of_not_high hscalar.1 _⟩
  | @short e c s t he h ih =>
    obtain ⟨raw, hspells, rfl⟩ := ih
    refine ⟨c :: raw, (spellsCharacters_escape (shortEscape_iff.mp he)).append hspells, ?_⟩
    have hhigh : ¬ c.IsHigh := by
      rcases he <;> decide
    exact Text.joinCons_of_not_high hhigh _
  | unit he hlone h ih =>
    obtain ⟨raw, hspells, rfl⟩ := ih
    exact ⟨_ :: raw, (spellsCharacters_unitEscape he).append hspells, joinCons_of_lone he h hlone⟩
  | pair hfirst hsecond hhigh hlow h ih =>
    obtain ⟨raw, hspells, rfl⟩ := ih
    exact ⟨_ :: _ :: raw, ((spellsCharacters_unitEscape hfirst).append (spellsCharacters_unitEscape hsecond)).append
      hspells, (congrArg _ (joinCons_low hlow _)).trans (joinCons_pair hhigh hlow _)⟩

/-- A string that is derived is read up to its quote. -/
theorem Grammar.Characters.read (h : Characters s t) (rest : Text) :
    readString [] (s ++ 0x22 :: rest) = some (t, rest) := by
  obtain ⟨raw, hspells, rfl⟩ := h.spells
  exact readString_of_spells hspells rest

/-- What goes on with the escape of a second half is derived from this escape on. -/
theorem Grammar.Characters.of_low {low : ℕ} (he : UnitEscape escape low) (hlow : 0xDC00 ≤ low ∧ low < 0xE000)
    (h : Characters (escape ++ s) t) : ∃ t', t = .ofNat low :: t' ∧ Characters s t' := by
  generalize hs : escape ++ s = s' at h
  cases h with
  | nil => cases he; cases hs
  | raw _ hslash =>
    cases he
    exact absurd (List.cons.inj hs).1.symm hslash
  | short he' =>
    cases he
    obtain rfl := (List.cons.inj (List.cons.inj hs).2).1
    cases he'
  | unit he' _ h =>
    obtain ⟨-, rfl, rfl⟩ := he.unique he' hs
    exact ⟨_, rfl, h⟩
  | pair hfirst _ hhigh =>
    rw [List.append_assoc] at hs
    obtain ⟨-, rfl, -⟩ := he.unique hfirst hs
    omega

/-- An escape in front of characters is derived with them, joined with the first where the two are a pair. -/
theorem Grammar.Characters.unit_joinCons (he : UnitEscape escape n) (h : Characters s t) :
    Characters (escape ++ s) (Text.joinCons (.ofNat n) t) := by
  by_cases hlone : 0xD800 ≤ n ∧ n < 0xDC00 ∧ LowFollows s
  · obtain ⟨hle, hlt, second, low, s', hsecond, hlow, hlow', rfl⟩ := hlone
    obtain ⟨t', rfl, h'⟩ := h.of_low hsecond ⟨hlow, hlow'⟩
    rw [joinCons_pair ⟨hle, hlt⟩ ⟨hlow, hlow'⟩, ← List.append_assoc]
    exact .pair he hsecond ⟨hle, hlt⟩ ⟨hlow, hlow'⟩ h'
  · rw [joinCons_of_lone he h hlone]
    exact .unit he hlone h

theorem noHalves_right {s t : Text} (h : Text.NoHalves (s ++ t)) : t.NoHalves := (List.forall_mem_append.mp h).2

/-- What was read as a string is derived, together with the characters read before it. -/
theorem exists_of_readString {done s t rest : Text} (hs : s.NoHalves) (h : readString done s = some (t, rest)) :
    ∃ body raw : Text, s = body ++ 0x22 :: rest ∧ t = Text.join (done.reverse ++ raw) ∧ Characters body raw.join := by
  fun_induction readString done s with
  | case2 done s =>
    obtain ⟨rfl, rfl⟩ := Prod.mk.inj (Option.some.inj h)
    exact ⟨[], [], rfl, by rw [List.append_nil], .nil⟩
  | case4 done a b c d s n hn _ ih =>
    have hs := noHalves_right (show Text.NoHalves ([0x5C, 0x75, a, b, c, d] ++ s) from hs)
    obtain ⟨body, raw, rfl, rfl, hbody⟩ := ih hs h
    refine ⟨[0x5C, 0x75, a, b, c, d] ++ body, .ofNat n :: raw, rfl, ?_, ?_⟩
    · rw [List.reverse_cons, List.append_assoc, List.singleton_append]
    · exact hbody.unit_joinCons (unitEscape_iff.mpr ⟨a, b, c, d, rfl, hn⟩)
  | case7 done e s _ c hc _ ih =>
    have hs := noHalves_right (show Text.NoHalves ([0x5C, e] ++ s) from hs)
    obtain ⟨body, raw, rfl, rfl, hbody⟩ := ih hs h
    have hescape := shortEscape_iff.mpr hc
    have hhigh : ¬ c.IsHigh := by
      rcases hescape <;> decide
    refine ⟨0x5C :: e :: body, c :: raw, rfl, ?_, ?_⟩
    · rw [List.reverse_cons, List.append_assoc, List.singleton_append]
    · rw [Text.join_cons, Text.joinCons_of_not_high hhigh]
      exact .short hescape hbody
  | case10 done c s hquote hslash hcontrol ih =>
    obtain ⟨hc, hs⟩ := List.forall_mem_cons.mp hs
    obtain ⟨body, raw, rfl, rfl, hbody⟩ := ih hs h
    refine ⟨c :: body, c :: raw, rfl, ?_, ?_⟩
    · rw [List.reverse_cons, List.append_assoc, List.singleton_append]
    · rw [Text.join_cons, Text.joinCons_of_not_high hc.1]
      exact .raw hquote hslash (Nat.le_of_not_lt hcontrol) hc hbody
  | _ => cases h

/-- What was read as a string is derived up to its quote. -/
theorem exists_characters_of_readString {rest : Text} (hs : s.NoHalves) (h : readString [] s = some (t, rest)) :
    ∃ body, s = body ++ 0x22 :: rest ∧ Characters body t := by
  obtain ⟨body, raw, rfl, rfl, hbody⟩ := exists_of_readString hs h
  exact ⟨body, rfl, hbody⟩

end Characters

/-! ### Numbers -/

section Numbers
variable {s rest digits : Text}

theorem exists_digits (s : Text) : s = s.takeWhile isDigit ++ s.dropWhile isDigit ∧ Text.IsDigits (s.takeWhile isDigit) :=
  ⟨List.takeWhile_append_dropWhile.symm, fun _ hc => List.all_eq_true.mp List.all_takeWhile _ hc⟩

theorem after?_eq_some_iff {word : Text} : after? word s = some rest ↔ s = word ++ rest := by
  induction word generalizing s with
  | nil => simp [after?]
  | cons w word ih =>
    cases s with
    | nil => simp [after?]
    | cons c s =>
      by_cases h : w = c
      · simp [after?, h, ih]
      · simp [after?, h, Ne.symm h]

theorem exists_of_readFraction (h : readFraction s = some (digits, rest)) :
    ∃ point, s = point ++ rest ∧ Fraction point digits := by
  unfold readFraction at h
  split at h
  case h_1 s' hpoint =>
    obtain rfl := after?_eq_some_iff.mp hpoint
    obtain ⟨hsplit, hdigits⟩ := exists_digits s'
    dsimp only at h
    split at h
    case isTrue => cases h
    case isFalse hne =>
      obtain ⟨rfl, rfl⟩ := Prod.mk.inj (Option.some.inj h)
      exact ⟨0x2E :: s'.takeWhile isDigit, congrArg (0x2E :: ·) hsplit, .point hne hdigits⟩
  case h_2 =>
    obtain ⟨rfl, rfl⟩ := Prod.mk.inj (Option.some.inj h)
    exact ⟨[], rfl, .none⟩

theorem exists_of_readExponent {exponent : Option ℤ} (h : readExponent s = some (exponent, rest)) :
    ∃ mark, s = mark ++ rest ∧ Exponent mark exponent := by
  cases s with
  | nil =>
    obtain ⟨rfl, rfl⟩ := Prod.mk.inj (Option.some.inj h)
    exact ⟨[], rfl, .none⟩
  | cons c s =>
    have behind {d : CodePoint} (hd : s.head? = some d) : s = d :: s.drop 1 := by
      rw [List.drop_one]
      exact (List.cons_head?_tail (Option.mem_def.mpr hd)).symm
    simp only [readExponent, Text.digitsValue_eq_decimal] at h
    split_ifs at h with hmark hsign hnil hminus hnil hminus <;> obtain ⟨rfl, rfl⟩ := Prod.mk.inj (Option.some.inj h)
    · obtain ⟨hsplit, hdigits⟩ := exists_digits (s.drop 1)
      refine ⟨_, ?_, .minus hmark hnil hdigits⟩
      rw [List.cons_append, List.cons_append, ← hsplit, ← behind hminus]
    · obtain ⟨hsplit, hdigits⟩ := exists_digits (s.drop 1)
      refine ⟨_, ?_, .plus hmark hnil hdigits⟩
      rw [List.cons_append, List.cons_append, ← hsplit, ← behind (hsign.resolve_left hminus)]
    · exact absurd (.inl hminus) hsign
    · obtain ⟨hsplit, hdigits⟩ := exists_digits s
      exact ⟨_, congrArg (c :: ·) hsplit, .unsigned hmark hnil hdigits⟩
    · exact ⟨[], rfl, .none⟩

theorem exists_magnitude (negative : Bool) (digits : ℕ) (exponent : ℤ) :
    ∃ magnitude, Double.ofDecimal negative digits exponent = .signed negative magnitude :=
  ⟨_, Double.ofDecimal_eq negative digits exponent⟩

/-- What was read as a number behind its sign is derived with the sign. -/
theorem exists_of_readUnsigned {negative : Bool} {j : Json} (h : readUnsigned negative s = some (j, rest)) :
    ∃ body, s = body ++ rest ∧ Number (withSign negative body) j := by
  by_cases hrefused : s.takeWhile isDigit = [] ∨ (s.takeWhile isDigit).head? = some 0x30 ∧ (s.takeWhile isDigit).length ≠ 1
  · simp only [readUnsigned, if_pos hrefused, Option.bind_eq_bind, Option.bind_none, reduceCtorEq] at h
  obtain ⟨hsplit, hdigits⟩ := exists_digits s
  have hwhole : Text.IsWhole (s.takeWhile isDigit) := by
    refine ⟨hdigits, fun hnil => hrefused (.inl hnil), ?_⟩
    by_contra hzero
    exact hrefused (.inr (by simpa using hzero))
  simp only [readUnsigned, if_neg hrefused, Option.bind_eq_bind, Option.bind_eq_some_iff, Prod.exists] at h
  generalize s.takeWhile isDigit = whole at hsplit hwhole h
  generalize s.dropWhile isDigit = behind at hsplit h
  obtain ⟨fraction, behind', hfraction, exponent, behind'', hexponent, h⟩ := h
  obtain ⟨point, rfl, hpoint⟩ := exists_of_readFraction hfraction
  obtain ⟨mark, rfl, hmark⟩ := exists_of_readExponent hexponent
  split at h
  case h_1 =>
    -- Without fraction and exponent it is an integer, if it is not too long.
    split at h
    case isTrue => cases h
    case isFalse hlength =>
      obtain ⟨rfl, rfl⟩ := Prod.mk.inj (Option.some.inj h)
      have hnumber := Number.int negative hwhole (Nat.le_of_not_lt hlength)
      rw [← Text.digitsValue_eq_decimal] at hnumber
      cases hmark
      cases hpoint with
      | none => exact ⟨whole, hsplit, hnumber⟩
      | point hne => exact absurd rfl hne
  case h_2 hsome =>
    obtain ⟨rfl, rfl⟩ := Prod.mk.inj (Option.some.inj h)
    obtain ⟨magnitude, hmagnitude⟩ :=
      exists_magnitude negative (digitsValue (whole ++ fraction)) (exponent.getD 0 - fraction.length)
    have hnearest := Double.ofDecimal_iff.mp hmagnitude
    rw [Text.digitsValue_eq_decimal] at hnearest
    refine ⟨whole ++ (point ++ mark), by simp [hsplit], ?_⟩
    rw [hmagnitude]
    refine .float (.parts hwhole hpoint hmark fun hnil => ?_) hnearest
    obtain ⟨rfl, rfl⟩ := List.append_eq_nil_iff.mp hnil
    cases hpoint
    cases hmark
    exact hsome rfl rfl

/-- A number that is derived is read with its sign, up to what ends it. -/
theorem Grammar.Number.read {j : Json} (h : Number s j) : ∃ negative body, s = withSign negative body ∧
    ∀ rest, Ends rest → readUnsigned negative (body ++ rest) = some (j, rest) := by
  cases h with
  | @int whole negative hwhole hlength =>
    refine ⟨negative, whole, rfl, fun rest hr => ?_⟩
    rw [readUnsigned_int negative hwhole hlength hr, Text.digitsValue_eq_decimal]
  | @float negative s q magnitude hspelled hnearest =>
    obtain ⟨hwhole, hfraction, hexponent, hsome⟩ := hspelled
    refine ⟨negative, _, rfl, fun rest hr => ?_⟩
    rw [← Text.digitsValue_eq_decimal] at hnearest
    rw [List.append_assoc, List.append_assoc, readUnsigned_float negative hwhole hfraction hexponent hsome hr,
      Double.ofDecimal_iff.mpr hnearest]

end Numbers

/-! ### Scalars -/

section Scalars
variable {s rest : Text} {j : Json}

/-- A scalar that is derived is read, whatever room there is. -/
theorem Grammar.Scalar.spells (room : ℕ) (h : Scalar s j) : Spells room s j := by
  cases h with
  | word h =>
    cases h with
    | null => exact spells_null room
    | true => exact spells_boolWord room true
    | false => exact spells_boolWord room false
    | nan => exact spells_of_readScalar ⟨0x4E, _, rfl, by decide⟩ fun _ _ => rfl
    | infinity => exact spells_of_readScalar ⟨0x49, _, rfl, by decide⟩ fun _ _ => rfl
    | minusInfinity => exact spells_of_readScalar ⟨0x2D, _, rfl, by decide⟩ fun _ _ => rfl
  | number h =>
    obtain ⟨negative, body, rfl, hread⟩ := h.read
    exact spells_number room hread
  | text h =>
    obtain ⟨raw, hspells, rfl⟩ := h.spells
    exact spells_text room hspells

theorem word_of_mem {word : Text × Json} (h : word ∈ words) : Word word.1 word.2 := by
  simp only [words, List.mem_cons, List.not_mem_nil, or_false] at h
  rcases h with rfl | rfl | rfl | rfl | rfl | rfl
  · exact .null
  · exact .true
  · exact .false
  · exact .nan
  · exact .infinity
  · exact .minusInfinity

/-- What was read as a scalar is derived. -/
theorem exists_of_readScalar (hs : s.NoHalves) (h : readScalar s = some (j, rest)) :
    ∃ core, s = core ++ rest ∧ Scalar core j := by
  unfold readScalar at h
  split at h
  case h_1 found hword =>
    obtain rfl := Option.some.inj h
    obtain ⟨word, hmem, hfound⟩ := List.exists_of_findSome?_eq_some hword
    obtain ⟨rest', hafter, he⟩ := Option.map_eq_some_iff.mp hfound
    obtain ⟨rfl, rfl⟩ := Prod.mk.inj he
    exact ⟨word.1, after?_eq_some_iff.mp hafter, .word (word_of_mem hmem)⟩
  case h_2 =>
    split at h
    case h_1 => cases h
    case h_2 c s =>
      split_ifs at h with hquote hminus
      · obtain ⟨⟨t, rest'⟩, hread, he⟩ := Option.map_eq_some_iff.mp h
        obtain ⟨rfl, rfl⟩ := Prod.mk.inj he
        obtain ⟨body, rfl, hbody⟩ := exists_characters_of_readString (List.forall_mem_cons.mp hs).2 hread
        subst hquote
        exact ⟨0x22 :: body ++ [0x22], by simp, .text hbody⟩
      · obtain ⟨body, rfl, hnumber⟩ := exists_of_readUnsigned h
        subst hminus
        exact ⟨0x2D :: body, rfl, .number hnumber⟩
      · obtain ⟨body, hbody, hnumber⟩ := exists_of_readUnsigned h
        exact ⟨body, hbody, .number hnumber⟩

end Scalars

/-! ### Values -/

section Values
variable {room : ℕ} {s rest : Text} {j : Json}

theorem exists_skipBlanks (s : Text) : ∃ blanks, Blanks blanks ∧ s = blanks ++ skipBlanks s :=
  ⟨s.takeWhile isBlank, fun _ hc => List.all_eq_true.mp List.all_takeWhile _ hc, List.takeWhile_append_dropWhile.symm⟩


/-- What was read as the rest of a container is derived as separated parts, up to the closing character. -/
theorem exists_of_readParts {α : Type} {part : Text → Option (α × Text)} {derives : Text → α → Prop}
    (sound : ∀ {s a rest}, Text.NoHalves s → part s = some (a, rest) → ∃ core, s = core ++ rest ∧ derives core a)
    {closing : CodePoint} {bound : ℕ} {as : List α} (hs : s.NoHalves)
    (h : readParts part closing bound s = some (as, rest)) :
    ∃ core, s = core ++ closing :: rest ∧ Separated derives core as := by
  induction bound generalizing s as with
  | zero => cases h
  | succ bound ih =>
    rw [readParts] at h
    rcases hpart : part s with _ | ⟨a, behind⟩
    · simp [hpart] at h
    obtain ⟨core, rfl, ha⟩ := sound hs hpart
    obtain ⟨blanks, hblanks, hbehind⟩ := exists_skipBlanks behind
    rcases hskip : skipBlanks behind with _ | ⟨c, behind'⟩
    · simp [hpart, hskip] at h
    simp only [hpart, hskip] at h
    rw [hskip] at hbehind
    subst hbehind
    split_ifs at h with hclosing hcomma
    · obtain ⟨rfl, rfl⟩ := Prod.mk.inj (Option.some.inj h)
      exact ⟨[] ++ core ++ blanks, by simp [hclosing], .last blanks_nil ha hblanks⟩
    · obtain ⟨⟨later, rest'⟩, hread, he⟩ := Option.map_eq_some_iff.mp h
      obtain ⟨rfl, rfl⟩ := Prod.mk.inj he
      have hs' := (List.forall_mem_cons.mp (noHalves_right (noHalves_right hs))).2
      obtain ⟨blanks', hblanks', he'⟩ := exists_skipBlanks behind'
      rw [he'] at hs'
      obtain ⟨core', hcore', hlater⟩ := ih (noHalves_right hs') hread
      rw [hcore'] at he'
      refine ⟨[] ++ core ++ blanks ++ 0x2C :: (blanks' ++ core'), ?_,
        .cons blanks_nil ha hblanks (separated_blanks_append hblanks' hlater)⟩
      simp [he', hcomma]

/-- What was read as a member is derived. -/
theorem exists_of_readMember {item : Text → Option (Json × Text)} {derives : Text → Json → Prop}
    (sound : ∀ {s j rest}, Text.NoHalves s → item s = some (j, rest) → ∃ core, s = core ++ rest ∧ derives core j)
    {member : Text × Json} (hs : s.NoHalves) (h : readMember item s = some (member, rest)) :
    ∃ core, s = core ++ rest ∧ Member derives core member := by
  simp only [readMember, Option.bind_eq_bind, Option.bind_eq_some_iff, Prod.exists, Option.pure_def] at h
  obtain ⟨s₁, hquote, name, s₂, hname, s₃, hcolon, j, s₄, hitem, he⟩ := h
  obtain ⟨rfl, rfl⟩ := Prod.mk.inj (Option.some.inj he)
  obtain rfl := after?_eq_some_iff.mp hquote
  obtain ⟨characters, rfl, hcharacters⟩ := exists_characters_of_readString (noHalves_right hs) hname
  obtain ⟨before, hbefore, he₂⟩ := exists_skipBlanks s₂
  rw [after?_eq_some_iff.mp hcolon] at he₂
  obtain ⟨after, hafter, he₃⟩ := exists_skipBlanks s₃
  subst he₂
  have hs₃ : (skipBlanks s₃).NoHalves := by
    have hs₃ : s₃.NoHalves := fun c hc => hs c (by simp [hc])
    rw [he₃] at hs₃
    exact noHalves_right hs₃
  obtain ⟨core, hcore, hj⟩ := sound hs₃ hitem
  rw [hcore] at he₃
  refine ⟨0x22 :: characters ++ [0x22] ++ before ++ 0x3A :: after ++ core, ?_, .named hcharacters hbefore hafter hj⟩
  simp [he₃]

/-! ### Members with repeated names -/

theorem merged_ofList (entries : List (Text × Json)) : Merged entries (Members.ofList entries) := by
  induction entries using List.reverseRecOn with
  | nil => exact ⟨rfl, by simp [Members.ofList]⟩
  | append_singleton entries entry ih =>
    have hnodup := Members.nodup_ofList (entries ++ [entry])
    rw [Members.names_ofList_append] at hnodup ⊢
    constructor
    · have hinsert := Members.names_insert (Members.ofList entries) entry.1 entry.2
      simp only [Members.names, ih.names, List.mem_eraseDups] at hinsert
      rw [hinsert, List.map_append, List.map_singleton, List.eraseDups_append]
      split
      case isTrue hknown => simp [List.removeAll, hknown]
      case isFalse hnew => simp [List.removeAll, hnew, List.eraseDups_cons]
    · intro member hm
      rw [List.reverse_append, List.reverse_singleton, List.singleton_append]
      by_cases hname : entry.1 = member.1
      · have hfound := Members.find?_of_mem hnodup hm
        rw [← hname, Members.find?_insert_self] at hfound
        rw [List.find?_cons_of_pos (by simpa using hname)]
        exact congrArg some (Prod.ext hname (Option.some.inj hfound))
      · rw [List.find?_cons_of_neg (by simpa using hname)]
        refine ih.last member ((Members.mem_insert hm).resolve_left fun he => hname ?_)
        rw [he]

/-- What members come to is determined. -/
theorem merged_iff {entries members : List (Text × Json)} : Merged entries members ↔ members = Members.ofList entries := by
  constructor
  · intro h
    have h' := merged_ofList entries
    have values {members : List (Text × Json)} (h : Merged entries members) : members.map some =
        (entries.map Prod.fst).eraseDups.map fun name => entries.reverse.find? fun entry => entry.1 = name := by
      rw [← h.names, List.map_map]
      exact List.map_congr_left fun member hm => (h.last member hm).symm
    exact List.map_injective_iff.mpr (Option.some_injective _) ((values h).trans (values h').symm)
  · rintro rfl
    exact merged_ofList entries

/-! ### Whole values -/

theorem Grammar.Separated.mono {α : Type} {part part' : Text → α → Prop} {as : List α}
    (hpart : ∀ {s a}, part s a → part' s a) (h : Separated part s as) : Separated part' s as := by
  induction h with
  | last hbefore h hafter => exact .last hbefore (hpart h) hafter
  | cons hbefore h hafter _ ih => exact .cons hbefore (hpart h) hafter ih

theorem Derives.mono_succ (h : Derives room s j) : Derives (room + 1) s j := by
  induction room generalizing s j with
  | zero => exact .scalar h
  | succ room ih =>
    cases h with
    | scalar h => exact .scalar h
    | emptyArray h => exact .emptyArray h
    | array h => exact .array (h.mono ih)
    | emptyObject h => exact .emptyObject h
    | object h hmerged =>
      refine .object (h.mono ?_) hmerged
      rintro _ _ ⟨hname, hbefore, hafter, h⟩
      exact .named hname hbefore hafter (ih h)

/-- More room derives no fewer texts. -/
theorem Derives.mono {room' : ℕ} (hle : room ≤ room') (h : Derives room s j) : Derives room' s j := by
  induction hle with
  | refl => exact h
  | step _ ih => exact ih.mono_succ

/-- What is derived with so much room is read with it, whatever ends it. -/
theorem Derives.spells (h : Derives room s j) : Spells room s j := by
  induction room generalizing s j with
  | zero => exact Scalar.spells 0 h
  | succ room ih =>
    cases h with
    | scalar h => exact h.spells (room + 1)
    | emptyArray h => exact spells_emptyArray h
    | array h => exact spells_array (h.mono ih)
    | emptyObject h => exact spells_emptyObject h
    | object h hmerged =>
      rw [merged_iff.mp hmerged]
      refine spells_object (h.mono ?_)
      rintro _ _ ⟨hname, hbefore, hafter, h⟩
      exact spellsMember hname.read hbefore hafter (ih h)

/-- What was read with so much room is derived with it. -/
theorem exists_of_readValue (hs : s.NoHalves) (h : readValue room s = some (j, rest)) :
    ∃ core, s = core ++ rest ∧ Derives room core j := by
  induction room generalizing s j rest with
  | zero =>
    cases s with
    | nil => cases h
    | cons c behind =>
      rw [readValue] at h
      split at h
      case isTrue => cases h
      case isFalse => exact exists_of_readScalar hs h
  | succ room ih =>
    cases s with
    | nil => cases h
    | cons c behind =>
      -- The reader has skipped the blanks behind the bracket before it looks whether anything is inside.
      obtain ⟨blanks, hblanks, he⟩ := exists_skipBlanks behind
      have hskip : (skipBlanks behind).NoHalves := by
        have hbehind := (List.forall_mem_cons.mp hs).2
        rw [he] at hbehind
        exact noHalves_right hbehind
      rw [readValue] at h
      split_ifs at h with hbracket hbrace
      · subst hbracket
        split at h
        case h_1 rest' hempty =>
          obtain ⟨rfl, rfl⟩ := Prod.mk.inj (Option.some.inj h)
          rw [after?_eq_some_iff.mp hempty] at he
          exact ⟨0x5B :: blanks ++ [0x5D], by simp [he], .emptyArray hblanks⟩
        case h_2 =>
          rw [readItems_eq, Option.map_map, Option.map_eq_some_iff] at h
          obtain ⟨⟨items, rest'⟩, hread, hresult⟩ := h
          obtain ⟨rfl, rfl⟩ := Prod.mk.inj hresult
          obtain ⟨core, hcore, hitems⟩ := exists_of_readParts ih hskip hread
          rw [hcore] at he
          exact ⟨0x5B :: (blanks ++ core) ++ [0x5D], by simp [he], .array (separated_blanks_append hblanks hitems)⟩
      · subst hbrace
        split at h
        case h_1 rest' hempty =>
          obtain ⟨rfl, rfl⟩ := Prod.mk.inj (Option.some.inj h)
          rw [after?_eq_some_iff.mp hempty] at he
          exact ⟨0x7B :: blanks ++ [0x7D], by simp [he], .emptyObject hblanks⟩
        case h_2 =>
          rw [readMembers_eq, Option.map_map, Option.map_eq_some_iff] at h
          obtain ⟨⟨entries, rest'⟩, hread, hresult⟩ := h
          obtain ⟨rfl, rfl⟩ := Prod.mk.inj hresult
          obtain ⟨core, hcore, hentries⟩ := exists_of_readParts (exists_of_readMember ih) hskip hread
          rw [hcore] at he
          exact ⟨0x7B :: (blanks ++ core) ++ [0x7D], by simp [he],
            .object (separated_blanks_append hblanks hentries) (merged_ofList entries)⟩
      · obtain ⟨core, hcore, hscalar⟩ := exists_of_readScalar hs h
        exact ⟨core, hcore, .scalar hscalar⟩

/-- A whole text without halves is read just as it is derived. -/
theorem read?_iff {limit : ℕ} (hs : s.NoHalves) : read? limit s = some j ↔ DerivesWhole limit s j := by
  constructor
  · intro h
    obtain ⟨before, hbefore, hbehind⟩ := exists_skipBlanks s
    rw [read?] at h
    split at h
    case h_1 value rest hread =>
      split at h
      case isTrue hrest =>
        obtain rfl := Option.some.inj h
        rw [hbehind] at hs
        obtain ⟨core, hcore, hvalue⟩ := exists_of_readValue (noHalves_right hs) hread
        obtain ⟨after, hafter, he⟩ := exists_skipBlanks rest
        rw [hrest, List.append_nil] at he
        refine ⟨before, core, after, hbefore, hafter, hbehind.trans ?_, hvalue⟩
        rw [hcore, he, List.append_assoc]
      case isFalse => cases h
    case h_2 => cases h
  · rintro ⟨before, core, after, hbefore, hafter, rfl, h⟩
    have hspells := h.spells
    have hskip : skipBlanks after = [] := by
      rw [← List.append_nil after, skipBlanks_blanks hafter]
      rfl
    rw [read?, List.append_assoc, skipBlanks_blanks hbefore, hspells.skipBlanks,
      hspells.reads after (List.append_nil after ▸ ends_nil.blanks_append hafter)]
    simp [hskip]

end Values

end ScriptLink.Json
