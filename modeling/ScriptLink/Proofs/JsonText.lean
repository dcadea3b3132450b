import ScriptLink.Json.Compact
import ScriptLink.Json.Writer
import ScriptLink.Proofs.Joining
import ScriptLink.Proofs.Members
import ScriptLink.Proofs.Numeral

/-! # JSON read back from text

    Both writers are read back by the one reader: the short form of the script's side, and the form in ASCII of the
    caller's side. What comes back differs from what was written in three ways: the separate halves in texts are
    joined, members whose names become equal by that are merged, and whole numbers of the script's side become
    integers. `Spells` says that a text is read as a value, whatever stands behind it; it is shown for every kind of
    value by itself, and then for whole values by induction on them. -/

namespace ScriptLink.Json

-- Powers of natural numbers are those of the language, also where others are in scope.
attribute [local instance (10000)] instPowNat

/-! ### Strings -/

/-- Whether a text inside a string is read as these characters, whatever was read before it and stands behind it. -/
def SpellsCharacters (text t : Text) : Prop :=
  ∀ done rest, readString done (text ++ rest) = readString (t.reverse ++ done) rest

theorem spellsCharacters_self {c : CodePoint} (hquote : c ≠ 0x22) (hslash : c ≠ 0x5C) (hspace : 0x20 ≤ c.val) :
    SpellsCharacters [c] [c] := fun done rest => by
  have hspace : ¬ c.val < 0x20 := Nat.not_lt.mpr hspace
  rw [List.singleton_append, readString.eq_def]
  simp only [hquote, hslash, hspace, if_false]
  rfl

theorem spellsCharacters_escape {e c : CodePoint} (h : shortEscape? e = some c) : SpellsCharacters [0x5C, e] [c] :=
  fun done rest => by
  have hu : e ≠ 0x75 := by
    rintro rfl
    cases h
  have hslash : (0x5C : CodePoint) ≠ 0x22 := by decide
  rw [List.cons_append, List.singleton_append, readString.eq_def]
  simp only [hslash, hu, h, if_false, if_true]
  rfl

theorem hexValue?_hexDigit {n : Nat} (h : n < 16) : hexValue? (Text.hexDigit n) = some n := by
  revert h
  revert n
  decide

theorem spellsCharacters_unit {n : Nat} (h : n < 0x10000) : SpellsCharacters (unitEscape n) [.ofNat n] :=
  fun done rest => by
  have hslash : (0x5C : CodePoint) ≠ 0x22 := by decide
  have hdigits : Text.hex 4 n = [Text.hexDigit (n / 16 / 16 / 16 % 16), Text.hexDigit (n / 16 / 16 % 16),
      Text.hexDigit (n / 16 % 16), Text.hexDigit (n % 16)] := rfl
  have hvalue : hex4? (Text.hexDigit (n / 16 / 16 / 16 % 16)) (Text.hexDigit (n / 16 / 16 % 16))
      (Text.hexDigit (n / 16 % 16)) (Text.hexDigit (n % 16)) = some n := by
    simp only [hex4?, hexValue?_hexDigit (Nat.mod_lt _ (show 16 > 0 by decide)), Option.bind_eq_bind, Option.bind_some,
      Option.pure_def, Option.some.injEq]
    omega
  simp only [unitEscape, hdigits, List.cons_append, List.nil_append]
  rw [readString.eq_def]
  simp only [hslash, if_false, if_true, hvalue]
  rfl

theorem SpellsCharacters.append {text text' t t' : Text} (h : SpellsCharacters text t)
    (h' : SpellsCharacters text' t') : SpellsCharacters (text ++ text') (t ++ t') := fun done rest => by
  rw [List.append_assoc, h, h', List.reverse_append, List.append_assoc]

theorem SpellsCharacters.flatMap {escape spelled : CodePoint → Text} (h : ∀ c, SpellsCharacters (escape c) (spelled c))
    (t : Text) : SpellsCharacters (t.flatMap escape) (t.flatMap spelled) := by
  induction t with
  | nil => exact fun _ _ => rfl
  | cons c t ih =>
    rw [List.flatMap_cons, List.flatMap_cons]
    exact (h c).append ih

/-- A string is read up to its quote. -/
theorem readString_of_spells {text t : Text} (h : SpellsCharacters text t) (rest : Text) :
    readString [] (text ++ 0x22 :: rest) = some (t.join, rest) := by
  rw [h, List.append_nil, readString.eq_def]
  simp only [if_true, List.reverse_reverse]

/-- The characters with an escape of two characters are read back, whatever is done with the others. -/
theorem spellsCharacters_short {c : CodePoint} {other spelled : Text} (hspelled : c.val < 0x10000 → spelled = [c])
    (h : c ≠ 0x22 → c ≠ 0x5C → SpellsCharacters other spelled) :
    SpellsCharacters (if c = 0x22 ∨ c = 0x5C then [0x5C, c] else if c = 0x08 then [0x5C, 0x62]
      else if c = 0x0C then [0x5C, 0x66] else if c = 0x0A then [0x5C, 0x6E] else if c = 0x0D then [0x5C, 0x72]
      else if c = 0x09 then [0x5C, 0x74] else other) spelled := by
  split_ifs with h₁ h₂ h₃ h₄ h₅ h₆
  · rcases h₁ with rfl | rfl <;> exact hspelled (by decide) ▸ spellsCharacters_escape rfl
  · subst h₂; exact hspelled (by decide) ▸ spellsCharacters_escape rfl
  · subst h₃; exact hspelled (by decide) ▸ spellsCharacters_escape rfl
  · subst h₄; exact hspelled (by decide) ▸ spellsCharacters_escape rfl
  · subst h₅; exact hspelled (by decide) ▸ spellsCharacters_escape rfl
  · subst h₆; exact hspelled (by decide) ▸ spellsCharacters_escape rfl
  · exact h (fun hc => h₁ (.inl hc)) fun hc => h₁ (.inr hc)

theorem spellsCharacters_compactChar (c : CodePoint) : SpellsCharacters (compactChar c) [c] := by
  refine spellsCharacters_short (fun _ => rfl) fun hquote hslash => ?_
  split_ifs with hescaped
  · have hc : c.val < 0x10000 := by
      rcases hescaped with h | h | h
      · omega
      · exact Nat.lt_trans h.2 (by decide)
      · exact Nat.lt_trans h.2 (by decide)
    have hread := spellsCharacters_unit hc
    rw [CodePoint.ofNat, dif_pos c.isLt] at hread
    exact hread
  · exact spellsCharacters_self hquote hslash (Nat.le_of_not_lt fun h => hescaped (.inl h))

/-- In the caller's form a character above 0xFFFF is spelled as its two halves. -/
theorem spellsCharacters_escapeChar (c : CodePoint) :
    SpellsCharacters (escapeChar c) (c.toUnits.map CodePoint.ofUnit) := by
  have units : ∀ us : Units, SpellsCharacters (us.flatMap fun unit => unitEscape unit.val) (us.map CodePoint.ofUnit) := by
    intro us
    induction us with
    | nil => exact fun _ _ => rfl
    | cons u us ih =>
      have hself : CodePoint.ofNat u.val = .ofUnit u := by
        rw [CodePoint.ofNat, dif_pos (show u.val < 0x110000 by omega)]
        rfl
      rw [List.flatMap_cons, List.map_cons, ← List.singleton_append]
      exact (hself ▸ spellsCharacters_unit u.isLt).append ih
  have plain (h : c.val < 0x10000) : c.toUnits.map CodePoint.ofUnit = [c] := by
    rw [CodePoint.toUnits, if_pos h, List.map_singleton, CodePoint.ofUnit_unit h]
  refine spellsCharacters_short plain fun hquote hslash => ?_
  split_ifs with hprintable
  · rw [plain (by omega)]
    exact spellsCharacters_self hquote hslash hprintable.1
  · exact units c.toUnits

/-! ### Values -/

/-- Whether a text is read as a value with room for so many containers, whatever ends the value behind it. -/
structure Spells (room : Nat) (text : Text) (j : Json) : Prop where
  /-- The text begins with something that is neither blank nor the end of an array. -/
  starts : ∃ c rest, text = c :: rest ∧ isBlank c = false ∧ c ≠ 0x5D
  reads : ∀ rest, Ends rest → readValue room (text ++ rest) = some (j, rest)

/-- A text that begins like a scalar is read as one. -/
theorem readValue_scalar (room : Nat) {c : CodePoint} {s : Text} (hbracket : c ≠ 0x5B) (hbrace : c ≠ 0x7B) :
    readValue room (c :: s) = readScalar (c :: s) := by
  cases room with
  | zero => rw [readValue, if_neg (by simp [hbracket, hbrace])]
  | succ room => rw [readValue, if_neg hbracket, if_neg hbrace]

theorem spells_of_readScalar {room : Nat} {text : Text} {j : Json}
    (hs : ∃ c rest, text = c :: rest ∧ isBlank c = false ∧ c ≠ 0x5D ∧ c ≠ 0x5B ∧ c ≠ 0x7B)
    (hr : ∀ rest, Ends rest → readScalar (text ++ rest) = some (j, rest)) : Spells room text j := by
  obtain ⟨c, tail, rfl, hblank, hend, hbracket, hbrace⟩ := hs
  refine ⟨⟨c, tail, rfl, hblank, hend⟩, fun rest hrest => ?_⟩
  rw [List.cons_append, readValue_scalar room hbracket hbrace]
  exact hr rest hrest

theorem spells_null (room : Nat) : Spells room nullWord .null :=
  spells_of_readScalar ⟨0x6E, _, rfl, by decide⟩ fun _ _ => rfl

theorem spells_boolWord (room : Nat) (b : Bool) : Spells room (boolWord b) (.bool b) := by
  cases b
  · exact spells_of_readScalar ⟨0x66, _, rfl, by decide⟩ fun _ _ => rfl
  · exact spells_of_readScalar ⟨0x74, _, rfl, by decide⟩ fun _ _ => rfl

/-- A string between its quotes. -/
theorem spells_text (room : Nat) {text t : Text} (h : SpellsCharacters text t) :
    Spells room (0x22 :: text ++ [0x22]) (.text t.join) := by
  refine spells_of_readScalar ⟨0x22, _, rfl, by decide⟩ fun rest _ => ?_
  have hread := readString_of_spells h rest
  have hwords : (words.findSome? fun word => (after? word.1 (0x22 :: (text ++ 0x22 :: rest))).map
      fun rest => (word.2, rest)) = none := rfl
  simp only [List.cons_append, List.append_assoc, List.nil_append, readScalar, hwords, if_true, hread, Option.map_some]

/-- A number is read with its sign. -/
theorem spells_number (room : Nat) {negative : Bool} {body : Text} {j : Json}
    (h : ∀ rest, Ends rest → readUnsigned negative (body ++ rest) = some (j, rest)) :
    Spells room (if negative then 0x2D :: body else body) j := by
  have apart {c d : CodePoint} (hc : isDigit c = true) (hd : isDigit d = false) : c ≠ d := by
    rintro rfl
    exact absurd (hd.symm.trans hc) (by decide)
  obtain ⟨c, tail, hbody, hc⟩ := readUnsigned_starts (h [] ends_nil)
  rw [List.append_nil] at hbody
  refine spells_of_readScalar ?_ fun rest hr => ?_
  · cases negative with
    | true => exact ⟨0x2D, body, rfl, by decide⟩
    | false =>
      refine ⟨c, tail, hbody, ?_, apart hc rfl, apart hc rfl, apart hc rfl⟩
      simp [isBlank, apart hc (d := 0x20) rfl, apart hc (d := 0x09) rfl, apart hc (d := 0x0A) rfl,
        apart hc (d := 0x0D) rfl]
  · have hread := readScalar_number (h rest hr)
    cases negative <;> exact hread

theorem spells_ofInt (room : Nat) {n : Int} (hn : n.natAbs < 10 ^ intDigitLimit) : Spells room (.ofInt n) (.int n) := by
  have hread (negative : Bool) (k : Nat) (hk : k < 10 ^ intDigitLimit) (rest : Text) (hr : Ends rest) :
      readUnsigned negative (Text.ofNat k ++ rest) = some (.int (if negative then -k else k), rest) := by
    rw [readUnsigned_int negative (Text.isWhole_ofNat k) (Text.length_ofNat_le (by decide) hk) hr,
      Text.digitsValue_ofNat]
  cases n with
  | ofNat k => exact spells_number room (hread false k hn)
  | negSucc k => exact spells_number room (hread true (k + 1) hn)

theorem spells_write (room : Nat) {layout : Layout} {d : Double} (hlong : layout.highest < 4300)
    (hd : d.isFinite = true) : Spells room (layout.write d) (layout.rereads d) := by
  obtain ⟨negative, body, hwrite, hread⟩ := Layout.readUnsigned_write hlong hd
  rw [hwrite]
  exact spells_number room hread

/-! ### Containers -/

open Grammar (Blanks Separated)

variable {room : Nat} {blanks text : Text}

theorem skipBlanks_blanks {s : Text} (h : Blanks blanks) : skipBlanks (blanks ++ s) = skipBlanks s :=
  List.dropWhile_append_of_pos h

theorem skipBlanks_cons {c : CodePoint} (h : isBlank c = false) (s : Text) : skipBlanks (c :: s) = c :: s := by
  simp [skipBlanks, h]

/-- Blanks may stand behind a value before what ends it. -/
theorem Ends.blanks_append {rest : Text} (h : Ends rest) (hb : Blanks blanks) : Ends (blanks ++ rest) := by
  cases blanks with
  | nil => exact h
  | cons c blanks =>
    intro d hd
    obtain rfl := Option.some.inj hd
    exact .inr (.inr (.inr (hb c List.mem_cons_self)))

theorem Spells.skipBlanks {j : Json} (h : Spells room text j) (s : Text) : skipBlanks (text ++ s) = text ++ s := by
  obtain ⟨c, rest, rfl, hblank, -⟩ := h.starts
  exact skipBlanks_cons hblank _

/-- Blanks in front of separated parts belong to the first. -/
theorem separated_blanks_append {α : Type} {part : Text → α → Prop} {as : List α} (hb : Blanks blanks)
    (h : Separated part text as) : Separated part (blanks ++ text) as := by
  cases h with
  | last hbefore h hafter =>
    rw [← List.append_assoc, ← List.append_assoc]
    exact .last (List.forall_mem_append.mpr ⟨hb, hbefore⟩) h hafter
  | cons hbefore h hafter hrest =>
    rw [← List.append_assoc, ← List.append_assoc, ← List.append_assoc]
    exact .cons (List.forall_mem_append.mpr ⟨hb, hbefore⟩) h hafter hrest

/-- There is a comma for each part but one. -/
theorem length_le_of_separated {α : Type} {part : Text → α → Prop} {as : List α} (h : Separated part text as) :
    as.length ≤ text.length + 1 := by
  induction h with
  | last => exact Nat.succ_le_succ (Nat.zero_le _)
  | cons _ _ _ _ ih =>
    simp only [List.length_append, List.length_cons]
    omega

/-- What separated parts begin with, when each part begins so. -/
theorem exists_skipBlanks_of_separated {α : Type} {part : Text → α → Prop} {as : List α} {P : CodePoint → Prop}
    (starts : ∀ s a, part s a → ∃ c tail, s = c :: tail ∧ isBlank c = false ∧ P c) (h : Separated part text as)
    (rest : Text) : ∃ c tail, skipBlanks (text ++ rest) = c :: tail ∧ P c := by
  have front {before s : Text} {a : α} (hb : Blanks before) (h : part s a) (behind : Text) :
      ∃ c tail, skipBlanks (before ++ (s ++ behind)) = c :: tail ∧ P c := by
    obtain ⟨c, tail, rfl, hblank, hc⟩ := starts s a h
    rw [skipBlanks_blanks hb, List.cons_append, skipBlanks_cons hblank]
    exact ⟨c, _, rfl, hc⟩
  cases h with
  | last hbefore h hafter =>
    rw [List.append_assoc, List.append_assoc]
    exact front hbefore h _
  | cons hbefore h hafter hrest =>
    simp only [List.append_assoc]
    exact front hbefore h _

/-- The rest of a container that has a part to come, by the reader of its parts and its closing character. -/
def readParts {α : Type} (part : Text → Option (α × Text)) (closing : CodePoint) : ℕ → Text → Option (List α × Text)
  | 0, _ => none
  | bound + 1, s =>
    match part s with
    | none => none
    | some (a, s) =>
      match Json.skipBlanks s with
      | [] => none
      | c :: s =>
        if c = closing then some ([a], s)
        else if c = 0x2C then (readParts part closing bound (Json.skipBlanks s)).map fun found => (a :: found.1, found.2)
        else none

theorem readItems_eq (item : Text → Option (Json × Text)) (bound : ℕ) (done : List Json) (s : Text) :
    readItems item bound done s = (readParts item 0x5D bound s).map fun found => (done.reverse ++ found.1, found.2) := by
  induction bound generalizing done s with
  | zero => rfl
  | succ bound ih =>
    rw [readItems, readParts]
    rcases item s with _ | ⟨value, behind⟩
    · rfl
    rcases hskip : Json.skipBlanks behind with _ | ⟨c, behind'⟩
    · simp only [hskip, Option.map_none]
    · simp only [hskip]
      split_ifs
      · rw [Option.map_some, List.reverse_cons]
      · rw [ih, Option.map_map, List.reverse_cons]
        simp only [Function.comp_def, List.append_assoc, List.singleton_append]
      · rfl

theorem readMembers_eq (item : Text → Option (Json × Text)) (bound : ℕ) (done : Members Json) (s : Text) :
    readMembers item bound done s = (readParts (readMember item) 0x7D bound s).map fun found =>
      (found.1.foldl (fun done member => done.insert member.1 member.2) done, found.2) := by
  induction bound generalizing done s with
  | zero => rfl
  | succ bound ih =>
    rw [readMembers, readParts]
    rcases readMember item s with _ | ⟨⟨name, value⟩, behind⟩
    · rfl
    rcases hskip : Json.skipBlanks behind with _ | ⟨c, behind'⟩
    · simp only [hskip, Option.map_none]
    · simp only [hskip]
      split_ifs
      · rfl
      · rw [ih, Option.map_map]
        rfl
      · rfl

/-- Separated parts are read one by one. -/
theorem readParts_of_separated {α : Type} {part : Text → Option (α × Text)} {spells : Text → α → Prop}
    (skips : ∀ {s a}, spells s a → ∀ rest, Json.skipBlanks (s ++ rest) = s ++ rest)
    (reads : ∀ {s a}, spells s a → ∀ rest, Ends rest → part (s ++ rest) = some (a, rest)) {closing : CodePoint}
    (hclosing : closing = 0x5D ∨ closing = 0x7D) {as : List α} (h : Separated spells text as) {bound : ℕ}
    (hbound : as.length ≤ bound) (rest : Text) :
    readParts part closing bound (Json.skipBlanks (text ++ closing :: rest)) = some (as, rest) := by
  induction h generalizing bound with
  | @last before s after a hbefore h hafter =>
    obtain ⟨bound, rfl⟩ : ∃ n, bound = n + 1 := Nat.exists_eq_add_one.mpr hbound
    have hends : Ends (closing :: rest) := fun c hc => by
      rw [← Option.some.inj hc]
      exact .inr (hclosing.elim .inl fun h => .inr (.inl h))
    have hblank : isBlank closing = false := by
      rcases hclosing with rfl | rfl <;> rfl
    rw [List.append_assoc, List.append_assoc, skipBlanks_blanks hbefore, skips h, readParts,
      reads h _ (hends.blanks_append hafter)]
    simp only [skipBlanks_blanks hafter, skipBlanks_cons hblank, if_true]
  | @cons before s after later a as hbefore h hafter hrest ih =>
    obtain ⟨bound, rfl⟩ : ∃ n, bound = n + 1 := Nat.exists_eq_add_one.mpr (Nat.lt_of_lt_of_le (Nat.succ_pos _) hbound)
    have hends : Ends (0x2C :: (later ++ closing :: rest)) := fun c hc => .inl (Option.some.inj hc).symm
    have hcomma : (0x2C : CodePoint) ≠ closing := by
      rcases hclosing with rfl | rfl <;> decide
    rw [List.append_assoc, List.append_assoc, List.append_assoc, List.cons_append, skipBlanks_blanks hbefore,
      skips h, readParts, reads h _ (hends.blanks_append hafter)]
    simp only [skipBlanks_blanks hafter, skipBlanks_cons (show isBlank 0x2C = false by decide), hcomma, if_false, if_true]
    rw [ih (Nat.le_of_succ_le_succ hbound), Option.map_some]

theorem spells_array {items : List Json} (h : Separated (Spells room) text items) :
    Spells (room + 1) (0x5B :: text ++ [0x5D]) (.array items) := by
  refine ⟨⟨0x5B, _, rfl, by decide⟩, fun rest _ => ?_⟩
  obtain ⟨c, tail, hstart, hend⟩ := exists_skipBlanks_of_separated (fun _ _ h => h.starts) h (0x5D :: rest)
  have hbound : items.length ≤ (text ++ 0x5D :: rest).length := by
    have := length_le_of_separated h
    rw [List.length_append, List.length_cons]
    omega
  have hread := readParts_of_separated Spells.skipBlanks Spells.reads (.inl rfl) h hbound rest
  have hafter : after? [0x5D] (c :: tail) = none := by simp [after?, hend.symm]
  rw [List.append_assoc, List.singleton_append, List.cons_append, readValue, if_pos rfl]
  rw [hstart] at hread ⊢
  simp only [hafter, readItems_eq, hread]
  rfl

theorem spells_emptyArray (h : Blanks blanks) : Spells (room + 1) (0x5B :: blanks ++ [0x5D]) (.array []) := by
  refine ⟨⟨0x5B, _, rfl, by decide⟩, fun rest _ => ?_⟩
  rw [List.append_assoc, List.singleton_append, List.cons_append, readValue, if_pos rfl, skipBlanks_blanks h]
  rfl

/-- Whether a text is read as a member with room for so many containers in its value. -/
structure SpellsMember (room : Nat) (text : Text) (member : Text × Json) : Prop where
  starts : ∃ rest, text = 0x22 :: rest
  reads : ∀ rest, Ends rest → readMember (readValue room) (text ++ rest) = some (member, rest)

/-- A name between its quotes, a colon with blanks around it, and a value. -/
theorem spellsMember {characters name before after : Text} {j : Json}
    (hname : ∀ rest, readString [] (characters ++ 0x22 :: rest) = some (name, rest)) (hbefore : Blanks before)
    (hafter : Blanks after) (hj : Spells room text j) :
    SpellsMember room (0x22 :: characters ++ [0x22] ++ before ++ 0x3A :: after ++ text) (name, j) := by
  refine ⟨⟨_, rfl⟩, fun rest hr => ?_⟩
  have hread := hname (before ++ 0x3A :: (after ++ (text ++ rest)))
  simp only [readMember, List.cons_append, List.append_assoc, List.nil_append, after?, if_true, Option.bind_eq_bind,
    Option.bind_some, hread, skipBlanks_blanks hbefore, skipBlanks_cons (show isBlank 0x3A = false by decide),
    skipBlanks_blanks hafter, hj.skipBlanks, hj.reads rest hr, Option.pure_def]

theorem SpellsMember.skipBlanks {member : Text × Json} (h : SpellsMember room text member) (s : Text) :
    skipBlanks (text ++ s) = text ++ s := by
  obtain ⟨rest, rfl⟩ := h.starts
  exact skipBlanks_cons (by decide) _

theorem spells_object {members : List (Text × Json)} (h : Separated (SpellsMember room) text members) :
    Spells (room + 1) (0x7B :: text ++ [0x7D]) (.object (Members.ofList members)) := by
  refine ⟨⟨0x7B, _, rfl, by decide⟩, fun rest _ => ?_⟩
  have starts (s : Text) (member : Text × Json) (h : SpellsMember room s member) :
      ∃ c tail, s = c :: tail ∧ isBlank c = false ∧ c = 0x22 := by
    obtain ⟨tail, rfl⟩ := h.starts
    exact ⟨_, _, rfl, by decide, rfl⟩
  obtain ⟨_, tail, hstart, rfl⟩ := exists_skipBlanks_of_separated starts h (0x7D :: rest)
  have hbound : members.length ≤ (text ++ 0x7D :: rest).length := by
    have := length_le_of_separated h
    rw [List.length_append, List.length_cons]
    omega
  have hread := readParts_of_separated SpellsMember.skipBlanks SpellsMember.reads (.inr rfl) h hbound rest
  have hbrace : (0x7B : CodePoint) ≠ 0x5B := by decide
  have hafter : after? [0x7D] (0x22 :: tail) = none := rfl
  rw [List.append_assoc, List.singleton_append, List.cons_append, readValue, if_neg hbrace, if_pos rfl]
  rw [hstart] at hread ⊢
  simp only [hafter, readMembers_eq, hread]
  rfl

theorem spells_emptyObject (h : Blanks blanks) : Spells (room + 1) (0x7B :: blanks ++ [0x7D]) (.object []) := by
  refine ⟨⟨0x7B, _, rfl, by decide⟩, fun rest _ => ?_⟩
  have hbrace : (0x7B : CodePoint) ≠ 0x5B := by decide
  rw [List.append_assoc, List.singleton_append, List.cons_append, readValue, if_neg hbrace, if_pos rfl,
    skipBlanks_blanks h]
  rfl

/-! ### Containers as they are written -/

theorem intercalate_cons_cons (separator text text' : Text) (texts : List Text) :
    Text.intercalate separator (text :: text' :: texts) =
      text ++ (separator ++ Text.intercalate separator (text' :: texts)) := by
  simp [Text.intercalate, List.intercalate]

theorem intercalate_singleton (separator text : Text) : Text.intercalate separator [text] = text := by
  simp [Text.intercalate, List.intercalate]

theorem blanks_nil : Blanks [] := by simp [Blanks]

/-- Texts with a comma and blanks between each two are separated parts. -/
theorem separated_intercalate {α : Type} {part : Text → α → Prop} (hb : Blanks blanks) {texts : List Text} {as : List α}
    (h : List.Forall₂ part texts as) (hne : texts ≠ []) :
    Separated part (Text.intercalate (0x2C :: blanks) texts) as := by
  induction h with
  | nil => exact absurd rfl hne
  | @cons text a texts as ha h ih =>
    cases h with
    | nil =>
      rw [intercalate_singleton]
      exact List.append_nil text ▸ .last blanks_nil ha blanks_nil
    | @cons text' a' texts as ha' h =>
      have hrest := separated_blanks_append hb (ih (List.cons_ne_nil _ _))
      have hcons := Separated.cons blanks_nil ha blanks_nil hrest
      rw [List.nil_append, List.append_nil] at hcons
      rw [intercalate_cons_cons]
      exact hcons

/-- A name with the colon right behind it. -/
theorem spellsMember_close {characters name : Text} {j : Json} (hname : SpellsCharacters characters name)
    (hb : Blanks blanks) (hj : Spells room text j) :
    SpellsMember room (0x22 :: characters ++ [0x22] ++ (0x3A :: blanks ++ text)) (name.join, j) := by
  have hmember := spellsMember (readString_of_spells hname) blanks_nil hb hj
  rw [List.append_nil, List.append_assoc] at hmember
  exact hmember

theorem spells_items (hb : Blanks blanks) {texts : List Text} {items : List Json}
    (h : List.Forall₂ (Spells room) texts items) :
    Spells (room + 1) (0x5B :: Text.intercalate (0x2C :: blanks) texts ++ [0x5D]) (.array items) := by
  cases h with
  | nil => exact spells_emptyArray blanks_nil
  | cons hj h => exact spells_array (separated_intercalate hb (.cons hj h) (List.cons_ne_nil _ _))

theorem spells_members (hb : Blanks blanks) {texts : List Text} {members : List (Text × Json)}
    (h : List.Forall₂ (SpellsMember room) texts members) :
    Spells (room + 1) (0x7B :: Text.intercalate (0x2C :: blanks) texts ++ [0x7D]) (.object (Members.ofList members)) := by
  cases h with
  | nil => exact spells_emptyObject blanks_nil
  | cons hj h => exact spells_object (separated_intercalate hb (.cons hj h) (List.cons_ne_nil _ _))

/-! ### Whole values -/

mutual

/-- Whether a value can be written so that it is read with room for so many containers: no integer has too many
    digits, and no number is without a form. -/
def Fits : Nat → Json → Prop
  | _, .int n => n.natAbs < 10 ^ intDigitLimit
  | _, .float d => d.isFinite = true
  | room + 1, .array items => ItemsFit room items
  | room + 1, .object members => MembersFit room members
  | 0, .array _ | 0, .object _ => False
  | _, .null | _, .bool _ | _, .text _ => True

/-- `Fits` for each item of an array. -/
def ItemsFit : Nat → List Json → Prop
  | _, [] => True
  | room, item :: rest => Fits room item ∧ ItemsFit room rest

/-- `Fits` for the value of each member of an object. -/
def MembersFit : Nat → List (Text × Json) → Prop
  | _, [] => True
  | room, (_, item) :: rest => Fits room item ∧ MembersFit room rest

end

mutual

/-- What a value is read back as, when its numbers are read back in this way. -/
def retold (numeral : Double → Json) : Json → Json
  | .null => .null
  | .bool b => .bool b
  | .int n => .int n
  | .float d => numeral d
  | .text t => .text t.join
  | .array items => .array (retoldItems numeral items)
  | .object members => .object (Members.ofList (retoldMembers numeral members))

/-- What the items of an array are read back as. -/
def retoldItems (numeral : Double → Json) : List Json → List Json
  | [] => []
  | item :: rest => retold numeral item :: retoldItems numeral rest

/-- What the members of an object are read back as, before those with equal names are merged. -/
def retoldMembers (numeral : Double → Json) : List (Text × Json) → List (Text × Json)
  | [] => []
  | (name, item) :: rest => (name.join, retold numeral item) :: retoldMembers numeral rest

end

mutual

/-- More room does no harm. -/
theorem Fits.mono : ∀ {room room' : Nat} (j : Json), room ≤ room' → Fits room j → Fits room' j
  | _, _, .null, _, _ | _, _, .bool _, _, _ | _, _, .text _, _, _ => trivial
  | _, _, .int _, _, h => h
  | _, _, .float _, _, h => h
  | _ + 1, _ + 1, .array items, hle, h => ItemsFit.mono items (Nat.le_of_succ_le_succ hle) h
  | _ + 1, _ + 1, .object members, hle, h => MembersFit.mono members (Nat.le_of_succ_le_succ hle) h

theorem ItemsFit.mono : ∀ {room room' : Nat} (items : List Json), room ≤ room' → ItemsFit room items →
    ItemsFit room' items
  | _, _, [], _, _ => trivial
  | _, _, item :: rest, hle, h => ⟨Fits.mono item hle h.1, ItemsFit.mono rest hle h.2⟩

theorem MembersFit.mono : ∀ {room room' : Nat} (members : List (Text × Json)), room ≤ room' →
    MembersFit room members → MembersFit room' members
  | _, _, [], _, _ => trivial
  | _, _, (_, item) :: rest, hle, h => ⟨Fits.mono item hle h.1, MembersFit.mono rest hle h.2⟩

end

theorem spellsCharacters_compact (t : Text) : SpellsCharacters (t.flatMap compactChar) t := by
  have h := SpellsCharacters.flatMap spellsCharacters_compactChar t
  rw [List.flatMap_singleton'] at h
  exact h

theorem spells_writeString (room : Nat) (t : Text) : Spells room (writeString t) (.text t.join) := by
  have h := spells_text room (SpellsCharacters.flatMap spellsCharacters_escapeChar t)
  rw [← List.map_flatMap] at h
  rw [← Text.toText_toUnits t]
  exact h

mutual

/-- The short form of a value is read as what the value is retold as. -/
theorem spells_compact {room : Nat} : ∀ j : Json, Fits room j →
    Spells room (compact j) (retold Layout.script.rereads j)
  | .null, _ => spells_null room
  | .bool b, _ => spells_boolWord room b
  | .int _, h => spells_ofInt room h
  | .float d, h => by
    rw [compact, compactDouble, if_pos (show d.isFinite = true from h), retold]
    exact spells_write room (by decide) h
  | .text t, _ => spells_text room (spellsCharacters_compact t)
  | .array items, h => by
    cases room with
    | zero => exact h.elim
    | succ room => exact spells_items blanks_nil (spells_compactItems items h)
  | .object members, h => by
    cases room with
    | zero => exact h.elim
    | succ room => exact spells_members blanks_nil (spells_compactMembers members h)

theorem spells_compactItems {room : Nat} : ∀ items : List Json, ItemsFit room items →
    List.Forall₂ (Spells room) (compactItems items) (retoldItems Layout.script.rereads items)
  | [], _ => .nil
  | item :: rest, h => .cons (spells_compact item h.1) (spells_compactItems rest h.2)

theorem spells_compactMembers {room : Nat} : ∀ members : List (Text × Json), MembersFit room members →
    List.Forall₂ (SpellsMember room) (compactMembers members) (retoldMembers Layout.script.rereads members)
  | [], _ => .nil
  | (name, item) :: rest, h =>
    .cons (spellsMember_close (spellsCharacters_compact name) blanks_nil (spells_compact item h.1))
      (spells_compactMembers rest h.2)

end

theorem writeInt_of_lt {n : Int} (h : n.natAbs < 10 ^ intDigitLimit) : writeInt n = .ok (.ofInt n) :=
  if_neg (mt of_decide_eq_true (Nat.not_le_of_lt h))

theorem blanks_space : Blanks [0x20] := fun c hc => by
  rw [List.mem_singleton.mp hc]
  rfl

mutual

/-- A value can be written in ASCII, and is read as what it is retold as with all its numbers kept. -/
theorem write_ofJson {room : Nat} : ∀ j : Json, Fits room j →
    ∃ text, write (.ofJson j) = .ok text ∧ Spells room text (retold .float j)
  | .null, _ => ⟨_, rfl, spells_null room⟩
  | .bool b, _ => ⟨_, rfl, spells_boolWord room b⟩
  | .int n, h => ⟨Text.ofInt n, writeInt_of_lt (n := n) h, spells_ofInt room h⟩
  | .float d, h => by
    have hd : d.isFinite = true := h
    refine ⟨Layout.host.write d, if_pos hd, ?_⟩
    have hspells : Spells room (Layout.host.write d) (Layout.host.rereads d) := spells_write room (by decide) hd
    rw [Layout.rereads_host hd] at hspells
    exact hspells
  | .text t, _ => ⟨_, rfl, spells_writeString room t⟩
  | .array items, h => by
    cases room with
    | zero => exact h.elim
    | succ room =>
      obtain ⟨texts, hwrite, hspells⟩ := writeItems_ofJson items h
      exact ⟨bracketed 0x5B 0x5D texts, congrArg (Except.map _) hwrite, spells_items blanks_space hspells⟩
  | .object members, h => by
    cases room with
    | zero => exact h.elim
    | succ room =>
      obtain ⟨texts, hwrite, hspells⟩ := writeEntries_ofJson members h
      exact ⟨bracketed 0x7B 0x7D texts, congrArg (Except.map _) hwrite, spells_members blanks_space hspells⟩

theorem writeItems_ofJson {room : Nat} : ∀ items : List Json, ItemsFit room items →
    ∃ texts, writeItems (Host.ofJsonItems items) = .ok texts ∧
      List.Forall₂ (Spells room) texts (retoldItems .float items)
  | [], _ => ⟨[], rfl, .nil⟩
  | item :: rest, h => by
    obtain ⟨text, hwrite, hspells⟩ := write_ofJson item h.1
    obtain ⟨texts, hwrites, hall⟩ := writeItems_ofJson rest h.2
    refine ⟨text :: texts, ?_, .cons hspells hall⟩
    rw [Host.ofJsonItems, writeItems, hwrite, hwrites]
    rfl

theorem writeEntries_ofJson {room : Nat} : ∀ members : List (Text × Json), MembersFit room members →
    ∃ texts, writeEntries (Host.ofJsonMembers members) = .ok texts ∧
      List.Forall₂ (SpellsMember room) texts (retoldMembers .float members)
  | [], _ => ⟨[], rfl, .nil⟩
  | (name, item) :: rest, h => by
    obtain ⟨text, hwrite, hspells⟩ := write_ofJson item h.1
    obtain ⟨texts, hwrites, hall⟩ := writeEntries_ofJson rest h.2
    have hname := SpellsCharacters.flatMap spellsCharacters_escapeChar name
    have hmember := spellsMember_close hname blanks_space hspells
    rw [← List.map_flatMap] at hmember
    refine ⟨(writeString name ++ [0x3A, 0x20] ++ text) :: texts, ?_, .cons ?_ hall⟩
    · rw [Host.ofJsonMembers, writeEntries, hwrite, hwrites]
      rfl
    · rw [← Text.toText_toUnits name, List.append_assoc]
      exact hmember

end

/-- A text that spells a value is read as it. -/
theorem Spells.read? {limit : Nat} {text : Text} {j : Json} (h : Spells limit text j) : read? limit text = some j := by
  have hread := h.reads [] ends_nil
  have hskip := h.skipBlanks []
  rw [List.append_nil] at hread hskip
  rw [Json.read?, hskip, hread]
  rfl

/-- A text is read with a newline behind it. -/
theorem Spells.read?_newline {limit : Nat} {text : Text} {j : Json} (h : Spells limit text j) :
    Json.read? limit (text ++ [0x0A]) = some j := by
  have hread := h.reads [0x0A] fun c hc => .inr (.inr (.inr (Option.some.inj hc ▸ rfl)))
  rw [Json.read?, h.skipBlanks, hread]
  rfl

end ScriptLink.Json
