import ScriptLink.Engine.Loop
import ScriptLink.Proofs.JsonText

/-! # The text of a line

    The caller's writer uses the characters from the space to the tilde and no others, so a line holds one newline, its
    last byte. Main statements: UTF-8 is read back as the text that was written, and what the writer makes of a JSON
    value is a line that becomes a message with this value. -/

namespace ScriptLink

namespace Utf8

/-! ### UTF-8 read back -/

variable {done : Text} {rest : List UInt8}

theorem toNat_toUInt8 {n : Nat} (h : n < 256) : n.toUInt8.toNat = n := by
  simp [Nat.toUInt8_eq, UInt8.toNat_ofNat_of_lt' (show n < UInt8.size from h)]

theorem ofLead_two {n : Nat} (h : 2 ≤ n) (h' : n < 32) : Owed.ofLead (0xC0 + n) = some ⟨1, 0x80, 0xBF, n⟩ := by
  rw [Owed.ofLead, if_pos (by omega), Nat.add_sub_cancel_left]

theorem ofLead_three : ∀ n < 16, Owed.ofLead (0xE0 + n) =
    some ⟨2, if n = 0 then 0xA0 else 0x80, if n = 13 then 0x9F else 0xBF, n⟩ := by
  decide

theorem ofLead_four : ∀ n < 5, Owed.ofLead (0xF0 + n) =
    some ⟨3, if n = 0 then 0x90 else 0x80, if n = 4 then 0x8F else 0xBF, n⟩ := by
  decide

theorem decodeFrom_lead {n : Nat} {owed : Owed} (hn : 0x80 ≤ n) (hn' : n < 256) (h : Owed.ofLead n = some owed) :
    decodeFrom done none (n.toUInt8 :: rest) = decodeFrom done (some owed) rest := by
  rw [decodeFrom, toNat_toUInt8 hn', if_neg (by omega), h]

/-- A continuation byte with another one behind it. -/
theorem decodeFrom_more {k low high bits n : Nat} (hn : n < 64) (hlow : low ≤ 0x80 + n) (hhigh : 0x80 + n ≤ high) :
    decodeFrom done (some ⟨k + 2, low, high, bits⟩) ((0x80 + n).toUInt8 :: rest) =
      decodeFrom done (some ⟨k + 1, 0x80, 0xBF, bits * 64 + n⟩) rest := by
  have hbits : (0x80 + n) % 64 = n := by omega
  rw [decodeFrom, toNat_toUInt8 (by omega)]
  simp only [hlow, hhigh, and_self, if_true, hbits]
  rw [if_neg (by omega)]
  rfl

/-- The last continuation byte of a character. -/
theorem decodeFrom_last {low high bits n : Nat} (hn : n < 64) (hlow : low ≤ 0x80 + n) (hhigh : 0x80 + n ≤ high) :
    decodeFrom done (some ⟨1, low, high, bits⟩) ((0x80 + n).toUInt8 :: rest) =
      decodeFrom (.ofNat (bits * 64 + n) :: done) none rest := by
  have hbits : (0x80 + n) % 64 = n := by omega
  rw [decodeFrom, toNat_toUInt8 (by omega)]
  simp only [hlow, hhigh, and_self, if_true, hbits]

/-- A character that is no surrogate is read back from its bytes. -/
theorem decodeFrom_encodeOne {c : CodePoint} (hhigh : ¬ c.IsHigh) (hlow : ¬ c.IsLow) :
    decodeFrom done none (encodeOne c ++ rest) = decodeFrom (c :: done) none rest := by
  have hc := c.isLt
  have hself {n : Nat} (h : n = c.val) : CodePoint.ofNat n = c := by
    rw [h, CodePoint.ofNat, dif_pos hc]
  have hgap : c.val < 0xD800 ∨ 0xE000 ≤ c.val := by
    unfold CodePoint.IsHigh at hhigh
    unfold CodePoint.IsLow at hlow
    omega
  simp only [encodeOne, hhigh, hlow, or_self, if_false]
  split_ifs with hone htwo hthree
  · rw [List.singleton_append, decodeFrom, toNat_toUInt8 (by omega), if_pos hone, hself rfl]
  · simp only [List.cons_append, List.nil_append]
    rw [decodeFrom_lead (by omega) (by omega) (ofLead_two (by omega) (by omega)),
      decodeFrom_last (by omega) (by omega) (by omega), hself (by omega)]
  · simp only [List.cons_append, List.nil_append]
    rw [decodeFrom_lead (by omega) (by omega) (ofLead_three _ (by omega)),
      decodeFrom_more (k := 0) (by omega) (by split <;> omega) (by split <;> omega),
      decodeFrom_last (by omega) (by omega) (by omega), hself (by omega)]
  · simp only [List.cons_append, List.nil_append]
    rw [decodeFrom_lead (by omega) (by omega) (ofLead_four _ (by omega)),
      decodeFrom_more (k := 1) (by omega) (by split <;> omega) (by split <;> omega),
      decodeFrom_more (k := 0) (by omega) (by omega) (by omega),
      decodeFrom_last (by omega) (by omega) (by omega), hself (by omega)]

theorem decode_encode {t : Text} (h : ∀ c ∈ t, ¬ c.IsHigh ∧ ¬ c.IsLow) : decode (encode t) = some t := by
  have hfrom : ∀ done : Text, decodeFrom done none (encode t) = some (done.reverse ++ t) := by
    induction t with
    | nil => simp [encode, decodeFrom]
    | cons c t ih =>
      intro done
      obtain ⟨hhigh, hlow⟩ := h c List.mem_cons_self
      rw [encode, List.flatMap_cons, decodeFrom_encodeOne hhigh hlow]
      have htail := ih (fun d hd => h d (List.mem_cons_of_mem _ hd)) (c :: done)
      rw [List.reverse_cons, List.append_assoc, List.singleton_append] at htail
      exact htail
  exact hfrom []

end Utf8

/-! ### What the caller's writer writes -/

/-- From the space to the tilde. -/
def CodePoint.IsGraphic (c : CodePoint) : Prop := 0x20 ≤ c.val ∧ c.val < 0x7F

instance (c : CodePoint) : Decidable c.IsGraphic := inferInstanceAs (Decidable (_ ∧ _))

/-- A text of such points only. -/
def Text.IsGraphic (t : Text) : Prop := ∀ c ∈ t, c.IsGraphic

instance (t : Text) : Decidable t.IsGraphic := List.decidableBAll CodePoint.IsGraphic t

namespace Text.IsGraphic
variable {s t : Text}

theorem append (hs : s.IsGraphic) (ht : t.IsGraphic) : (s ++ t).IsGraphic :=
  List.forall_mem_append.mpr ⟨hs, ht⟩

theorem cons {c : CodePoint} (hc : c.IsGraphic) (ht : t.IsGraphic) : IsGraphic (c :: t) :=
  List.forall_mem_cons.mpr ⟨hc, ht⟩

theorem sublist (h : s.Sublist t) (ht : t.IsGraphic) : s.IsGraphic := fun c hc => ht c (h.subset hc)

theorem flatMap {α : Type} {f : α → Text} (xs : List α) (h : ∀ x ∈ xs, (f x).IsGraphic) : IsGraphic (xs.flatMap f) := by
  intro c hc
  obtain ⟨x, hx, hc⟩ := List.mem_flatMap.mp hc
  exact h x hx c hc

theorem replicate {c : CodePoint} (hc : c.IsGraphic) (n : Nat) : IsGraphic (List.replicate n c) := fun d hd => by
  rw [List.eq_of_mem_replicate hd]
  exact hc

theorem intercalate {separator : Text} (hs : separator.IsGraphic) {parts : List Text}
    (h : ∀ part ∈ parts, part.IsGraphic) : (Text.intercalate separator parts).IsGraphic := by
  induction parts with
  | nil => simp [Text.intercalate, IsGraphic]
  | cons part parts ih =>
    have ih := ih fun other ho => h other (List.mem_cons_of_mem _ ho)
    cases parts with
    | nil =>
      rw [Json.intercalate_singleton]
      exact h part List.mem_cons_self
    | cons next parts =>
      rw [Json.intercalate_cons_cons]
      exact (h part List.mem_cons_self).append (hs.append ih)

theorem digits (h : t.IsDigits) : t.IsGraphic := fun c hc => by
  have hdigit := h c hc
  simp only [Json.isDigit, Bool.and_eq_true, decide_eq_true_eq] at hdigit
  exact ⟨by omega, by omega⟩

theorem ofNat (n : Nat) : (Text.ofNat n).IsGraphic := .digits (Text.isDigits_ofNat n)

theorem ofInt (n : Int) : (Text.ofInt n).IsGraphic := by
  cases n with
  | ofNat n => exact ofNat n
  | negSucc n => exact (ofNat (n + 1)).cons (by decide)

theorem hex (width n : Nat) : (Text.hex width n).IsGraphic := by
  have hdigit : ∀ d < 16, (Text.hexDigit d).IsGraphic := by decide
  induction width generalizing n with
  | zero => simp [Text.hex, IsGraphic]
  | succ width ih =>
    exact (ih (n / 16)).append (cons (hdigit _ (Nat.mod_lt _ (by decide))) (by simp [IsGraphic]))

end Text.IsGraphic

theorem Layout.isGraphic_decimal (layout : Layout) (d : Decimal) : (layout.decimal d).IsGraphic := by
  have hnormal : (normalDigits d).1.IsGraphic :=
    .sublist ((List.dropWhile_sublist _).reverse.trans (List.reverse_reverse _ ▸ List.Sublist.refl _)) (.ofNat d.digits)
  have hzeros (n : Nat) : Text.IsGraphic (List.replicate n 0x30) := .replicate (by decide) n
  have hfraction {digits : Text} (h : digits.IsGraphic) : (fraction digits).IsGraphic := by
    unfold fraction
    split
    · simp [Text.IsGraphic]
    · exact h.cons (by decide)
  have htake (n : Nat) : Text.IsGraphic ((normalDigits d).1.take n) := .sublist (List.take_sublist _ _) hnormal
  have hdrop (n : Nat) : Text.IsGraphic ((normalDigits d).1.drop n) := .sublist (List.drop_sublist _ _) hnormal
  simp only [decimal]
  split_ifs
  · exact ((show Text.IsGraphic (Text.ofString "0.") by decide).append (hzeros _)).append hnormal
  · exact ((htake _).append (hzeros _)).append (by decide)
  · exact (htake _).append (hzeros _)
  · exact ((htake _).append (hzeros _)).append (hfraction (hdrop _))
  · refine ((htake _).append (hfraction (hdrop _))).append (.cons (by decide) (.cons ?_ ((hzeros _).append (.ofNat _))))
    split <;> decide

theorem Layout.isGraphic_write {layout : Layout} (hnan : layout.nan.IsGraphic) (hinfinity : layout.infinity.IsGraphic)
    (d : Double) : (layout.write d).IsGraphic := by
  cases d with
  | nan => exact hnan
  | signed negative magnitude =>
    have hbody : Text.IsGraphic (if magnitude.val = infinityCode then layout.infinity
        else if magnitude.val = 0 then (if layout.keepsFraction then Text.ofString "0.0" else [0x30])
        else layout.decimal (Decimal.shortest magnitude.val)) := by
      split_ifs
      · exact hinfinity
      · decide
      · decide
      · exact layout.isGraphic_decimal _
    simp only [write]
    split
    · exact hbody.cons (by decide)
    · exact hbody

namespace Json
open Text (IsGraphic)

theorem isGraphic_escapeChar (c : CodePoint) : IsGraphic (escapeChar c) := by
  unfold escapeChar
  split_ifs with h₁ h₂ h₃ h₄ h₅ h₆ h₇
  · refine .cons (by decide) (.cons ?_ (by simp [IsGraphic]))
    rcases h₁ with rfl | rfl <;> decide
  · decide
  · decide
  · decide
  · decide
  · decide
  · exact .cons h₇ (by simp [IsGraphic])
  · exact .flatMap _ fun unit _ => .append (by decide) (.hex 4 unit.val)

theorem isGraphic_writeString (t : Text) : (writeString t).IsGraphic :=
  .append (.cons (by decide) (.flatMap t fun c _ => isGraphic_escapeChar c)) (by decide)

theorem isGraphic_boolWord (b : Bool) : (boolWord b).IsGraphic := by
  cases b <;> decide

theorem isGraphic_writeDouble {d : Double} {text : Text} (h : writeDouble d = .ok text) : text.IsGraphic := by
  unfold writeDouble at h
  split at h
  · obtain rfl := Except.ok.inj h
    exact Layout.isGraphic_write (by decide) (by decide) d
  · cases h

theorem isGraphic_writeInt {n : Int} {text : Text} (h : writeInt n = .ok text) : text.IsGraphic := by
  unfold writeInt at h
  split at h
  · cases h
  · obtain rfl := Except.ok.inj h
    exact .ofInt n

theorem isGraphic_writeScalar {s : Host.Scalar} {text : Text} (h : writeScalar s = .ok text) : text.IsGraphic := by
  cases s with
  | none =>
    obtain rfl := Except.ok.inj h
    decide
  | bool b =>
    obtain rfl := Except.ok.inj h
    exact isGraphic_boolWord b
  | int n subclass => exact isGraphic_writeInt h
  | float d subclass => exact isGraphic_writeDouble h
  | text t kind =>
    cases kind with
    | wrapped => cases h
    | _ =>
      obtain rfl := Except.ok.inj h
      exact isGraphic_writeString t
  | _ => cases h

theorem isGraphic_bracketed {opening closing : CodePoint} {parts : List Text} (ho : opening.IsGraphic)
    (hc : closing.IsGraphic) (h : ∀ part ∈ parts, part.IsGraphic) : (bracketed opening closing parts).IsGraphic :=
  .append (.cons ho (.intercalate (by decide) h)) (.cons hc (by simp [IsGraphic]))

mutual

theorem isGraphic_write {text : Text} : ∀ value : Host.Value, write value = .ok text → text.IsGraphic
  | .scalar _, h => isGraphic_writeScalar h
  | .sequence _ items, h => by
    rcases hitems : writeItems items with _ | texts
    · simp [write, hitems, Except.map] at h
    · simp only [write, hitems, Except.map, Except.ok.injEq] at h
      subst h
      exact isGraphic_bracketed (by decide) (by decide) (isGraphic_writeItems items hitems)
  | .mapping kind entries, h => by
    rw [write] at h
    split at h
    · rcases hentries : writeEntries entries with _ | texts
      · simp [hentries, Except.map] at h
      · simp only [hentries, Except.map, Except.ok.injEq] at h
        subst h
        exact isGraphic_bracketed (by decide) (by decide) (isGraphic_writeEntries entries hentries)
    · cases h
  | .again _, h => by cases h
  | .beyond _, h => by cases h

theorem isGraphic_writeItems {texts : List Text} : ∀ items : List Host.Value, writeItems items = .ok texts →
    ∀ text ∈ texts, text.IsGraphic
  | [], h => by
    obtain rfl := Except.ok.inj h
    simp
  | item :: rest, h => by
    rcases hitem : write item with _ | text
    · simp [writeItems, hitem, bind, Except.bind] at h
    rcases hrest : writeItems rest with _ | texts'
    · simp [writeItems, hitem, hrest, bind, Except.bind] at h
    simp only [writeItems, hitem, hrest, bind, Except.bind, pure, Except.pure, Except.ok.injEq] at h
    subst h
    exact List.forall_mem_cons.mpr ⟨isGraphic_write item hitem, isGraphic_writeItems rest hrest⟩

theorem isGraphic_writeEntries {texts : List Text} : ∀ entries : List (Host.Value × Host.Value),
    writeEntries entries = .ok texts → ∀ text ∈ texts, text.IsGraphic
  | [], h => by
    obtain rfl := Except.ok.inj h
    simp
  | (key, value) :: rest, h => by
    rcases hkey : keyText key with _ | name
    · simp [writeEntries, hkey, bind, Except.bind] at h
    rcases hvalue : write value with _ | text
    · simp [writeEntries, hkey, hvalue, bind, Except.bind] at h
    rcases hrest : writeEntries rest with _ | texts'
    · simp [writeEntries, hkey, hvalue, hrest, bind, Except.bind] at h
    simp only [writeEntries, hkey, hvalue, hrest, bind, Except.bind, pure, Except.pure, Except.ok.injEq] at h
    subst h
    refine List.forall_mem_cons.mpr ⟨?_, isGraphic_writeEntries rest hrest⟩
    exact .append (.append (isGraphic_writeString name) (by decide)) (isGraphic_write value hvalue)

end

end Json

/-! ### Lines -/

namespace Text.IsGraphic
variable {t : Text}

theorem decode_encode (h : t.IsGraphic) : Utf8.decode (Utf8.encode t) = some t :=
  Utf8.decode_encode fun c hc => by
    have hgraphic : 0x20 ≤ c.val ∧ c.val < 0x7F := h c hc
    unfold CodePoint.IsHigh CodePoint.IsLow
    omega

theorem join_append (h : t.IsGraphic) (s : Text) : (t ++ s).join = t ++ s.join := by
  induction t with
  | nil => rfl
  | cons c t ih =>
    have hc : 0x20 ≤ c.val ∧ c.val < 0x7F := h c List.mem_cons_self
    rw [List.cons_append, join_cons, ih fun d hd => h d (List.mem_cons_of_mem _ hd), joinCons_of_not_high]
    · rfl
    · unfold CodePoint.IsHigh
      omega

theorem join_eq (h : t.IsGraphic) : t.join = t := by
  have happend := h.join_append []
  rwa [join_nil, List.append_nil] at happend

/-- Each graphic character is one byte. -/
theorem encode_eq (h : t.IsGraphic) : Utf8.encode t = t.map fun c => c.val.toUInt8 := by
  induction t with
  | nil => rfl
  | cons c t ih =>
    have hc : 0x20 ≤ c.val ∧ c.val < 0x7F := h c List.mem_cons_self
    have hone : Utf8.encodeOne c = [c.val.toUInt8] := by
      have hsurrogate : ¬ (c.IsHigh ∨ c.IsLow) := by
        unfold CodePoint.IsHigh CodePoint.IsLow
        omega
      simp only [Utf8.encodeOne, if_neg hsurrogate]
      rw [if_pos (by omega)]
    rw [Utf8.encode, List.flatMap_cons, hone, List.map_cons, ← ih fun d hd => h d (List.mem_cons_of_mem _ hd)]
    rfl

theorem newline_notMem (h : t.IsGraphic) : (0x0A : UInt8) ∉ Utf8.encode t := by
  rw [h.encode_eq]
  intro hm
  obtain ⟨c, hc, he⟩ := List.mem_map.mp hm
  have hgraphic : 0x20 ≤ c.val ∧ c.val < 0x7F := h c hc
  have hval := congrArg UInt8.toNat he
  rw [Utf8.toNat_toUInt8 (by omega), show (0x0A : UInt8).toNat = 10 from rfl] at hval
  omega

end Text.IsGraphic

/-- The line of a request ends with a newline and holds no other. -/
theorem Request.line_eq {r : Request} {line : List UInt8} (h : r.line = .ok line) :
    ∃ body, line = body ++ [0x0A] ∧ (0x0A : UInt8) ∉ body := by
  rcases hwrite : Json.write r.toValue with _ | text
  · simp [Request.line, hwrite, bind, Except.bind] at h
  · simp only [Request.line, hwrite, bind, Except.bind, pure, Except.pure, Except.ok.injEq] at h
    refine ⟨Utf8.encode text, ?_, (Json.isGraphic_write _ hwrite).newline_notMem⟩
    rw [← h, Utf8.encode, List.flatMap_append]
    rfl

/-- The line that a JSON value is written as, without its newline. -/
def Json.line (j : Json) : List UInt8 :=
  match Json.write (.ofJson j) with
  | .ok spelled => Utf8.encode spelled
  | .error _ => []

theorem Json.newline_notMem_line (j : Json) : (0x0A : UInt8) ∉ j.line := by
  unfold line
  split
  · rename_i spelled hwrite
    exact (isGraphic_write _ hwrite).newline_notMem
  · simp

/-- The value on a line, unless it is blank or cannot be decoded. -/
def contentOn? (line : List UInt8) : Option Json :=
  if line.all isBlankByte then none else (Utf8.decode line).bind (Json.read? Json.nestingLimit)

theorem Event.ofLine?_of_contentOn? {line : List UInt8} {content : Json} (h : contentOn? line = some content) :
    Event.ofLine? line = some (.message (.ofJson content)) := by
  unfold contentOn? at h
  split at h
  · cases h
  · rename_i hblank
    rw [Event.ofLine?, if_neg hblank, h]

/-- The line that a JSON value is written as holds this value. -/
theorem contentOn?_line {j : Json} (h : j.Fits Json.nestingLimit) : contentOn? j.line = some (j.retold .float) := by
  obtain ⟨text, hwrite, hspells⟩ := Json.write_ofJson j h
  have hgraphic := Json.isGraphic_write _ hwrite
  have hblank : (Utf8.encode text).all isBlankByte = false := by
    obtain ⟨c, rest, rfl, hc, -⟩ := hspells.starts
    have hrange : 0x20 ≤ c.val ∧ c.val < 0x7F := hgraphic c List.mem_cons_self
    rw [hgraphic.encode_eq, List.map_cons, List.all_cons, Bool.and_eq_false_iff]
    left
    have hspace : c.val ≠ 0x20 := fun he => by
      rw [show c = 0x20 from Fin.ext he] at hc
      cases hc
    have hval := Utf8.toNat_toUInt8 (n := c.val) (by omega)
    simp only [isBlankByte, Bool.or_eq_false_iff, Bool.and_eq_false_iff, beq_eq_false_iff_ne, decide_eq_false_iff_not,
      UInt8.le_iff_toNat_le, hval, ne_eq, ← UInt8.toNat_inj]
    exact ⟨by simpa using hspace, .inr (by simp; omega)⟩
  rw [Json.line, hwrite, contentOn?, hblank, if_neg Bool.false_ne_true, hgraphic.decode_encode, Option.bind_some,
    hspells.read?]

end ScriptLink
