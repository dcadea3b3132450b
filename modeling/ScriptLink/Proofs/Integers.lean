import ScriptLink.Proofs.Crossing
import ScriptLink.Proofs.LineText
import ScriptLink.Proofs.Parsing

/-! # Integers as doubles

    An integer of the caller is sent as the double nearest to it, and refused from the midpoint between the largest
    double and 2^1024 on. The same double comes of a number node with the integer, and of every decimal notation of it
    that has a fraction or an exponent; so a number that a script writes as an integer is received as it was. Main
    statement: `integer_becomes_nearest`. -/

namespace ScriptLink

-- Powers of natural numbers are those of the language, also where others are in scope.
attribute [local instance (10000)] instPowNat

/-! ### Where doubles end -/

theorem nearestCode_eq_infinityCode_iff {n d : ℕ} (hd : 0 < d) : nearestCode n d = infinityCode ↔
    (unitsOfCode (infinityCode - 1) + unitsOfCode infinityCode) * d ≤ 2 * n := by
  obtain ⟨hlow, hhigh, hodd⟩ := inInterval_roundedCode n hd
  rw [nearestCode_eq]
  constructor
  · intro h
    have hle : infinityCode ≤ roundedCode n d := h ▸ Nat.min_le_left _ _
    have hbelow := unitsOfCode_le (show infinityCode - 1 ≤ roundedCode n d - 1 by omega)
    exact Nat.le_trans (Nat.mul_le_mul_right d (Nat.add_le_add hbelow (unitsOfCode_le hle))) hlow
  · intro h
    refine Nat.min_eq_right (Nat.le_of_not_lt fun hlt => ?_)
    have hbelow := unitsOfCode_le (show roundedCode n d ≤ infinityCode - 1 by omega)
    have habove := unitsOfCode_le (show roundedCode n d + 1 ≤ infinityCode by omega)
    have hsum := Nat.le_of_mul_le_mul_right (Nat.le_trans h hhigh) hd
    -- The code can only be that of the largest double, which is odd and leaves its midpoint to infinity.
    have hlast : ¬ roundedCode n d < infinityCode - 1 := fun hlast => by
      have := unitsOfCode_lt hlast
      omega
    have hcode : roundedCode n d = infinityCode - 1 := by omega
    have hnext : roundedCode n d + 1 = infinityCode := by omega
    have hparity : (infinityCode - 1) % 2 = 1 := by decide
    refine (hodd (hcode ▸ hparity)).2 (Nat.le_antisymm hhigh ?_)
    rw [hnext, hcode]
    exact h

/-- The midpoint between the largest double and 2^1024, in units. -/
theorem unitsOfCode_midpoint :
    unitsOfCode (infinityCode - 1) + unitsOfCode infinityCode = 2 * ((2 ^ 1024 - 2 ^ 970) * unitsPerOne) := by
  decide +kernel

namespace Double
variable {n m : ℤ} {d e : Double}

/-- An integer is too large from half a step beyond the largest double on. -/
theorem isFinite_ofInt_iff : (ofInt n).isFinite = true ↔ n.natAbs < 2 ^ 1024 - 2 ^ 970 := by
  have hcode : (ofInt n).isFinite = true ↔ nearestCode (n.natAbs * unitsPerOne) 1 ≠ infinityCode := by
    rw [ofInt_eq, ofRatio, isFinite, bne_iff_ne]
    rfl
  rw [hcode, ne_eq, nearestCode_eq_infinityCode_iff Nat.one_pos, unitsOfCode_midpoint, Nat.mul_one,
    Nat.mul_le_mul_left_iff Nat.two_pos, Nat.mul_le_mul_right_iff (Nat.two_pow_pos 1074),
    Nat.not_le]

/-- The double of an integer is no negative zero. -/
theorem clearZeroSign_ofInt (n : ℤ) : (ofInt n).clearZeroSign = ofInt n := by
  rw [clearZeroSign]
  split
  case isFalse => rfl
  case isTrue hzero =>
    have hnear := isNearest_ofInt n
    rw [ofInt_eq, ofRatio] at hzero hnear ⊢
    have hmagnitude : Magnitude.ofRatio n.natAbs 1 = 0 := Fin.ext (by simpa [isZero] using hzero)
    rw [hmagnitude] at hnear ⊢
    rcases lt_or_ge n 0 with hn | hn
    · -- Minus one is a double and nearer to a negative integer than zero is.
      obtain ⟨one, -, hunits, -⟩ := ofInt_exact (n := 1) (by decide)
      have hone : place true one = -1 := by
        rw [place, hunits, Nat.one_mul, div_self unitsPerOne_pos.ne', mul_one]
        rfl
      have hle := hnear.abs_sub_le true one
      have hn' : (n : ℚ) ≤ -1 := by exact_mod_cast Int.le_sub_one_of_lt hn
      rw [place_zero, hone, sub_zero, abs_of_nonpos (by linarith), abs_of_nonpos (by linarith)] at hle
      linarith
    · rw [decide_eq_false (not_lt.mpr hn)]
      rfl

/-- Integers in order become doubles in order. -/
theorem position?_ofInt_le (h : m ≤ n) :
    ∃ q r, (ofInt m).position? = some q ∧ (ofInt n).position? = some r ∧ q ≤ r := by
  have hm := isNearest_ofInt m
  have hn := isNearest_ofInt n
  rw [ofInt_eq, ofRatio] at hm hn ⊢
  rw [ofInt_eq n, ofRatio]
  exact ⟨_, _, rfl, rfl, hm.place_le hn (by exact_mod_cast h)⟩

theorem ofInt?_eq (n : ℤ) : ofInt? n = if n.natAbs < 2 ^ 1024 - 2 ^ 970 then some (ofInt n) else none := by
  rw [ofInt?]
  exact if_congr isFinite_ofInt_iff rfl rfl

/-- A decimal notation of an integer has the sign of the integer, or the integer is zero. -/
theorem decimalValue_sign {negative : Bool} {digits : ℕ} {exponent : ℤ}
    (h : decimalValue negative digits exponent = n) : negative = decide (n < 0) ∨ n = 0 ∧ negative = true := by
  have hpos : (0 : ℚ) ≤ digits * 10 ^ exponent := mul_nonneg (Nat.cast_nonneg _) (zpow_nonneg (by norm_num) _)
  rw [decimalValue] at h
  cases negative with
  | false =>
    rw [signFactor, if_neg Bool.false_ne_true, one_mul] at h
    have hn : (0 : ℚ) ≤ n := h ▸ hpos
    exact .inl (decide_eq_false (not_lt.mpr (by exact_mod_cast hn))).symm
  | true =>
    rw [signFactor, if_pos rfl, neg_one_mul] at h
    have hn : (n : ℚ) ≤ 0 := by linarith
    rcases (show n ≤ 0 by exact_mod_cast hn).lt_or_eq with hlt | rfl
    · exact .inl (decide_eq_true hlt).symm
    · exact .inr ⟨rfl, rfl⟩

end Double

namespace Json
open Grammar

/-- A decimal notation of an integer is read as the double of the integer, but that zero may have a sign there. -/
theorem Grammar.Spelled.read {negative : Bool} {s : Text} {n : ℤ} (room : ℕ) (h : Spelled negative s n) :
    ∃ e, read? room s = some (.float e) ∧ (e = .ofInt n ∨ n = 0 ∧ negative = true ∧ e.clearZeroSign = .ofInt n) := by
  have hsome : (∃ magnitude, (Double.signed negative magnitude).IsNearest n) ∧
      (negative = decide (n < 0) ∨ n = 0 ∧ negative = true) := by
    generalize hq : (n : ℚ) = q at h
    cases h
    exact ⟨(exists_magnitude _ _ _).imp fun _ => Double.ofDecimal_iff.mp, Double.decimalValue_sign hq.symm⟩
  obtain ⟨⟨magnitude, hnearest⟩, hsign⟩ := hsome
  have hint := Double.isNearest_ofInt n
  refine ⟨_, ((Scalar.number (.float h hnearest)).spells room).read?, ?_⟩
  rcases hsign with rfl | ⟨hn, hsign⟩
  · rw [Double.ofInt_eq, Double.ofRatio] at hint ⊢
    exact .inl (congrArg _ (hnearest.magnitude_eq hint))
  · refine .inr ⟨hn, hsign, ?_⟩
    rw [Double.position?_eq_iff.mp (hnearest.position?_eq hint), Double.clearZeroSign_ofInt]

/-- A notation with a fraction or an exponent has a point or a mark among its digits. -/
theorem Grammar.Spelled.not_isDigits {negative negative' : Bool} {digits : Text} {q : ℚ}
    (h : Spelled negative (withSign negative' digits) q) : ¬ digits.IsDigits := by
  intro hdigits
  have inside {c : CodePoint} (hc : c ∈ withSign negative' digits) : isDigit c = true ∨ c = 0x2D := by
    cases negative' with
    | false => exact .inl (hdigits c hc)
    | true => exact (List.mem_cons.mp hc).symm.imp_left (hdigits c)
  generalize withSign negative' digits = s at h inside
  obtain ⟨-, hfraction, hexponent, hsome⟩ := h
  rename_i whole point fraction mark exponent
  have inside {c : CodePoint} (hc : c ∈ point ++ mark) : isDigit c = true ∨ c = 0x2D := by
    refine inside ?_
    cases negative with
    | false => exact List.mem_append_right whole hc
    | true => exact List.mem_cons_of_mem _ (List.mem_append_right whole hc)
  cases hfraction with
  | point => exact absurd (inside List.mem_cons_self) (by decide)
  | none =>
    cases hexponent with
    | none => exact hsome rfl
    | unsigned hmark | plus hmark | minus hmark =>
      have hmarked := inside List.mem_cons_self
      rcases hmark with rfl | rfl <;> exact absurd hmarked (by decide)

/-- What a layout writes for a finite double is a number. -/
theorem number_write (layout : Layout) {d : Double} (hlong : layout.highest < 4300) (hd : d.isFinite = true) :
    Number (layout.write d) (layout.rereads d) := by
  obtain ⟨negative, body, hwrite, hread⟩ := Layout.readUnsigned_write hlong hd
  obtain ⟨body', he, hnumber⟩ := exists_of_readUnsigned (hread [] ends_nil)
  rw [← List.append_cancel_right he] at hnumber
  rw [hwrite]
  exact hnumber

end Json

namespace Wire
open Json.Grammar (withSign Spelled)

/-- What a script writes as an integer is received as it was, up to the sign of a zero. -/
theorem decode_compactDouble {d : Double} {negative : Bool} {digits : Text} (hd : d.isFinite = true)
    (hwrite : Json.compactDouble d = withSign negative digits) (hdigits : digits.IsDigits) :
    ∃ k : ℤ, (∀ limit, Json.read? limit (Json.compactDouble d) = some (.int k)) ∧
      decode (tagged "number" (.ofJson (.int k))) = .ok (.float d.clearZeroSign) := by
  rw [Json.compactDouble, if_pos hd] at hwrite ⊢
  have hnumber := Json.number_write .script (by decide) hd
  rcases Layout.rereads_script hd with ⟨k, hk, hint⟩ | hfloat
  · rw [hk] at hnumber
    exact ⟨k, fun limit => ((Json.Grammar.Scalar.number hnumber).spells limit).read?,
      decode_number (.inl ⟨k, rfl, hint⟩) (isFinite_clearZeroSign hd)⟩
  · rw [hfloat, hwrite] at hnumber
    generalize hj : Json.float d.clearZeroSign = j at hnumber
    generalize hs : withSign negative digits = s at hnumber
    cases hnumber with
    | int => cases hj
    | float hspelled =>
      subst hs
      exact absurd hdigits hspelled.not_isDigits

/-- An integer as an argument. -/
theorem ofArgument_int (g : Host.Graph) (n : ℤ) (subclass : Option Host.Subclass) :
    Node.ofArgument g (.scalar (.int n subclass)) =
      if n.natAbs < 2 ^ 1024 - 2 ^ 970 then .ok (.number (.ofInt n))
      else .error (.tooLarge (Host.Scalar.int n subclass).typeName) := by
  have hscalar : Node.ofArgument g (.scalar (.int n subclass)) = Node.ofScalar (.int n subclass) := rfl
  rw [hscalar, Node.ofScalar, Double.ofInt?_eq]
  by_cases h : n.natAbs < 2 ^ 1024 - 2 ^ 970
  · rw [if_pos h, if_pos h]
  · rw [if_neg h, if_neg h]

/-- An integer as the content of a number node. -/
theorem decodeScalar?_int (n : ℤ) (subclass : Option Host.Subclass) : decodeScalar? .number (.int n subclass) =
    some (if n.natAbs < 2 ^ 1024 - 2 ^ 970 then .ok (.float (.ofInt n)) else .error .intTooLarge) := by
  rw [decodeScalar?, Double.ofInt?_eq]
  by_cases h : n.natAbs < 2 ^ 1024 - 2 ^ 970
  · rw [if_pos h, if_pos h]
  · rw [if_neg h, if_neg h]

theorem decode_int {n : ℤ} (subclass : Option Host.Subclass) (h : n.natAbs < 2 ^ 1024 - 2 ^ 970) :
    decode (tagged "number" (.scalar (.int n subclass))) = .ok (.float (.ofInt n)) :=
  decode_scalar rfl ((decodeScalar?_int n subclass).trans (congrArg some (if_pos h)))

theorem toValue_ofInt {n : ℤ} (h : n.natAbs < 2 ^ 1024 - 2 ^ 970) :
    (Node.number (.ofInt n)).toValue = tagged "number" (.float (.ofInt n)) := by
  have hfinite := Double.isFinite_ofInt_iff.mpr h
  rw [Node.toValue, numberContent]
  cases hword : numberWord? (.ofInt n) with
  | none => rfl
  | some word =>
    rcases numberWord?_cases hword with ⟨he, -⟩ | ⟨negative, he, -⟩ <;> rw [he] at hfinite
    · cases hfinite
    · simp [Double.infinity, Double.isFinite] at hfinite

/-- An integer is refused from the midpoint between the largest double and 2^1024 on. Any other is sent as the double
    nearest to it, which is also what a number node with the integer is read as, and every decimal notation of it with
    a fraction or an exponent. So a number that a script writes as an integer is received at its place. -/
theorem integer_becomes_nearest (g : Host.Graph) (n : ℤ) (subclass : Option Host.Subclass) :
    ((∃ refusal, Node.ofArgument g (.scalar (.int n subclass)) = .error refusal ∧
        (Failure.refused refusal).errorClass? = some .refusal) ↔ 2 ^ 1024 - 2 ^ 970 ≤ n.natAbs) ∧
    (n.natAbs < 2 ^ 1024 - 2 ^ 970 → ∃ d : Double,
      Node.ofArgument g (.scalar (.int n subclass)) = .ok (.number d) ∧
      (Node.number d).toValue = tagged "number" (.float d) ∧ d.IsNearest n ∧
      (∀ e : Double, e.position? = some (n : ℚ) → d.position? = some (n : ℚ)) ∧
      (∀ m ≤ n, ∀ subclass' e, Node.ofArgument g (.scalar (.int m subclass')) = .ok (.number e) →
        ∃ q r, e.position? = some q ∧ d.position? = some r ∧ q ≤ r) ∧
      decode (tagged "number" (.scalar (.int n subclass))) = .ok (.float d) ∧
      ∀ negative s, Spelled negative s n → ∀ limit, ∃ e, Json.read? limit s = some (.float e) ∧
        decode (tagged "number" (.ofJson (.float e))) = .ok (.float e) ∧
        (e = d ∨ n = 0 ∧ negative = true ∧ e.clearZeroSign = d)) ∧
    ∀ (d : Double) negative digits, d.isFinite = true → Json.compactDouble d = withSign negative digits →
      digits.IsDigits → ∃ k : ℤ, (∀ limit, Json.read? limit (Json.compactDouble d) = some (.int k)) ∧
        decode (tagged "number" (.ofJson (.int k))) = .ok (.float d.clearZeroSign) ∧
        d.clearZeroSign.position? = d.position? := by
  have hnearest := Double.isNearest_ofInt n
  refine ⟨?_, fun h => ⟨.ofInt n, ?_, toValue_ofInt h, hnearest, fun e he => hnearest.position?_eq_some he, ?_,
    decode_int subclass h, ?_⟩, ?_⟩
  · rw [ofArgument_int]
    constructor
    · rintro ⟨refusal, he, -⟩
      by_contra h
      rw [if_pos (Nat.lt_of_not_le h)] at he
      cases he
    · intro h
      exact ⟨_, if_neg (Nat.not_lt.mpr h), rfl⟩
  · rw [ofArgument_int, if_pos h]
  · intro m hm subclass' e he
    rw [ofArgument_int] at he
    split at he
    case isTrue =>
      obtain rfl := Node.number.inj (Except.ok.inj he)
      exact Double.position?_ofInt_le hm
    case isFalse => cases he
  · intro negative s hs limit
    obtain ⟨e, hread, he⟩ := hs.read limit
    exact ⟨e, hread, decode_scalar rfl rfl, he⟩
  · intro d negative digits hd hwrite hdigits
    obtain ⟨k, hread, hdecode⟩ := decode_compactDouble hd hwrite hdigits
    exact ⟨k, hread, hdecode, Double.position?_eq_iff.mpr (Double.clearZeroSign_idem d)⟩

/-- One more than 2^53 is half-way between two doubles and goes down, to the even one. -/
theorem halfway_goes_to_even : (2 ^ 53 + 1 : ℤ).natAbs < 2 ^ 1024 - 2 ^ 970 ∧
    Node.ofArgument .empty (.scalar (.int (2 ^ 53 + 1) none)) = .ok (.number (.ofInt (2 ^ 53))) ∧
    (Double.ofInt (2 ^ 53)).IsNearest (2 ^ 53 + 1 : ℤ) ∧
    decode (tagged "number" (.scalar (.int (2 ^ 53 + 1) none))) = .ok (.float (.ofInt (2 ^ 53))) ∧
    Json.read? 0 (.ofString "9007199254740993.0") = some (.float (.ofInt (2 ^ 53))) ∧
    Json.compactDouble (.ofInt (2 ^ 53)) = withSign false (.ofString "9007199254740992") ∧
    ∃ k : ℤ, decode (tagged "number" (.ofJson (.int k))) = .ok (.float (Double.ofInt (2 ^ 53)).clearZeroSign) := by
  have hsmall : (2 ^ 53 + 1 : ℤ).natAbs < 2 ^ 1024 - 2 ^ 970 := by decide +kernel
  have hdown : Double.ofInt (2 ^ 53 + 1) = Double.ofInt (2 ^ 53) := by decide +kernel
  have hdigits : Text.IsDigits (.ofString "9007199254740993") := List.all_eq_true.mp (by decide +kernel)
  have hspelled : Spelled false (.ofString "9007199254740993.0") (2 ^ 53 + 1 : ℤ) := by
    have hdecimal : Text.decimal (.ofString "90071992547409930") = 90071992547409930 := by decide +kernel
    have hvalue : Double.decimalValue false (Text.decimal (.ofString "90071992547409930")) (0 - 1) =
        (2 ^ 53 + 1 : ℤ) := by
      rw [hdecimal]
      norm_num [Double.decimalValue, Double.signFactor]
    rw [← hvalue]
    have hwhole : Text.IsWhole (.ofString "9007199254740993") := ⟨hdigits, by decide, by decide⟩
    have hfraction : Json.Grammar.Fraction (.ofString ".0") (.ofString "0") :=
      .point (by decide) (List.all_eq_true.mp rfl)
    exact .parts hwhole hfraction .none (by decide)
  have hwrite : Json.compactDouble (.ofInt (2 ^ 53)) = withSign false (.ofString "9007199254740992") := by
    decide +kernel
  have hwhole : Text.IsDigits (.ofString "9007199254740992") := List.all_eq_true.mp (by decide +kernel)
  obtain ⟨-, hsent, hwritten⟩ := integer_becomes_nearest .empty (2 ^ 53 + 1) none
  obtain ⟨d, hargument, -, hnearest, -, -, hdecode, hspells⟩ := hsent hsmall
  have hd : d = .ofInt (2 ^ 53) := by
    rw [ofArgument_int, if_pos hsmall, hdown] at hargument
    exact (Node.number.inj (Except.ok.inj hargument)).symm
  subst hd
  obtain ⟨e, hread, -, rfl | ⟨-, hsign, -⟩⟩ := hspells false _ hspelled 0
  · obtain ⟨k, -, hk, -⟩ := hwritten _ false _ (by decide +kernel) hwrite hwhole
    exact ⟨hsmall, hargument, hnearest, hdecode, hread, hwrite, k, hk⟩
  · cases hsign

end Wire

end ScriptLink
