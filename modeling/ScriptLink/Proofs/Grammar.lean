import Mathlib.Data.Nat.Digits.Defs
import ScriptLink.Json.Reader
import ScriptLink.Proofs.Rounded

/-! # The grammar of JSON

    Which texts stand for which values, told without a reader: every production is a constructor, and what it says of
    the value is all that is known of it. A decimal notation stands for the double nearest to the rational that it
    spells, and halves of a surrogate pair for one character where their escapes stand next to each other. The words
    NaN, Infinity and -Infinity are numbers too. `Derives` counts the containers around a value; more room derives no
    fewer texts. -/

namespace ScriptLink

namespace Text

/-- Texts of digits alone. -/
def IsDigits (t : Text) : Prop := ∀ c ∈ t, Json.isDigit c = true

/-- Texts that spell a whole number as JSON has it: without zeros in front. -/
structure IsWhole (t : Text) : Prop where
  isDigits : t.IsDigits
  ne_nil : t ≠ []
  zero : t.head? ≠ some 0x30 ∨ t.length = 1

/-- Texts without halves of surrogate pairs, as UTF-8 spells them. -/
def NoHalves (t : Text) : Prop := ∀ c ∈ t, ¬ c.IsHigh ∧ ¬ c.IsLow

/-- The number that digits spell in the decimal system. -/
def decimal (digits : Text) : ℕ :=
  Nat.ofDigits 10 (digits.reverse.map fun c => c.val - 0x30)

end Text

namespace Json.Grammar

/-! ### Strings -/

/-- A hexadecimal digit of either case and its value. -/
inductive HexDigit : CodePoint → ℕ → Prop
  | decimal {n : ℕ} (h : n < 10) : HexDigit (.ofNat (0x30 + n)) n
  | lower {n : ℕ} (h : n < 6) : HexDigit (.ofNat (0x61 + n)) (10 + n)
  | upper {n : ℕ} (h : n < 6) : HexDigit (.ofNat (0x41 + n)) (10 + n)

/-- A backslash, a `u` and four hexadecimal digits, with the number that they spell. -/
inductive UnitEscape : Text → ℕ → Prop
  | digits {a b c d : CodePoint} {i j k l : ℕ} (ha : HexDigit a i) (hb : HexDigit b j) (hc : HexDigit c k)
      (hd : HexDigit d l) : UnitEscape [0x5C, 0x75, a, b, c, d] (Nat.ofDigits 16 [l, k, j, i])

/-- What a character behind a backslash stands for. -/
inductive ShortEscape : CodePoint → CodePoint → Prop
  | quote : ShortEscape 0x22 0x22
  | backslash : ShortEscape 0x5C 0x5C
  | slash : ShortEscape 0x2F 0x2F
  | backspace : ShortEscape 0x62 0x08
  | formFeed : ShortEscape 0x66 0x0C
  | newline : ShortEscape 0x6E 0x0A
  | carriageReturn : ShortEscape 0x72 0x0D
  | tab : ShortEscape 0x74 0x09

/-- Whether a text goes on with the escape of the second half of a pair. -/
def LowFollows (s : Text) : Prop :=
  ∃ escape low rest, UnitEscape escape low ∧ 0xDC00 ≤ low ∧ low < 0xE000 ∧ s = escape ++ rest

/-- What stands between the quotes of a string, and the characters of the string. -/
inductive Characters : Text → Text → Prop
  | nil : Characters [] []
  | raw {c : CodePoint} {s t : Text} (hquote : c ≠ 0x22) (hslash : c ≠ 0x5C) (hcontrol : 0x20 ≤ c.val)
      (hscalar : ¬ c.IsHigh ∧ ¬ c.IsLow) (h : Characters s t) : Characters (c :: s) (c :: t)
  | short {e c : CodePoint} {s t : Text} (he : ShortEscape e c) (h : Characters s t) :
      Characters (0x5C :: e :: s) (c :: t)
  /-- An escape by itself, which may be that of a half: it is the first half of no pair. -/
  | unit {escape s t : Text} {n : ℕ} (he : UnitEscape escape n)
      (hlone : ¬ (0xD800 ≤ n ∧ n < 0xDC00 ∧ LowFollows s)) (h : Characters s t) :
      Characters (escape ++ s) (.ofNat n :: t)
  /-- The escapes of two halves of a pair. -/
  | pair {first second s t : Text} {high low : ℕ} (hfirst : UnitEscape first high) (hsecond : UnitEscape second low)
      (hhigh : 0xD800 ≤ high ∧ high < 0xDC00) (hlow : 0xDC00 ≤ low ∧ low < 0xE000) (h : Characters s t) :
      Characters (first ++ second ++ s) (.paired high low :: t)

/-! ### Numbers -/

/-- A point with digits behind it, or nothing; and the digits. -/
inductive Fraction : Text → Text → Prop
  | none : Fraction [] []
  | point {digits : Text} (hne : digits ≠ []) (hdigits : digits.IsDigits) : Fraction (0x2E :: digits) digits

/-- A mark with a sign or none and digits behind it, or nothing; and the number that is spelled. -/
inductive Exponent : Text → Option ℤ → Prop
  | none : Exponent [] none
  | unsigned {mark : CodePoint} {digits : Text} (hmark : mark = 0x65 ∨ mark = 0x45) (hne : digits ≠ [])
      (hdigits : digits.IsDigits) : Exponent (mark :: digits) (some digits.decimal)
  | plus {mark : CodePoint} {digits : Text} (hmark : mark = 0x65 ∨ mark = 0x45) (hne : digits ≠ [])
      (hdigits : digits.IsDigits) : Exponent (mark :: 0x2B :: digits) (some digits.decimal)
  | minus {mark : CodePoint} {digits : Text} (hmark : mark = 0x65 ∨ mark = 0x45) (hne : digits ≠ [])
      (hdigits : digits.IsDigits) : Exponent (mark :: 0x2D :: digits) (some (-digits.decimal))

/-- A text with a minus in front of it, or without. -/
def withSign (negative : Bool) (t : Text) : Text :=
  if negative then 0x2D :: t else t

/-- A number with a fraction or an exponent, and the rational that it spells. -/
inductive Spelled (negative : Bool) : Text → ℚ → Prop
  | parts {whole point digits mark : Text} {exponent : Option ℤ} (hwhole : whole.IsWhole)
      (hfraction : Fraction point digits) (hexponent : Exponent mark exponent) (hsome : point ++ mark ≠ []) :
      Spelled negative (withSign negative (whole ++ (point ++ mark)))
        (Double.decimalValue negative (whole ++ digits).decimal (exponent.getD 0 - digits.length))

/-- A number. Without fraction and exponent it is an integer of bounded length, otherwise the double of its sign that
    is nearest to the rational it spells. -/
inductive Number : Text → Json → Prop
  | int {whole : Text} (negative : Bool) (hwhole : whole.IsWhole) (hlength : whole.length ≤ 4300) :
      Number (withSign negative whole) (.int (if negative then -whole.decimal else whole.decimal))
  | float {negative : Bool} {s : Text} {q : ℚ} {magnitude : Magnitude} (hspelled : Spelled negative s q)
      (hnearest : (Double.signed negative magnitude).IsNearest q) : Number s (.float (.signed negative magnitude))

/-! ### Values -/

/-- The words that stand for a value. -/
inductive Word : Text → Json → Prop
  | null : Word (.ofString "null") .null
  | true : Word (.ofString "true") (.bool true)
  | false : Word (.ofString "false") (.bool false)
  | nan : Word (.ofString "NaN") (.float .nan)
  | infinity : Word (.ofString "Infinity") (.float (.infinity false))
  | minusInfinity : Word (.ofString "-Infinity") (.float (.infinity true))

/-- A value that is no container. -/
inductive Scalar : Text → Json → Prop
  | word {s : Text} {j : Json} (h : Word s j) : Scalar s j
  | number {s : Text} {j : Json} (h : Number s j) : Scalar s j
  | text {s t : Text} (h : Characters s t) : Scalar (0x22 :: s ++ [0x22]) (.text t)

/-- Blanks alone. -/
def Blanks (t : Text) : Prop := ∀ c ∈ t, isBlank c = true

/-- One or more parts with a comma between each two and blanks around each. -/
inductive Separated {α : Type} (part : Text → α → Prop) : Text → List α → Prop
  | last {before s after : Text} {a : α} (hbefore : Blanks before) (h : part s a) (hafter : Blanks after) :
      Separated part (before ++ s ++ after) [a]
  | cons {before s after rest : Text} {a : α} {as : List α} (hbefore : Blanks before) (h : part s a)
      (hafter : Blanks after) (hrest : Separated part rest as) :
      Separated part (before ++ s ++ after ++ 0x2C :: rest) (a :: as)

/-- A name, a colon and a value, with blanks around the colon. -/
inductive Member (value : Text → Json → Prop) : Text → Text × Json → Prop
  | named {characters name before after s : Text} {j : Json} (hname : Characters characters name)
      (hbefore : Blanks before) (hafter : Blanks after) (h : value s j) :
      Member value (0x22 :: characters ++ [0x22] ++ before ++ 0x3A :: after ++ s) (name, j)

/-- What members with repeated names come to: each name stands once, in the order of their first places, with the
    value of its last. -/
structure Merged (entries members : List (Text × Json)) : Prop where
  names : members.map Prod.fst = (entries.map Prod.fst).eraseDups
  last : ∀ member ∈ members, entries.reverse.find? (fun entry => entry.1 = member.1) = some member

/-- A value whose parts are derived as given. -/
inductive Layer (value : Text → Json → Prop) : Text → Json → Prop
  | scalar {s : Text} {j : Json} (h : Scalar s j) : Layer value s j
  | emptyArray {blanks : Text} (h : Blanks blanks) : Layer value (0x5B :: blanks ++ [0x5D]) (.array [])
  | array {s : Text} {items : List Json} (h : Separated value s items) :
      Layer value (0x5B :: s ++ [0x5D]) (.array items)
  | emptyObject {blanks : Text} (h : Blanks blanks) : Layer value (0x7B :: blanks ++ [0x7D]) (.object [])
  | object {s : Text} {entries members : List (Text × Json)} (h : Separated (Member value) s entries)
      (hmerged : Merged entries members) : Layer value (0x7B :: s ++ [0x7D]) (.object members)

end Grammar

open Grammar

/-- Whether a text stands for a value with at most `room` containers nested in each other. -/
def Derives : (room : ℕ) → Text → Json → Prop
  | 0 => Scalar
  | room + 1 => Layer (Derives room)

/-- Whether a text with blanks around it stands for a value. -/
def DerivesWhole (room : ℕ) (s : Text) (j : Json) : Prop :=
  ∃ before core after, Blanks before ∧ Blanks after ∧ s = before ++ core ++ after ∧ Derives room core j

end ScriptLink.Json
