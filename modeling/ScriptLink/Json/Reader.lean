import ScriptLink.Json.Value
import ScriptLink.Number.Rounding

/-! # Reading JSON

    The grammar is that of JSON with three more words: NaN, Infinity and -Infinity are numbers. A string holds no
    raw character below the space, and its escapes may spell surrogates: adjacent halves of a pair become one
    character. An integer has at most 4300 digits. Containers may be nested `nestingLimit` deep.

    Each reader takes a text and gives what it read with the rest of the text, or nothing. A container's loop is
    given the reader of its items, so that only the nesting is recursive. -/

namespace ScriptLink.Json

/-- The deepest nesting of arrays and objects that is read. -/
def nestingLimit : Nat := 991

/-- Space, tab, newline and return. -/
def isBlank (c : CodePoint) : Bool :=
  c = 0x20 || c = 0x09 || c = 0x0A || c = 0x0D

/-- The text without its leading blanks. -/
def skipBlanks (s : Text) : Text :=
  s.dropWhile isBlank

/-- The rest of a text that starts with the word. -/
def after? : (word s : Text) → Option Text
  | [], s => some s
  | _ :: _, [] => none
  | w :: word, c :: s => if w = c then after? word s else none

/-- Whether the code point is a decimal digit. -/
def isDigit (c : CodePoint) : Bool :=
  0x30 ≤ c.val && c.val ≤ 0x39

/-- The number that decimal digits spell. -/
def digitsValue (digits : Text) : Nat :=
  digits.foldl (fun n c => n * 10 + (c.val - 0x30)) 0

/-- The value of a hexadecimal digit of either case. -/
def hexValue? (c : CodePoint) : Option Nat :=
  if isDigit c then some (c.val - 0x30)
  else if 0x61 ≤ c.val ∧ c.val ≤ 0x66 then some (c.val - 0x57)
  else if 0x41 ≤ c.val ∧ c.val ≤ 0x46 then some (c.val - 0x37)
  else none

/-- The number that four hexadecimal digits spell. -/
def hex4? (a b c d : CodePoint) : Option Nat := do
  let a ← hexValue? a
  let b ← hexValue? b
  let c ← hexValue? c
  let d ← hexValue? d
  return ((a * 16 + b) * 16 + c) * 16 + d

/-- What a backslash and this character stand for. -/
def shortEscape? (c : CodePoint) : Option CodePoint :=
  if c = 0x22 ∨ c = 0x5C ∨ c = 0x2F then some c
  else if c = 0x62 then some 0x08
  else if c = 0x66 then some 0x0C
  else if c = 0x6E then some 0x0A
  else if c = 0x72 then some 0x0D
  else if c = 0x74 then some 0x09
  else none

/-- The rest of a string behind its opening quote; `done` holds the characters read so far in reverse. -/
def readString (done : Text) : Text → Option (Text × Text)
  | [] => none
  | c :: s =>
    if c = 0x22 then some (Text.join done.reverse, s)
    else if c = 0x5C then
      match s with
      | [] => none
      | e :: s =>
        if e = 0x75 then
          match s with
          | h₁ :: h₂ :: h₃ :: h₄ :: s =>
            match hex4? h₁ h₂ h₃ h₄ with
            | some n => readString (.ofNat n :: done) s
            | none => none
          | _ => none
        else
          match shortEscape? e with
          | some c => readString (c :: done) s
          | none => none
    else if c.val < 0x20 then none
    else readString (c :: done) s

/-- A fraction's digits, empty when there is no point; a point without digits is refused. -/
def readFraction (s : Text) : Option (Text × Text) :=
  match after? [0x2E] s with
  | some s =>
    let digits := s.takeWhile isDigit
    if digits = [] then none else some (digits, s.dropWhile isDigit)
  | none => some ([], s)

/-- An exponent, none when there is no mark; a mark without digits is refused. -/
def readExponent (s : Text) : Option (Option Int × Text) :=
  match s with
  | [] => some (none, [])
  | mark :: s' =>
    if mark = 0x65 ∨ mark = 0x45 then
      let negative := s'.head? = some 0x2D
      let unsigned := if negative ∨ s'.head? = some 0x2B then s'.drop 1 else s'
      let digits := unsigned.takeWhile isDigit
      if digits = [] then none
      else
        let n : Int := digitsValue digits
        some (some (if negative then -n else n), unsigned.dropWhile isDigit)
    else some (none, s)

/-- A number behind its sign. Without fraction and exponent it is an integer. -/
def readUnsigned (negative : Bool) (s : Text) : Option (Json × Text) := do
  let whole := s.takeWhile isDigit
  if whole = [] ∨ (whole.head? = some 0x30 ∧ whole.length ≠ 1) then none
  let (fraction, s) ← readFraction (s.dropWhile isDigit)
  let (exponent, s) ← readExponent s
  match fraction, exponent with
  | [], none =>
    if intDigitLimit < whole.length then none
    else
      let n : Int := digitsValue whole
      some (.int (if negative then -n else n), s)
  | _, _ =>
    some (.float (.ofDecimal negative (digitsValue (whole ++ fraction)) (exponent.getD 0 - fraction.length)), s)

/-- The words that stand for a value. -/
def words : List (Text × Json) :=
  [(.ofString "null", .null), (.ofString "true", .bool true), (.ofString "false", .bool false),
   (.ofString "NaN", .float .nan), (.ofString "Infinity", .float (.infinity false)),
   (.ofString "-Infinity", .float (.infinity true))]

/-- A value that is no container. -/
def readScalar (s : Text) : Option (Json × Text) :=
  match words.findSome? fun word => (after? word.1 s).map fun rest => (word.2, rest) with
  | some found => some found
  | none =>
    match s with
    | [] => none
    | c :: rest =>
      if c = 0x22 then (readString [] rest).map fun (t, rest) => (.text t, rest)
      else if c = 0x2D then readUnsigned true rest
      else readUnsigned false s

/-- The rest of an array that has an item to come; `done` holds the items read so far in reverse. The number bounds
    the items to come. -/
def readItems (item : Text → Option (Json × Text)) : Nat → List Json → Text → Option (List Json × Text)
  | 0, _, _ => none
  | bound + 1, done, s =>
    match item s with
    | none => none
    | some (value, s) =>
      match skipBlanks s with
      | [] => none
      | c :: s =>
        if c = 0x5D then some ((value :: done).reverse, s)
        else if c = 0x2C then readItems item bound (value :: done) (skipBlanks s)
        else none

/-- A name, a colon and a value. -/
def readMember (item : Text → Option (Json × Text)) (s : Text) : Option ((Text × Json) × Text) := do
  let s ← after? [0x22] s
  let (name, s) ← readString [] s
  let s ← after? [0x3A] (skipBlanks s)
  let (value, s) ← item (skipBlanks s)
  return ((name, value), s)

/-- The rest of an object that has a member to come, as `readItems` for arrays. -/
def readMembers (item : Text → Option (Json × Text)) : Nat → Members Json → Text → Option (Members Json × Text)
  | 0, _, _ => none
  | bound + 1, done, s =>
    match readMember item s with
    | none => none
    | some ((name, value), s) =>
      match skipBlanks s with
      | [] => none
      | c :: s =>
        if c = 0x7D then some (done.insert name value, s)
        else if c = 0x2C then readMembers item bound (done.insert name value) (skipBlanks s)
        else none

/-- A value with at most `room` containers nested in each other. -/
def readValue : (room : Nat) → Text → Option (Json × Text)
  | 0, s =>
    match s with
    | [] => none
    | c :: _ => if c = 0x5B ∨ c = 0x7B then none else readScalar s
  | room + 1, s =>
    match s with
    | [] => none
    | c :: rest =>
      if c = 0x5B then
        match after? [0x5D] (skipBlanks rest) with
        | some rest => some (.array [], rest)
        | none => (readItems (readValue room) rest.length [] (skipBlanks rest)).map fun (items, s) => (.array items, s)
      else if c = 0x7B then
        match after? [0x7D] (skipBlanks rest) with
        | some rest => some (.object [], rest)
        | none =>
          (readMembers (readValue room) rest.length [] (skipBlanks rest)).map fun (members, s) => (.object members, s)
      else readScalar s

/-- The value that a whole text spells, blanks around it allowed. -/
def read? (limit : Nat) (s : Text) : Option Json :=
  match readValue limit (skipBlanks s) with
  | some (value, rest) => if skipBlanks rest = [] then some value else none
  | none => none

end ScriptLink.Json
