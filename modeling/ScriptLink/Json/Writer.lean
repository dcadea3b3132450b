import ScriptLink.Host.Value
import ScriptLink.Number.Layout
import ScriptLink.Text.Units

/-! # Writing JSON

    A value of the caller in JSON, in ASCII alone: every other character is escaped, one above 0xFFFF as two halves.
    Only plain containers and their subclasses can be written; keys that are numbers, truth values or nothing are
    written as text. Numbers that are not finite and integers of too many digits have no form. -/

namespace ScriptLink

/-- Why a value cannot be written. -/
inductive Unwritable where
  | notFinite
  /-- An integer with more digits than are ever written. -/
  | tooLong
  /-- A value of a class without a form. -/
  | noForm (className : Text)
  /-- A key of a class that gives no text. -/
  | badKey (className : Text)
  /-- A container that stands inside itself. -/
  | circular
  /-- Containers inside one another beyond every measure. -/
  | tooDeep
deriving DecidableEq

/-- The wording of the reason. -/
def Unwritable.message : Unwritable → Text
  | .notFinite => .ofString "Out of range float values are not JSON compliant"
  | .tooLong => Json.tooLongMessage
  | .noForm className => .ofString "Object of type " ++ className ++ .ofString " is not JSON serializable"
  | .badKey className => .ofString "keys must be str, int, float, bool or None, not " ++ className
  | .circular => .ofString "Circular reference detected"
  | .tooDeep => .ofString "maximum recursion depth exceeded while encoding a JSON object"

namespace Json

/-- A 16-bit number as an escape. -/
def unitEscape (n : Nat) : Text :=
  [0x5C, 0x75] ++ Text.hex 4 n

/-- A character inside a string. -/
def escapeChar (c : CodePoint) : Text :=
  if c = 0x22 ∨ c = 0x5C then [0x5C, c]
  else if c = 0x08 then [0x5C, 0x62]
  else if c = 0x0C then [0x5C, 0x66]
  else if c = 0x0A then [0x5C, 0x6E]
  else if c = 0x0D then [0x5C, 0x72]
  else if c = 0x09 then [0x5C, 0x74]
  else if 0x20 ≤ c.val ∧ c.val < 0x7F then [c]
  else (CodePoint.toUnits c).flatMap fun unit => unitEscape unit.val

/-- A string. -/
def writeString (t : Text) : Text :=
  0x22 :: t.flatMap escapeChar ++ [0x22]

/-- A double, with its shortest digits. -/
def writeDouble (d : Double) : Except Unwritable Text :=
  if d.isFinite then .ok (Layout.host.write d) else .error .notFinite

/-- An integer, with all its digits. -/
def writeInt (n : Int) : Except Unwritable Text :=
  if isTooLong n then .error .tooLong else .ok (.ofInt n)

/-- The word for a truth value. -/
def boolWord (b : Bool) : Text :=
  .ofString (if b then "true" else "false")

/-- The word for a value with nothing in it. -/
def nullWord : Text :=
  .ofString "null"

/-- A value without parts. -/
def writeScalar : Host.Scalar → Except Unwritable Text
  | .none => .ok nullWord
  | .bool b => .ok (boolWord b)
  | .int n _ => writeInt n
  | .float d _ => writeDouble d
  | .text t .plain | .text t .subclass => .ok (writeString t)
  | .text t .wrapped => .error (.noForm (Host.Scalar.text t .wrapped).typeName)
  | .bytes bs => .error (.noForm (Host.Scalar.bytes bs).typeName)
  | .marker => .error (.noForm Host.Scalar.marker.typeName)
  | .foreign unknown => .error (.noForm unknown.className)

/-- The text that a key is written as. -/
def keyText : Host.Value → Except Unwritable Text
  | .scalar .none => .ok nullWord
  | .scalar (.bool b) => .ok (boolWord b)
  | .scalar (.int n _) => writeInt n
  | .scalar (.float d _) => writeDouble d
  | .scalar (.text t .plain) | .scalar (.text t .subclass) => .ok t
  | key => .error (.badKey key.lowName)

/-- Texts between brackets, with a comma and a space between each two. -/
def bracketed (opening closing : CodePoint) (parts : List Text) : Text :=
  opening :: Text.intercalate [0x2C, 0x20] parts ++ [closing]

mutual

/-- A value in JSON. -/
def write : Host.Value → Except Unwritable Text
  | .scalar s => writeScalar s
  | .sequence _ items => (writeItems items).map (bracketed 0x5B 0x5D)
  | .mapping kind entries =>
    if kind.isDict then (writeEntries entries).map (bracketed 0x7B 0x7D) else .error (.noForm kind.typeName)
  | .again shape => .error (if shape.hasForm then .circular else .noForm shape.typeName)
  | .beyond shape => .error (if shape.hasForm then .tooDeep else .noForm shape.typeName)

/-- The items of a sequence, up to the first that cannot be written. -/
def writeItems : List Host.Value → Except Unwritable (List Text)
  | [] => .ok []
  | item :: rest => do
    let text ← write item
    let texts ← writeItems rest
    return text :: texts

/-- The entries of a mapping with their keys, up to the first that cannot be written. -/
def writeEntries : List (Host.Value × Host.Value) → Except Unwritable (List Text)
  | [] => .ok []
  | (key, value) :: rest => do
    let name ← keyText key
    let text ← write value
    let texts ← writeEntries rest
    return (writeString name ++ [0x3A, 0x20] ++ text) :: texts

end

end Json

end ScriptLink
