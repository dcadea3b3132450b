import ScriptLink.Json.Value
import ScriptLink.Number.Layout

/-! # JSON in its shortest form

    Without blanks, and with numbers in the script's layout. Characters stand for themselves as far as they can:
    quotes, backslashes and control characters are escaped, and so are surrogates that stand alone. -/

namespace ScriptLink.Json

/-- A character inside a string. -/
def compactChar (c : CodePoint) : Text :=
  if c = 0x22 ∨ c = 0x5C then [0x5C, c]
  else if c = 0x08 then [0x5C, 0x62]
  else if c = 0x0C then [0x5C, 0x66]
  else if c = 0x0A then [0x5C, 0x6E]
  else if c = 0x0D then [0x5C, 0x72]
  else if c = 0x09 then [0x5C, 0x74]
  else if c.val < 0x20 ∨ c.IsHigh ∨ c.IsLow then [0x5C, 0x75] ++ Text.hex 4 c.val
  else [c]

/-- A string. -/
def compactString (t : Text) : Text :=
  0x22 :: t.flatMap compactChar ++ [0x22]

/-- A double; what is not finite has no form and is written as null. -/
def compactDouble (d : Double) : Text :=
  if d.isFinite then Layout.script.write d else .ofString "null"

/-- Texts between brackets, with a comma between each two. -/
def compactList (opening closing : CodePoint) (parts : List Text) : Text :=
  opening :: Text.intercalate [0x2C] parts ++ [closing]

mutual

/-- A value in its shortest form. -/
def compact : Json → Text
  | .null => .ofString "null"
  | .bool b => .ofString (if b then "true" else "false")
  | .int n => .ofInt n
  | .float d => compactDouble d
  | .text t => compactString t
  | .array items => compactList 0x5B 0x5D (compactItems items)
  | .object members => compactList 0x7B 0x7D (compactMembers members)

/-- The items of an array. -/
def compactItems : List Json → List Text
  | [] => []
  | item :: rest => compact item :: compactItems rest

/-- The members of an object. -/
def compactMembers : List (Text × Json) → List Text
  | [] => []
  | (name, item) :: rest => (compactString name ++ 0x3A :: compact item) :: compactMembers rest

end

end ScriptLink.Json
