import ScriptLink.Json.Value
import ScriptLink.Script.Conversion

/-! # From nodes to the script's values

    A request's arguments are nodes in JSON. Their objects and arrays are built in the context; a member with the name
    of the prototype sets it. Nothing checks the contents: what is no node goes as far as the operations on it go, and
    a scalar's content is taken as it stands, an object of the context outside.

    The elements of an array are pushed, the names of an object are listed, and a number is made of its word, by
    functions that scripts can replace: here they are the language's own. -/

namespace ScriptLink.Script

/-- The value of a JSON number in a script. -/
def numberOfInt (n : Int) : Value := .number (.ofInt n)

mutual

/-- A JSON value as an object of the context outside, or a primitive. -/
def importJson : Json → Run Value
  | .null => return .null
  | .bool b => return .boolean b
  | .int n => return numberOfInt n
  | .float d => return .number d
  | .text t => return .string t.toUnits
  | .array items => do Run.newArray .outerArrayPrototype (← importItems items)
  | .object members => do
    let properties ← importMembers members
    let o := properties.foldl (fun o property => o.define (Realm.ordinary (.name property.1) property.2))
      (⟨.plain, some Intrinsic.outerObjectPrototype.ref, []⟩ : Object)
    return .object (← Run.alloc o)

/-- The values of a JSON array. -/
def importItems : List Json → Run (List Value)
  | [] => return []
  | item :: rest => do return (← importJson item) :: (← importItems rest)

/-- The values of a JSON object, by name. -/
def importMembers : List (Text × Json) → Run (List (Units × Value))
  | [] => return []
  | (name, item) :: rest => do return (name.toUnits, ← importJson item) :: (← importMembers rest)

end

/-- The tags of nodes with a content. -/
inductive ContentTag where
  | scalar
  | number
  | array
  | object
deriving DecidableEq

/-- What the tag of a node asks for. -/
inductive Reading where
  | null
  | content (tag : ContentTag)
  | unknown

/-- What a tag asks for. -/
def Reading.ofTag : Option Json → Reading
  | some (.text t) =>
    if t = .ofString "null" then .null
    else if t = .ofString "boolean" ∨ t = .ofString "string" then .content .scalar
    else if t = .ofString "number" then .content .number
    else if t = .ofString "array" then .content .array
    else if t = .ofString "object" then .content .object
    else .unknown
  | _ => .unknown

/-- The error of a node with an unknown tag, whose text is part of the message. -/
def unknownTag (scripts : Scripts) (tag : Option Json) : Run Value := do
  let tag ← match tag with
    | none => pure .undefined
    | some tag => importJson tag
  let text ← textOf scripts callDepth tag
  Run.raise .typeError (Text.ofString "unknown value tag: " ++ text.toText)

/-- The error of an array node whose content has no items. -/
def notIterable : Run Value :=
  Run.raise .typeError (.ofString "node.v is not iterable")

/-- The error of an object node without a content. -/
def noObject : Run Value :=
  Run.raise .typeError (.ofString "Cannot convert undefined or null to object")

/-- The value of an array node, given the values of its items. -/
def decodedArray (items : List (Run Value)) : Run Value := do
  Run.newArray .arrayPrototype (← items.mapM id)

/-- The value of an object node, given the values of its members: they are read in the order of properties, and
    assigned one after the other. -/
def decodedObject (members : List (Units × Run Value)) : Run Value := do
  let ref ← Run.newObject .objectPrototype
  for name in inOrder (members.map Prod.fst) do
    match members.find? fun member => member.1 = name with
    | some member =>
      let v ← member.2
      modify fun r => r.assign ref (.name name) v
    | none => pure ()
  return .object ref

/-- The value of a node whose content is missing. -/
def decodedMissing : ContentTag → Run Value
  | .scalar | .number => return .undefined
  | .array => notIterable
  | .object => noObject

/-- A text in the place of a list of nodes: each character is a node without a tag. -/
def decodedCharacters (scripts : Scripts) (t : Text) : List (Run Value) :=
  t.map fun _ => unknownTag scripts none

mutual

/-- The value of a node. -/
def decode (scripts : Scripts) : Json → Run Value
  | .null => Run.raise .typeError (.ofString "Cannot read properties of null (reading 't')")
  | .object members =>
    match Reading.ofTag (Members.find? members (.ofString "t")) with
    | .null => return .null
    | .content tag => decodeContent scripts tag members
    | .unknown => unknownTag scripts (Members.find? members (.ofString "t"))
  | _ => unknownTag scripts none

/-- The value of a node from its members. -/
def decodeContent (scripts : Scripts) (tag : ContentTag) : List (Text × Json) → Run Value
  | [] => decodedMissing tag
  | (name, .array items) :: rest =>
    if name = .ofString "v" then
      match tag with
      | .scalar | .number => importJson (.array items)
      | .array => decodedArray (decodeItems scripts items)
      | .object =>
        decodedObject ((decodeItems scripts items).zipIdx.map fun (value, n) => (nameOfIndex n, value))
    else decodeContent scripts tag rest
  | (name, .object members) :: rest =>
    if name = .ofString "v" then
      match tag with
      | .scalar | .number => importJson (.object members)
      | .array => notIterable
      | .object => decodedObject (decodeMembers scripts members)
    else decodeContent scripts tag rest
  | (name, .text t) :: rest =>
    if name = .ofString "v" then
      match tag with
      | .scalar => return .string t.toUnits
      | .number => return .number (numberOf t.toUnits)
      | .array => decodedArray (decodedCharacters scripts t)
      | .object =>
        decodedObject ((decodedCharacters scripts (t.toUnits.map CodePoint.ofUnit)).zipIdx.map fun (value, n) =>
          (nameOfIndex n, value))
    else decodeContent scripts tag rest
  | (name, .null) :: rest =>
    if name = .ofString "v" then
      match tag with
      | .scalar | .number => return .null
      | .array => notIterable
      | .object => noObject
    else decodeContent scripts tag rest
  | (name, content) :: rest =>
    if name = .ofString "v" then
      match tag with
      | .scalar | .number => importJson content
      | .array => notIterable
      | .object => decodedObject []
    else decodeContent scripts tag rest

/-- The values of the nodes of an array, each still to be run. -/
def decodeItems (scripts : Scripts) : List Json → List (Run Value)
  | [] => []
  | item :: rest => decode scripts item :: decodeItems scripts rest

/-- The values of the nodes of an object by name, each still to be run. -/
def decodeMembers (scripts : Scripts) : List (Text × Json) → List (Units × Run Value)
  | [] => []
  | (name, item) :: rest => (name.toUnits, decode scripts item) :: decodeMembers scripts rest

end

end ScriptLink.Script
