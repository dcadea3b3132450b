import ScriptLink.Script.Conversion
import ScriptLink.Wire.Node

/-! # From the script's values to nodes

    Scalars, arrays and plain objects have an image; everything else becomes the complex node, and so does a container
    that stands inside itself or below `maxDepth` others. An object is plain when its tag says so. Only enumerable
    properties with names are read, one after the other; what a getter throws ends the conversion. -/

namespace ScriptLink.Script

/-- The name that leads to the prototype of an object instead of a property. -/
def prototypeName : Units := .ofString "__proto__"

/-- The members of an object that is built by assignment: an assignment to the prototype leaves no member. -/
def assignedMembers {α : Type} (members : List (Units × α)) : List (Units × α) :=
  members.filter fun member => member.1 ≠ prototypeName

/-- What the elements of an array or the properties of an object are, for the conversion. -/
inductive Parts where
  | elements (length : Nat)
  | members (names : List Units)
  /-- Neither array nor plain object. -/
  | opaqueObject

/-- Whether an object is an array, a plain object, or neither. -/
def Realm.partsOf (r : Realm) (ref : Ref) : Except Thrown Parts := do
  if ← r.isArray ref then return .elements (← r.lengthOf ref)
  if (← r.tagOf ref) = .ofString "Object" then return .members (← r.keys ref)
  return .opaqueObject

/-- The node of a value, below the containers of `path`; `room` is the number of containers that may still be
    entered. -/
def encodeWithin (r : Realm) : (room : Nat) → (path : List Ref) → Value → Except Thrown Wire.Node
  | _, _, .undefined | _, _, .null => .ok .null
  | _, _, .boolean b => .ok (.boolean b)
  | _, _, .number d => .ok (.number d)
  | _, _, .string us => .ok (.string us.toText)
  | _, _, .symbol _ | _, _, .bigint _ => .ok .complex
  | room, path, .object ref =>
    if r.callable ref ∨ ref ∈ path then .ok .complex
    else
      match room with
      | 0 => .ok .complex
      | room + 1 => do
        match ← r.partsOf ref with
        | .elements length =>
          let nodes ← (List.range length).mapM fun n => do
            encodeWithin r room (ref :: path) (← r.get ref (.name (nameOfIndex n)))
          return .array nodes
        | .members names =>
          let members ← names.mapM fun name => do
            let node ← encodeWithin r room (ref :: path) (← r.get ref (.name name))
            return (name, node)
          return .object ((assignedMembers members).map fun member => (member.1.toText, member.2))
        | .opaqueObject => return .complex

/-- The node of a value. -/
def encode (r : Realm) (v : Value) : Except Thrown Wire.Node :=
  encodeWithin r Wire.maxDepth [] v

end ScriptLink.Script
