import ScriptLink.Host.Value

/-! # Tagged nodes

    Every value that crosses the link is a node: a tag and, for most tags, a content. A node is written as a mapping
    of the tag under `t` and the content under `v`. Numbers that are not finite have no form of their own in JSON, so
    they travel as one of three words. -/

namespace ScriptLink.Wire

/-- The greatest number of containers that may stand inside each other on either side of the link. -/
def maxDepth : Nat := 100

/-- A tagged value. -/
inductive Node where
  | null
  | boolean (b : Bool)
  | number (d : Double)
  | string (t : Text)
  | array (items : List Node)
  | object (members : List (Text × Node))
  /-- A value that exists on the script's side and has no image on the other. -/
  | complex
deriving Inhabited

/-- The word under which a number that is not finite travels. -/
def numberWord? : Double → Option Text
  | .nan => some (.ofString "NaN")
  | .signed negative magnitude =>
    if magnitude.val = infinityCode then some (.ofString (if negative then "-Infinity" else "Infinity")) else none

/-- The number that a word stands for. -/
def numberOfWord? (word : Text) : Option Double :=
  if word = .ofString "NaN" then some .nan
  else if word = .ofString "Infinity" then some (.infinity false)
  else if word = .ofString "-Infinity" then some (.infinity true)
  else none

/-- A mapping of the tag alone. -/
def tagOnly (tag : String) : Host.Value :=
  .mapping .dict [(.text (.ofString "t"), .text (.ofString tag))]

/-- A mapping of the tag and the content. -/
def tagged (tag : String) (content : Host.Value) : Host.Value :=
  .mapping .dict [(.text (.ofString "t"), .text (.ofString tag)), (.text (.ofString "v"), content)]

/-- The content of a number node. -/
def numberContent (d : Double) : Host.Value :=
  match numberWord? d with
  | some word => .text word
  | none => .float d

mutual

/-- The mapping that a node is written as. -/
def Node.toValue : Node → Host.Value
  | .null => tagOnly "null"
  | .boolean b => tagged "boolean" (.scalar (.bool b))
  | .number d => tagged "number" (numberContent d)
  | .string t => tagged "string" (.text t)
  | .array items => tagged "array" (.sequence .list (itemsToValues items))
  | .object members => tagged "object" (.mapping .dict (membersToEntries members))
  | .complex => tagOnly "complex"

/-- The mappings of the nodes of an array. -/
def itemsToValues : List Node → List Host.Value
  | [] => []
  | item :: rest => item.toValue :: itemsToValues rest

/-- The entries of an object's members. -/
def membersToEntries : List (Text × Node) → List (Host.Value × Host.Value)
  | [] => []
  | (name, node) :: rest => (.text name, node.toValue) :: membersToEntries rest

end

end ScriptLink.Wire
