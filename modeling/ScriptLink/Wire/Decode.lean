import ScriptLink.Host.Display
import ScriptLink.Host.Graph
import ScriptLink.Number.Rounding
import ScriptLink.Wire.Node

/-! # From nodes to the caller's values

    A result comes from the peer and may be anything. It is read as a node where it has the shape of one: any mapping
    with a known tag and, where the tag asks for it, a content of the right class; further entries do no harm. Numbers
    become floats. The first part in reading order that is no node stops the reading. A node that the caller built
    may share parts and hold itself, so `decodeItem` reads it from the graph of its containers. -/

namespace ScriptLink

/-- Why a result cannot be read. -/
inductive Unreadable where
  /-- A part that is no node; `display` shows it. -/
  | unexpected (display : Text)
  /-- An integer that no finite double is near enough to. -/
  | intTooLarge
  /-- A container that stands inside itself, so that reading it has no end, or one that lies too deep. -/
  | endless
  /-- A part that is no node and that cannot even be shown. -/
  | unshown (reason : Host.Unshown)
deriving DecidableEq

/-- The wording of the reason. -/
def Unreadable.message : Unreadable → Text
  | .unexpected display => .ofString "unexpected value from the runtime: " ++ display
  | .intTooLarge => .ofString "int too large to convert to float"
  | .endless => .ofString "maximum recursion depth exceeded"
  | .unshown reason => reason.message

namespace Wire

/-- The tags of nodes that have a content. -/
inductive ContentTag where
  | boolean
  | number
  | string
  | array
  | object
deriving DecidableEq

/-- The tag with this name. -/
def ContentTag.ofName? (name : Text) : Option ContentTag :=
  if name = .ofString "boolean" then some .boolean
  else if name = .ofString "number" then some .number
  else if name = .ofString "string" then some .string
  else if name = .ofString "array" then some .array
  else if name = .ofString "object" then some .object
  else none

/-- The value of a node whose content is a scalar, if the tag takes such a content. -/
def decodeScalar? (tag : ContentTag) (content : Host.Scalar) : Option (Except Unreadable Host.Value) :=
  match tag, content with
  | .boolean, .bool b => some (.ok (.scalar (.bool b)))
  | .number, .text t .plain | .number, .text t .subclass => (numberOfWord? t).map fun d => .ok (.float d)
  | .number, .float d _ => some (.ok (.float d))
  | .number, .int n _ =>
    some (match Double.ofInt? n with
      | some d => .ok (.float d)
      | none => .error .intTooLarge)
  | .number, .bool b => some (.ok (.float (.ofInt (if b then 1 else 0))))
  | .string, .text t .plain => some (.ok (.text t))
  | .string, .text t .subclass => some (.ok (.scalar (.text t .subclass)))
  | _, _ => none

/-- What the tag of a mapping asks for. -/
inductive Reading where
  | done (value : Host.Value)
  | content (tag : ContentTag)
  | unknown

/-- What the tag of a mapping asks for, by its text if it has one. -/
def Reading.ofTag : Option Text → Reading
  | none => .unknown
  | some name =>
    if name = .ofString "null" then .done .none
    else if name = .ofString "complex" then .done (.scalar .marker)
    else
      match ContentTag.ofName? name with
      | some tag => .content tag
      | none => .unknown

mutual

/-- The caller's value of a result. -/
def decode : Host.Value → Except Unreadable Host.Value
  | .mapping kind entries =>
    match Reading.ofTag ((Host.lookup? entries (.ofString "t")).bind Host.Value.likeText?) with
    | .done value => .ok value
    | .content tag => (decodeContent tag entries).getD (.error (.unexpected (Host.Value.mapping kind entries).display))
    | .unknown => .error (.unexpected (Host.Value.mapping kind entries).display)
  | .again _ | .beyond _ => .error .endless
  | value => .error (.unexpected value.display)

/-- The value of a node from its entries, if they hold a content that the tag takes. -/
def decodeContent (tag : ContentTag) : List (Host.Value × Host.Value) → Option (Except Unreadable Host.Value)
  | [] => none
  | (key, .scalar content) :: rest =>
    if key.likeText? = some (.ofString "v") then decodeScalar? tag content else decodeContent tag rest
  | (key, .sequence kind items) :: rest =>
    if key.likeText? = some (.ofString "v") then
      if tag = .array ∧ kind.isList then some ((decodeItems items).map (.sequence .list)) else none
    else decodeContent tag rest
  | (key, .mapping kind entries) :: rest =>
    if key.likeText? = some (.ofString "v") then
      if tag = .object ∧ kind.isDict then some ((decodeEntries entries).map (.mapping .dict)) else none
    else decodeContent tag rest
  | (key, .again _) :: rest | (key, .beyond _) :: rest =>
    if key.likeText? = some (.ofString "v") then some (.error .endless) else decodeContent tag rest

/-- The values of the nodes of an array, up to the first that cannot be read. -/
def decodeItems : List Host.Value → Except Unreadable (List Host.Value)
  | [] => .ok []
  | item :: rest => do
    let value ← decode item
    let values ← decodeItems rest
    return value :: values

/-- The values of the nodes of an object under their keys, up to the first that cannot be read. -/
def decodeEntries : List (Host.Value × Host.Value) → Except Unreadable (List (Host.Value × Host.Value))
  | [] => .ok []
  | (key, item) :: rest => do
    let value ← decode item
    let values ← decodeEntries rest
    return (key, value) :: values

end

/-- The reading stopped by what stands in a place, which is no node, where the stack has room for `room` more calls. -/
def stopAt (g : Host.Graph) (room : Nat) (item : Host.Item) : Except Unreadable Host.Value :=
  let part := g.value item
  match part.unshown? room with
  | none => .error (.unexpected part.display)
  | some reason => .error (.unshown reason)

/-- The caller's value of the node that stands in a place, where the stack has room for `room` more calls: one for the
    node, and one for the loop over what it holds. -/
def decodeItemWithin (g : Host.Graph) : (room : Nat) → Host.Item → Except Unreadable Host.Value
  | 0, _ | 1, _ => .error .endless
  | room + 2, item =>
    match g.entriesOf item with
    | none => stopAt g (room + 1) item
    | some entries =>
      match Reading.ofTag ((Host.lookup? entries (.ofString "t")).bind Host.Item.likeText?) with
      | .done value => .ok value
      | .unknown => stopAt g (room + 1) item
      | .content tag =>
        match tag, Host.lookup? entries (.ofString "v") with
        | _, none => stopAt g (room + 1) item
        | tag, some (.scalar content) => (decodeScalar? tag content).getD (stopAt g (room + 1) item)
        | tag, some (.object id) =>
          match tag, g.object id with
          | .array, .sequence kind items =>
            if kind.isList then (items.mapM (decodeItemWithin g room)).map (.sequence .list)
            else stopAt g (room + 1) item
          | .object, .mapping kind members =>
            if kind.isDict then
              (members.mapM fun member => (decodeItemWithin g room member.2).map fun value => (member.1, value)).map
                (.mapping .dict)
            else stopAt g (room + 1) item
          | _, _ => stopAt g (room + 1) item

/-- The caller's value of the node that stands in a place. -/
def decodeItem (g : Host.Graph) (item : Host.Item) : Except Unreadable Host.Value :=
  decodeItemWithin g g.room item

end Wire

end ScriptLink
