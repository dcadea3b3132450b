import ScriptLink.Host.Display
import ScriptLink.Host.Graph
import ScriptLink.Wire.Node

/-! # From the caller's values to nodes

    A value is converted as a whole before anything is sent, and the first place in it that has no image refuses the
    whole, in the order in which the value would be read: an entry's key before its value. Containers that hold
    themselves are refused, and so is a container with `maxDepth` others around it. -/

namespace ScriptLink

/-- Why a value of the caller is refused. -/
inductive Refusal where
  /-- A value of a class without an image. -/
  | unsupported (typeName : Text)
  /-- An integer that no finite double is near enough to. -/
  | tooLarge (typeName : Text)
  | containsItself (typeName : Text)
  | tooDeep (typeName : Text)
  /-- A key that is no text. -/
  | badKey (display typeName : Text)
  /-- A key that is no text and that cannot even be shown. -/
  | unshownKey (reason : Host.Unshown)
  /-- A source or a name that is no text; `what` says which of the two. -/
  | notText (what typeName : Text)
deriving DecidableEq

/-- The wording of a refusal. -/
def Refusal.message : Refusal → Text
  | .unsupported typeName => .ofString "cannot convert " ++ typeName ++ .ofString " into a JavaScript value"
  | .tooLarge typeName => typeName ++ .ofString " is too large for a JavaScript number"
  | .containsItself typeName => typeName ++ .ofString " contains itself"
  | .tooDeep typeName =>
    typeName ++ .ofString " is nested deeper than " ++ .ofNat Wire.maxDepth ++ .ofString " levels"
  | .badKey display typeName =>
    .ofString "mapping keys must be strings, got " ++ display ++ .ofString " (" ++ typeName ++ .ofString ")"
  | .unshownKey reason => reason.message
  | .notText what typeName => what ++ .ofString " must be a string, got " ++ typeName

namespace Wire

/-- The node of a scalar. Truth values are no numbers here. -/
def Node.ofScalar (s : Host.Scalar) : Except Refusal Node :=
  match s with
  | .none => .ok .null
  | .bool b => .ok (.boolean b)
  | .int n _ =>
    match Double.ofInt? n with
    | some d => .ok (.number d)
    | none => .error (.tooLarge s.typeName)
  | .float d _ => .ok (.number d)
  | .text t _ => .ok (.string t)
  | .bytes _ | .marker | .foreign _ => .error (.unsupported s.typeName)

/-- The calls inside one another that the conversion takes until it reaches what a container holds. -/
def callsInto : Host.Object → Nat
  | .sequence _ _ => 3
  | .mapping _ _ => 2

/-- The calls that the stack still has room for inside the containers of a path. -/
def roomInside (g : Host.Graph) (path : List Nat) : Nat :=
  g.room - path.foldr (fun id calls => callsInto (g.object id) + calls) 0

theorem maxDepth_le_room (g : Host.Graph) : maxDepth ≤ g.room :=
  Nat.le_trans (by decide) g.roomy

/-- The name that a key gives to its entry, where the stack has room for `room` more calls. -/
def keyName (room : Nat) (key : Host.Value) : Except Refusal Text :=
  match key.likeText? with
  | some name => .ok name
  | none =>
    match key.unshown? room with
    | some reason => .error (.unshownKey reason)
    | none => .error (.badKey key.display key.typeName)

/-- The node of what stands in a place, below the containers of `path`; `room` is the number of containers that may
    still be entered. -/
def Node.ofItem (g : Host.Graph) : (room : Nat) → (path : List Nat) → Host.Item → Except Refusal Node
  | _, _, .scalar s => Node.ofScalar s
  | room, path, .object id =>
    if id ∈ path then .error (.containsItself (g.object id).typeName)
    else
      match room with
      | 0 => .error (.tooDeep (g.object id).typeName)
      | room + 1 =>
        match g.object id with
        | .sequence _ items => do
          let nodes ← items.mapM (Node.ofItem g room (id :: path))
          return .array nodes
        | .mapping _ entries => do
          let members ← entries.foldlM (fun (members : Members Node) entry => do
            let name ← keyName (roomInside g (id :: path)) entry.1
            let node ← Node.ofItem g room (id :: path) entry.2
            return members.insert name node) []
          return .object members

/-- The node of an argument. -/
def Node.ofArgument (g : Host.Graph) (item : Host.Item) : Except Refusal Node :=
  Node.ofItem g maxDepth [] item

end Wire

/-- The text of a source or a name; `what` says which of the two in the refusal. -/
def sourceText (g : Host.Graph) (what : Text) : Host.Item → Except Refusal Text
  | .scalar (.text t _) => .ok t
  | item => .error (.notText what (g.typeName item))

end ScriptLink
