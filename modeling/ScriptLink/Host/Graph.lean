import ScriptLink.Host.Value

/-! # Graphs of containers

    The arguments of a call are the caller's own objects: one container may stand in several places, and a container
    may hold itself. A graph numbers the containers; what stands in a place is a scalar or the number of a container.
    The keys of a mapping can hold no containers that change, so they are plain values. -/

namespace ScriptLink.Host

/-- What stands in a place: a scalar, or the container with this number. -/
inductive Item where
  | scalar (s : Scalar)
  | object (id : Nat)
deriving DecidableEq, Inhabited

/-- The text of what stands in a place, if it is a string or behaves like one. -/
def Item.likeText? : Item → Option Text
  | .scalar (.text t _) => some t
  | _ => none

/-- A container with its content. -/
inductive Object where
  | sequence (kind : SequenceKind) (items : List Item)
  | mapping (kind : MappingKind) (entries : List (Value × Item))
deriving Inhabited

/-- What a container is, without its content. -/
def Object.shape : Object → Shape
  | .sequence kind _ => .sequence kind
  | .mapping kind _ => .mapping kind

/-- The name of the class of a container. -/
def Object.typeName (object : Object) : Text :=
  object.shape.typeName

/-- The calls that the stack has room for, but for those of the conversion itself. -/
def standardRoom : Nat := 990

theorem standardRoom_suffices : 400 ≤ standardRoom := by decide

/-- The containers of a program, by number, and the calls that the stack of the program still has room for. These are
    always enough to walk through containers as deep as they are converted. -/
structure Graph where
  objects : Array Object
  room : Nat := standardRoom
  roomy : 400 ≤ room := by exact ScriptLink.Host.standardRoom_suffices

/-- No containers at all. -/
def Graph.empty : Graph := { objects := #[] }

instance : Inhabited Graph := ⟨.empty⟩

namespace Graph

/-- The container with a number; a number that is not in use stands for an empty list. -/
def object (g : Graph) (id : Nat) : Object :=
  g.objects[id]?.getD (.sequence .list [])

/-- The name of the class of what stands in a place. -/
def typeName (g : Graph) : Item → Text
  | .scalar s => s.typeName
  | .object id => (g.object id).typeName

/-- The entries of the mapping that stands in a place. -/
def entriesOf (g : Graph) : Item → Option (List (Value × Item))
  | .scalar _ => none
  | .object id =>
    match g.object id with
    | .sequence _ _ => none
    | .mapping _ entries => some entries

/-- The value that stands in a place, unfolded to the given depth. A container that stands on its own path is cut
    off, if it is of a kind that notices this. The others are followed until a container comes that does; `blind`
    holds those that were entered since the last one. -/
def unfold (g : Graph) : (depth : Nat) → (path blind : List Nat) → Item → Value
  | _, _, _, .scalar s => .scalar s
  | 0, _, _, .object id => .beyond (g.object id).shape
  | depth + 1, path, blind, .object id =>
    let object := g.object id
    let guards := object.shape.guards
    if id ∈ (if guards then path else blind) then .again object.shape
    else
      let below := if guards then g.unfold depth (id :: path) [] else g.unfold depth path (id :: blind)
      match object with
      | .sequence kind items => .sequence kind (items.map below)
      | .mapping kind entries => .mapping kind (entries.map fun entry => (entry.1, below entry.2))

/-- The value that stands in a place. Nothing is followed deeper than the stack has room for. -/
def value (g : Graph) (item : Item) : Value :=
  g.unfold g.room [] [] item

end Graph

end ScriptLink.Host
