import ScriptLink.Script.Value

/-! # Properties

    Reading goes from an object along its prototypes, and through proxies to their targets. The names of an object
    come in a fixed order: array indices first, by their number, then all others as they were made. Assigning makes
    an own property, unless something on the way along the prototypes decides otherwise. -/

namespace ScriptLink.Script

/-- The greatest array index. -/
def maxIndex : Nat := 4294967294

/-- The number of an array index in its usual digits. -/
def indexOf? (name : Units) : Option Nat :=
  let digits := name.all fun u => 0x30 ≤ u.val && u.val ≤ 0x39
  let value := name.foldl (fun n u => n * 10 + (u.val - 0x30)) 0
  if name ≠ [] ∧ digits ∧ (name.head? ≠ some 0x30 ∨ name.length = 1) ∧ value ≤ maxIndex then some value else none

/-- The name of an array index. -/
def nameOfIndex (n : Nat) : Units := .ofString (toString n)

/-- Names in the order of properties: indices by their number, then the others as they come. -/
def inOrder (names : List Units) : List Units :=
  (names.filter fun name => (indexOf? name).isSome).mergeSort (fun a b => (indexOf? a).getD 0 ≤ (indexOf? b).getD 0) ++
    names.filter fun name => (indexOf? name).isNone

/-- The name of the length of arrays. -/
def lengthName : Units := .ofString "length"

/-- The own property under a key. The length of an array is a property like any other. -/
def Object.own? (o : Object) (key : Key) : Option Property :=
  let length (n : Nat) : Property := ⟨.name lengthName, .value (.number (.ofInt n)), false, true, false⟩
  match o.nature with
  | .array n | .numericArray n =>
    if key = .name lengthName then some (length n) else o.properties.find? fun property => property.key = key
  | _ => o.properties.find? fun property => property.key = key

/-- The names of the own enumerable properties, in order. -/
def Object.enumerableNames (o : Object) : List Units :=
  inOrder (o.properties.filterMap fun property =>
    match property.key with
    | .name name => if property.enumerable then some name else none
    | .symbol _ => none)

/-- The object with an own property, in place of the one under the same key. -/
def Object.define (o : Object) (property : Property) : Object :=
  if o.properties.any fun old => old.key = property.key then
    { o with properties := o.properties.map fun old => if old.key = property.key then property else old }
  else { o with properties := o.properties ++ [property] }

/-- The error of an operation on a revoked proxy. -/
def revoked (operation : String) : Thrown :=
  .native .typeError
    (.ofString "Cannot perform '" ++ .ofString operation ++ .ofString "' on a proxy that has been revoked")

namespace Realm

/-- More steps than any way through prototypes and proxies has that does not come back. -/
def steps (r : Realm) : Nat := r.objects.size + 1

/-- The object that has a property under a key, on the way along the prototypes, with the property. -/
def findFrom (r : Realm) (key : Key) : Nat → Ref → Except Thrown (Option (Ref × Property))
  | 0, _ => .ok none
  | steps + 1, ref =>
    let o := r.object ref
    match o.nature with
    | .proxy none => .error (revoked "get")
    | .proxy (some target) => r.findFrom key steps target
    | _ =>
      match o.own? key with
      | some property => .ok (some (ref, property))
      | none =>
        match o.prototype with
        | some prototype => r.findFrom key steps prototype
        | none => .ok none

/-- The object that has a property under a key, on the way from an object along its prototypes. -/
def find (r : Realm) (ref : Ref) (key : Key) : Except Thrown (Option (Ref × Property)) :=
  r.findFrom key r.steps ref

/-- The prototype of an object, or of the target of a proxy. -/
def prototypeFrom (r : Realm) : Nat → Ref → Option Ref
  | 0, _ => none
  | steps + 1, ref =>
    match (r.object ref).nature with
    | .proxy target => target.bind (r.prototypeFrom steps)
    | _ => (r.object ref).prototype

/-- The prototype of an object. -/
def prototype (r : Realm) (ref : Ref) : Option Ref := r.prototypeFrom r.steps ref

/-- What a slot gives to the object whose property is read. -/
def read (r : Realm) (receiver : Ref) : Slot → Except Thrown Value
  | .value v => .ok v
  | .getter result => result
  | .ownPrototype => .ok ((r.prototype receiver).elim .null .object)
  | .numericTag =>
    match (r.object receiver).nature with
    | .numericArray _ => .ok (.string (.ofString "Uint8Array"))
    | _ => .ok .undefined

/-- The value of a property; it is undefined where there is none. -/
def get (r : Realm) (ref : Ref) (key : Key) : Except Thrown Value :=
  match r.find ref key with
  | .error thrown => .error thrown
  | .ok none => .ok .undefined
  | .ok (some (_, property)) => r.read ref property.slot

/-- Whether there is a property under a key. -/
def has (r : Realm) (ref : Ref) (key : Key) : Except Thrown Bool :=
  (r.find ref key).map Option.isSome

/-- Whether an object is an array or a proxy of one. -/
def isArrayFrom (r : Realm) : Nat → Ref → Except Thrown Bool
  | 0, _ => .ok false
  | steps + 1, ref =>
    match (r.object ref).nature with
    | .array _ => .ok true
    | .proxy none => .error (revoked "IsArray")
    | .proxy (some target) => r.isArrayFrom steps target
    | _ => .ok false

/-- Whether an object is an array or a proxy of one. -/
def isArray (r : Realm) (ref : Ref) : Except Thrown Bool := r.isArrayFrom r.steps ref

/-- What an object does when it is called, a proxy through its target. -/
def routineFrom? (r : Realm) : Nat → Ref → Option (Ref × Routine)
  | 0, _ => none
  | steps + 1, ref =>
    match (r.object ref).nature with
    | .function routine _ => some (ref, routine)
    | .proxy target => target.bind (r.routineFrom? steps)
    | _ => none

/-- The function that an object is, with what it does, if it can be called. -/
def routine? (r : Realm) (ref : Ref) : Option (Ref × Routine) := r.routineFrom? r.steps ref

/-- Whether an object can be called. -/
def callable (r : Realm) (ref : Ref) : Bool := (r.routine? ref).isSome

/-- The names of the own enumerable properties of an object, or of the target of a proxy. -/
def keysFrom (r : Realm) : Nat → Ref → Except Thrown (List Units)
  | 0, _ => .ok []
  | steps + 1, ref =>
    match (r.object ref).nature with
    | .proxy none => .error (revoked "ownKeys")
    | .proxy (some target) => r.keysFrom steps target
    | _ => .ok (r.object ref).enumerableNames

/-- The names of the own enumerable properties, in order. -/
def keys (r : Realm) (ref : Ref) : Except Thrown (List Units) := r.keysFrom r.steps ref

/-- The number of elements of an array, or of what is used like one: then the number under the name of the length. -/
def lengthOf (r : Realm) (ref : Ref) : Except Thrown Nat :=
  match (r.object ref).nature with
  | .array n => .ok n
  | _ =>
    (r.get ref (.name lengthName)).map fun length =>
      match length with
      | .number d => (d.toInt?.getD 0).toNat
      | _ => 0

/-- The objects on the way along the prototypes of an object, in order. -/
def ancestorsFrom (r : Realm) : Nat → Ref → List Ref
  | 0, _ => []
  | steps + 1, ref =>
    match r.prototype ref with
    | some prototype => prototype :: r.ancestorsFrom steps prototype
    | none => []

/-- The prototypes of an object, the nearest first. -/
def ancestors (r : Realm) (ref : Ref) : List Ref := r.ancestorsFrom r.steps ref

/-- The realm with the prototype of an object set to an object or to nothing. Other values, and an object below this
    one, are ignored. -/
def setPrototype (r : Realm) (ref : Ref) : Value → Realm
  | .null => r.update ref fun o => { o with prototype := none }
  | .object prototype =>
    if prototype = ref ∨ ref ∈ r.ancestors prototype then r
    else r.update ref fun o => { o with prototype := some prototype }
  | _ => r

/-- The realm with an own property of an object. -/
def define (r : Realm) (ref : Ref) (property : Property) : Realm :=
  r.update ref fun o => o.define property

/-- A property like those that an assignment makes. -/
def ordinary (key : Key) (v : Value) : Property := ⟨key, .value v, true, true, true⟩

/-- The realm after an assignment to a property. What has no setter or may not be written keeps its value. -/
def assign (r : Realm) (ref : Ref) (key : Key) (v : Value) : Realm :=
  match r.find ref key with
  | .error _ => r
  | .ok none => r.define ref (ordinary key v)
  | .ok (some (owner, property)) =>
    match property.slot with
    | .value _ =>
      if !property.writable then r
      else if owner = ref then r.define ref { property with slot := .value v }
      else r.define ref (ordinary key v)
    | .ownPrototype => r.setPrototype ref v
    | .getter _ | .numericTag => r

/-- The realm without an own property of an object, if it may be deleted. -/
def delete (r : Realm) (ref : Ref) (key : Key) : Realm :=
  r.update ref fun o =>
    { o with properties := o.properties.filter fun property => property.key ≠ key ∨ !property.configurable }

end Realm

end ScriptLink.Script
