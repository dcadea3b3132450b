import ScriptLink.Json.Value

/-! # The caller's values

    A value of the caller is a scalar, a sequence or a mapping. It is given as a tree: what it holds is spelled out
    in place, and a container met again inside itself is cut off there (`again`), as is one that lies too deep to be
    followed (`beyond`). Where sharing and cycles matter, that is for the arguments of a call, `Host.Graph` holds the
    containers by identity. -/

namespace ScriptLink.Host

/-- A class of numbers or sequences that refines one of the caller's own: its name, and the way its members show
    themselves where that differs. -/
structure Subclass where
  typeName : Text
  display : Option Text
deriving DecidableEq, Inhabited

/-- How a value holds text: as a plain string, as an object of a string subclass, or wrapped in an object that only
    behaves like a string. -/
inductive TextKind where
  | plain
  | subclass
  | wrapped
deriving DecidableEq, Inhabited

/-- What of a foreign object counts when it is compared with another value. -/
inductive Substance where
  /-- Nothing; the object is equal only to its like. -/
  | none
  /-- A number. -/
  | ratio (numerator : Int) (denominator : Nat)
  /-- A set of numbers. -/
  | set (members : List Int)
deriving DecidableEq, Inhabited

/-- An error that code of the caller raises: the name of its class, and its words. -/
structure Complaint where
  className : Text
  words : Text
deriving DecidableEq, Inhabited

/-- An object of a class that the link does not know. -/
structure Foreign where
  /-- The qualified name of the class. -/
  typeName : Text
  /-- The name by which messages about serialisation call the class. -/
  className : Text
  /-- The name by which messages about keys call the class. -/
  lowName : Text
  display : Text
  /-- The text of the object where it is itself a message. -/
  words : Text
  hashable : Bool
  substance : Substance
  /-- What the object raises where it has to show itself, if it does. -/
  complaint : Option Complaint
deriving DecidableEq, Inhabited

/-- A value without parts. -/
inductive Scalar where
  | none
  | bool (b : Bool)
  | int (n : Int) (subclass : Option Subclass)
  | float (d : Double) (subclass : Option Subclass)
  | text (t : Text) (kind : TextKind)
  | bytes (bs : List UInt8)
  /-- The marker that stands for a script value without an image here. -/
  | marker
  | foreign (object : Foreign)
deriving DecidableEq, Inhabited

/-- The kinds of sequences: lists, tuples, and records, which are tuples whose places have names. -/
inductive SequenceKind where
  | list
  | listSubclass (typeName : Text)
  | tuple
  | record (typeName : Text) (fields : List Text)
deriving DecidableEq, Inhabited

/-- The kinds of mappings. Of the first four the plain dictionary is the base class. -/
inductive MappingKind where
  | dict
  | ordered
  | defaulting
  | counting
  | wrapped
  | readOnly
  | chained
deriving DecidableEq, Inhabited

/-- What a container is, without its content. -/
inductive Shape where
  | sequence (kind : SequenceKind)
  | mapping (kind : MappingKind)
deriving DecidableEq, Inhabited

/-- A value of the caller. -/
inductive Value where
  | scalar (s : Scalar)
  | sequence (kind : SequenceKind) (items : List Value)
  | mapping (kind : MappingKind) (entries : List (Value × Value))
  /-- A container met again inside itself. -/
  | again (shape : Shape)
  /-- A container that lies deeper than anything is followed. -/
  | beyond (shape : Shape)
deriving Inhabited

/-- The name of the class of a scalar. -/
def Scalar.typeName : Scalar → Text
  | .none => .ofString "NoneType"
  | .bool _ => .ofString "bool"
  | .int _ (some subclass) => subclass.typeName
  | .int _ .none => .ofString "int"
  | .float _ (some subclass) => subclass.typeName
  | .float _ .none => .ofString "float"
  | .text _ .wrapped => .ofString "UserString"
  | .text _ _ => .ofString "str"
  | .bytes _ => .ofString "bytes"
  | .marker => .ofString "ComplexObject"
  | .foreign object => object.typeName

/-- The name of a kind of sequences. -/
def SequenceKind.typeName : SequenceKind → Text
  | .list => .ofString "list"
  | .listSubclass name => name
  | .tuple => .ofString "tuple"
  | .record name _ => name

/-- Whether the sequences of a kind are lists; the others are tuples. -/
def SequenceKind.isList : SequenceKind → Bool
  | .list | .listSubclass _ => true
  | .tuple | .record _ _ => false

/-- The name of a kind of mappings. -/
def MappingKind.typeName : MappingKind → Text
  | .dict => .ofString "dict"
  | .ordered => .ofString "OrderedDict"
  | .defaulting => .ofString "defaultdict"
  | .counting => .ofString "Counter"
  | .wrapped => .ofString "UserDict"
  | .readOnly => .ofString "mappingproxy"
  | .chained => .ofString "ChainMap"

/-- Whether the mappings of a kind are dictionaries; the others only behave like one. -/
def MappingKind.isDict : MappingKind → Bool
  | .dict | .ordered | .defaulting | .counting => true
  | .wrapped | .readOnly | .chained => false

/-- The name by which messages about keys call a kind of mappings. -/
def MappingKind.lowName : MappingKind → Text
  | .ordered => .ofString "collections.OrderedDict"
  | .defaulting => .ofString "collections.defaultdict"
  | kind => kind.typeName

/-- The name by which messages about keys call the class of a scalar. -/
def Scalar.lowName : Scalar → Text
  | .foreign object => object.lowName
  | s => s.typeName

/-- The name of the class of a container. -/
def Shape.typeName : Shape → Text
  | .sequence kind => kind.typeName
  | .mapping kind => kind.typeName

/-- Whether the containers of this shape notice that they are met again inside themselves. -/
def Shape.guards : Shape → Bool
  | .sequence (.record _ _) | .mapping .counting => false
  | _ => true

/-- Whether the containers of this shape have a form in JSON. -/
def Shape.hasForm : Shape → Bool
  | .sequence _ => true
  | .mapping kind => kind.isDict

/-- The name by which messages about keys call the class of a container. -/
def Shape.lowName : Shape → Text
  | .sequence kind => kind.typeName
  | .mapping kind => kind.lowName

namespace Value

/-- The value without anything in it. -/
def none : Value := .scalar .none

/-- A plain string. -/
def text (t : Text) : Value := .scalar (.text t .plain)

/-- A plain float. -/
def float (d : Double) : Value := .scalar (.float d .none)

/-- The name of the class of a value. -/
def typeName : Value → Text
  | .scalar s => s.typeName
  | .sequence kind _ => kind.typeName
  | .mapping kind _ => kind.typeName
  | .again shape | .beyond shape => shape.typeName

/-- The name by which messages about keys call the class of a value. -/
def lowName : Value → Text
  | .scalar s => s.lowName
  | .sequence kind _ => kind.typeName
  | .mapping kind _ => kind.lowName
  | .again shape | .beyond shape => shape.lowName

/-- The text of a value that is a string or behaves like one. -/
def likeText? : Value → Option Text
  | .scalar (.text t _) => some t
  | _ => Option.none

/-- The text of a value that is a string. -/
def text? : Value → Option Text
  | .scalar (.text t .plain) => some t
  | .scalar (.text t .subclass) => some t
  | _ => Option.none

mutual

/-- The class that keeps a value from being looked up as a key, if there is one: only tuples and records of the
    containers can be keys, and only as long as all their items can. -/
def unhashable? : Value → Option Text
  | .scalar (.foreign object) => if object.hashable then Option.none else some object.lowName
  | .scalar _ => Option.none
  | .sequence kind items => if kind.isList then some kind.typeName else firstUnhashable? items
  | .mapping kind _ => some kind.lowName
  | .again shape | .beyond shape => some shape.lowName

/-- The class of the first of these values that cannot be a key. -/
def firstUnhashable? : List Value → Option Text
  | [] => Option.none
  | item :: rest =>
    match item.unhashable? with
    | some typeName => some typeName
    | Option.none => firstUnhashable? rest

end

/-- Whether a condition on the value holds: nothing, false, zeros and whatever is empty do not. -/
def truthy : Value → Bool
  | .scalar .none => false
  | .scalar (.bool b) => b
  | .scalar (.int n _) => n != 0
  | .scalar (.float d _) => !d.isZero
  | .scalar (.text t _) => !t.isEmpty
  | .scalar (.bytes bs) => !bs.isEmpty
  | .scalar .marker => true
  | .scalar (.foreign object) =>
    match object.substance with
    | .none => true
    | .ratio numerator _ => numerator != 0
    | .set members => !members.isEmpty
  | .sequence _ items => !items.isEmpty
  | .mapping _ entries => !entries.isEmpty
  | .again _ | .beyond _ => true

end Value

/-- The value under a name in the entries of a mapping. -/
def lookup? {α : Type} (entries : List (Value × α)) (name : Text) : Option α :=
  (entries.find? fun entry => entry.1.likeText? = some name).map Prod.snd

mutual

/-- The value that a JSON value is read as. -/
def Value.ofJson : Json → Value
  | .null => .none
  | .bool b => .scalar (.bool b)
  | .int n => .scalar (.int n Option.none)
  | .float d => .float d
  | .text t => .text t
  | .array items => .sequence .list (ofJsonItems items)
  | .object members => .mapping .dict (ofJsonMembers members)

/-- The values of an array, in order. -/
def ofJsonItems : List Json → List Value
  | [] => []
  | item :: rest => Value.ofJson item :: ofJsonItems rest

/-- The entries of an object, in order. -/
def ofJsonMembers : List (Text × Json) → List (Value × Value)
  | [] => []
  | (name, value) :: rest => (.text name, Value.ofJson value) :: ofJsonMembers rest

end

end ScriptLink.Host
