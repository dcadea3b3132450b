import ScriptLink.Error.Script
import ScriptLink.Text.Units

/-! # The script's values

    A value of a script is a primitive or a reference to an object. The objects of a context stand in its realm, by
    number, so that they can be shared and can form cycles. Nothing runs here when a property is read: a getter is
    given by what it returns or throws. What scripts and their functions do is left to `Scripts`. -/

namespace ScriptLink.Script

/-- The number of an object. -/
abbrev Ref := Nat

/-- Symbols: the two that conversions look for, and those that scripts make. -/
inductive Symbol where
  | toStringTag
  | toPrimitive
  | described (description : Option Units)
deriving DecidableEq, Inhabited

/-- A value of a script. -/
inductive Value where
  | undefined
  | null
  | boolean (b : Bool)
  | number (d : Double)
  | string (us : Units)
  | symbol (s : Symbol)
  | bigint (n : Int)
  | object (ref : Ref)
deriving DecidableEq, Inhabited

/-- What is thrown: a value by a script, or an error by the engine that executes it. -/
inductive Thrown where
  | value (v : Value)
  | native (kind : ScriptErrorKind) (message : Text)
deriving DecidableEq, Inhabited

/-- The key of a property. -/
inductive Key where
  | name (us : Units)
  | symbol (s : Symbol)
deriving DecidableEq, Inhabited

/-- The key with this name. -/
def Key.ofString (s : String) : Key := .name (.ofString s)

/-- What stands behind a property. -/
inductive Slot where
  | value (v : Value)
  | getter (result : Except Thrown Value)
  /-- The prototype of the object itself: reading gives it, and assigning an object or null sets it. -/
  | ownPrototype
  /-- The tag of arrays of numbers, which only they have. -/
  | numericTag
deriving Inhabited

/-- A property of an object. -/
structure Property where
  key : Key
  slot : Slot
  enumerable : Bool
  writable : Bool
  configurable : Bool
deriving Inhabited

/-- The functions of the language itself, as far as conversions call them. -/
inductive Native where
  | objectToString
  | objectValueOf
  | arrayToString
  | arrayJoin
  | errorToString
  | functionToString
  | functionApply
  | regexpToString
  | dateToString
  | boxedToString
  | boxedValueOf
  /-- Any other, by its name and what holds it; what it does is left to `Scripts`. -/
  | library (owner name : String)
deriving DecidableEq, Inhabited

/-- What a function does: a native one, or one that a script made, with the values that it holds. -/
inductive Routine where
  | native (n : Native)
  | scripted (number : Nat) (held : List Value)
deriving DecidableEq, Inhabited

/-- What kind of thing an object is, whatever its properties say. -/
inductive Nature where
  | plain
  | array (length : Nat)
  /-- A function, with its text. -/
  | function (routine : Routine) (text : Units)
  | error
  /-- A primitive as an object. -/
  | boxed (v : Value)
  /-- A date, with its text. -/
  | date (text : Units)
  /-- A regular expression, with its text. -/
  | regexp (text : Units)
  | arguments
  /-- An array of numbers of a fixed width. -/
  | numericArray (length : Nat)
  /-- A proxy without traps, or a revoked one. -/
  | proxy (target : Option Ref)
deriving DecidableEq, Inhabited

/-- An object. -/
structure Object where
  nature : Nature
  prototype : Option Ref
  /-- The own properties, in the order in which they were made. -/
  properties : List Property
deriving Inhabited

/-- The objects of a context, the variables of its scripts, and the arrays that are being written as text. -/
structure Realm where
  objects : Array Object
  /-- The names that scripts declared without making properties of the global object. -/
  bindings : List (Units × Value)
  joining : List Ref
deriving Inhabited

/-- The object with a number; a number that is not in use stands for an object without anything. -/
def Realm.object (r : Realm) (ref : Ref) : Object :=
  r.objects[ref]?.getD ⟨.plain, none, []⟩

/-- The realm with one more object, and its number. -/
def Realm.add (r : Realm) (o : Object) : Ref × Realm :=
  (r.objects.size, { r with objects := r.objects.push o })

/-- The realm with an object changed. -/
def Realm.update (r : Realm) (ref : Ref) (f : Object → Object) : Realm :=
  { r with objects := r.objects.modify ref f }

end ScriptLink.Script
