import ScriptLink.Script.Conversion

/-! # Sample functions

    Functions of scripts whose whole effect is known, so that contexts with functions can be described without
    sources. Each is a routine with a number; some hold a value that they were made with. -/

namespace ScriptLink.Script

/-- The sample functions. -/
inductive Sample where
  /-- Gives nothing. -/
  | empty
  | firstArgument
  /-- Gives all arguments, behind the values that it holds. -/
  | arguments
  | argumentCount
  /-- Whether the receiver is the global object. -/
  | receiverIsGlobal
  | returns
  | throws
  /-- Counts its calls in a global property. -/
  | counter
  | typeNames
  | keys
  | member
  /-- Whether its argument is an array, and whether arrays and objects are among its prototypes. -/
  | ancestry
  | hasNoPrototype
  | sameValue
  | strictlyEqual
  | units
  | text
  /-- Keeps its argument in a global property. -/
  | store
  | assignGlobal
  /-- A class, which cannot be called. -/
  | class_
  | async
  | generator
  | pair
  | wrap
deriving DecidableEq, Inhabited

namespace Sample

/-- All of them, in the order of their numbers. -/
def all : List Sample :=
  [empty, firstArgument, arguments, argumentCount, receiverIsGlobal, returns, throws, counter, typeNames, keys, member,
   ancestry, hasNoPrototype, sameValue, strictlyEqual, units, text, store, assignGlobal, class_, async, generator,
   pair, wrap]

/-- The number of a sample. -/
def number (s : Sample) : Nat := all.idxOf s

/-- The name that a function has as a property. -/
def functionName : Sample → String
  | class_ => "Thing"
  | _ => ""

/-- The text of a sample, which tells nothing of what it does. -/
def sourceText : Units := .ofString "function () \x7b\x7d"

/-- A sample as an object, with the values that it holds. -/
def object (s : Sample) (held : List Value) : Object where
  nature := .function (.scripted s.number held) sourceText
  prototype := some Intrinsic.functionPrototype.ref
  properties :=
    [Intrinsic.hidden "length" (.number .zero), Intrinsic.hidden "name" (.string (.ofString s.functionName))]

end Sample

/-- The word for the type of a value; arrays and null have words of their own. -/
def typeWord (r : Realm) : Value → String
  | .undefined => "undefined"
  | .null => "null"
  | .boolean _ => "boolean"
  | .number _ => "number"
  | .string _ => "string"
  | .symbol _ => "symbol"
  | .bigint _ => "bigint"
  | .object ref =>
    if r.callable ref then "function"
    else match r.isArray ref with
      | .ok true => "array"
      | _ => "object"

/-- Equality without conversions: numbers by value, everything else by identity. -/
def strictEqual : Value → Value → Bool
  | .number a, .number b => a.numEq b
  | a, b => a == b

/-- The prototype of the object that a value is or would be boxed in. -/
def prototypeOfValue (r : Realm) : Value → Option Ref
  | .object ref => r.prototype ref
  | .string _ => some Intrinsic.stringPrototype.ref
  | .number _ => some Intrinsic.numberPrototype.ref
  | .boolean _ => some Intrinsic.booleanPrototype.ref
  | .symbol _ => some Intrinsic.symbolPrototype.ref
  | .bigint _ => some Intrinsic.bigintPrototype.ref
  | .undefined | .null => none

/-- The error of undefined or null where an object is needed. -/
def needsObject {α : Type} : Run α :=
  Run.raise .typeError (.ofString "Cannot convert undefined or null to object")

/-- The names of the own enumerable properties of a value. -/
def keysOfValue : Value → Run (List Units)
  | .undefined | .null => needsObject
  | .object ref => Run.look (Realm.keys · ref)
  | .string us => return (List.range us.length).map nameOfIndex
  | _ => return []

/-- The error of reading a property of undefined or null. -/
def unreadable (word : String) (key : Units) : Run Value :=
  Run.raise .typeError
    (Text.ofString "Cannot read properties of " ++ .ofString word ++ .ofString " (reading '" ++ key.toText ++
      .ofString "')")

/-- The property of a value under a name. -/
def memberOfValue (v : Value) (key : Units) : Run Value := do
  match v with
  | .undefined => unreadable "undefined" key
  | .null => unreadable "null" key
  | .object ref => Run.look (Realm.get · ref (.name key))
  | .string us =>
    if key = lengthName then return .number (.ofInt us.length)
    match (indexOf? key).bind fun n => us[n]? with
    | some u => return .string [u]
    | none => Run.look (Realm.get · Intrinsic.stringPrototype.ref (.name key))
  | v =>
    match prototypeOfValue (← get) v with
    | some prototype => Run.look (Realm.get · prototype (.name key))
    | none => return .undefined

/-- A new array of the context. -/
def newList (elements : List Value) : Run Value := Run.newArray .arrayPrototype elements

/-- An assignment to a property of the global object. -/
def setGlobal (key : Units) (v : Value) : Run Unit :=
  modify fun r => r.assign Intrinsic.global.ref (.name key) v

/-- The property that counts the calls of the counter. -/
def callsName : Units := .ofString "calls"

namespace Sample

/-- What a sample gives for a receiver and arguments, with the values that it holds. -/
def call (scripts : Scripts) (s : Sample) (held : List Value) (receiver : Value) (args : List Value) : Run Value := do
  let a := args.getD 0 .undefined
  let b := args.getD 1 .undefined
  let v := held.getD 0 .undefined
  match s with
  | empty => return .undefined
  | firstArgument => return a
  | arguments => newList (held ++ args)
  | argumentCount => return .number (.ofInt args.length)
  | receiverIsGlobal => return .boolean (receiver == Intrinsic.global.value)
  | returns => return v
  | throws => throw (.value v)
  | counter =>
    let next : Double := match ← Run.look (Realm.get · Intrinsic.global.ref (.name callsName)) with
      | .number d => .ofInt (d.toInt?.getD 0 + 1)
      | _ => .ofInt 1
    setGlobal callsName (.number next)
    return .number next
  | typeNames =>
    let r ← get
    newList (args.map fun v => .string (.ofString (typeWord r v)))
  | keys => newList ((← keysOfValue a).map .string)
  | member => memberOfValue a (← textOf scripts callDepth b)
  | ancestry =>
    let r ← get
    let isArray ← match a with
      | .object ref => Run.look (Realm.isArray · ref)
      | _ => pure false
    let below (i : Intrinsic) : Bool := match a with
      | .object ref => (r.ancestors ref).contains i.ref
      | _ => false
    newList [.boolean isArray, .boolean (below .arrayPrototype), .boolean (below .objectPrototype)]
  | hasNoPrototype =>
    match a with
    | .undefined | .null => needsObject
    | a => return .boolean (prototypeOfValue (← get) a).isNone
  | sameValue => return .boolean (a == b)
  | strictlyEqual => return .boolean (strictEqual a b)
  | units =>
    match a with
    | .string us => newList (us.map fun u => .number (.ofInt u.val))
    | _ => newList []
  | text => return .string (← stringOf scripts a)
  | store =>
    setGlobal (.ofString "stored") a
    return .undefined
  | assignGlobal =>
    setGlobal (← textOf scripts callDepth a) b
    return b
  | class_ => Run.raise .typeError (.ofString "Class constructor Thing cannot be invoked without 'new'")
  | async => return .object (← Run.newObject .promisePrototype)
  | generator => return .object (← Run.newObject .generatorPrototype)
  | pair => newList [a, a]
  | wrap =>
    let list ← newList [a]
    let properties := [Realm.ordinary (.ofString "value") a, Realm.ordinary (.ofString "list") list]
    return .object (← Run.alloc ⟨.plain, some Intrinsic.objectPrototype.ref, properties⟩)

/-- Scripts whose functions are samples and whose sources do one and the same; a sample that asks for a text may
    call samples again, so many times in each other. The language's own functions give nothing here. -/
def scripts (evaluate : Text → Text → Run Value) : Nat → Scripts
  | 0 =>
    ⟨evaluate, fun _ _ _ _ => Run.raise .rangeError (.ofString "Maximum call stack size exceeded"),
      fun _ _ _ _ => return .undefined⟩
  | depth + 1 =>
    ⟨evaluate, fun number held receiver args =>
      call (scripts evaluate depth) (all.getD number .empty) held receiver args, fun _ _ _ _ => return .undefined⟩

end Sample

end ScriptLink.Script
