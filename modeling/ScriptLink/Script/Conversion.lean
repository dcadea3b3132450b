import ScriptLink.Number.Layout
import ScriptLink.Script.Intrinsic

/-! # Values as text

    Every value can be asked for its text, and objects answer through functions of theirs, which may be a script's:
    they may throw, change the realm, and call for further texts. Such calls are nested `callDepth` deep at most. -/

namespace ScriptLink.Script

/-- A piece of a script's execution: it may throw, and it may change the realm. -/
abbrev Run := ExceptT Thrown (StateM Realm)

/-- What scripts do: their sources, the functions that they made, and the functions of the language that they come to
    call. None of these is looked into. -/
structure Scripts where
  /-- The value of a source; the other text is its name. -/
  evaluate : (code sourceName : Text) → Run Value
  /-- What a function gives for a receiver and arguments. -/
  call : (number : Nat) → (held : List Value) → (receiver : Value) → (arguments : List Value) → Run Value
  /-- What a function of the language gives that no conversion calls by itself. -/
  builtin : (owner name : String) → (receiver : Value) → (arguments : List Value) → Run Value

/-- How many calls may be nested in each other. -/
def callDepth : Nat := 20000

namespace Run

/-- What can be read off the realm, or what reading it throws. -/
def look {α : Type} (f : Realm → Except Thrown α) : Run α := do
  match f (← get) with
  | .ok a => return a
  | .error thrown => throw thrown

/-- A new object. -/
def alloc (o : Object) : Run Ref := do
  let (ref, r) := (← get).add o
  set r
  return ref

/-- An error of the engine. -/
def raise {α : Type} (kind : ScriptErrorKind) (message : Text) : Run α :=
  throw (.native kind message)

/-- A new array with these elements, of the context that the prototype belongs to. -/
def newArray (prototype : Intrinsic) (elements : List Value) : Run Value := do
  let properties := elements.zipIdx.map fun (element, n) => Realm.ordinary (.name (nameOfIndex n)) element
  return .object (← alloc ⟨.array elements.length, some prototype.ref, properties⟩)

/-- A new object without properties. -/
def newObject (prototype : Intrinsic) : Run Ref :=
  alloc ⟨.plain, some prototype.ref, []⟩

end Run

/-- The description of a symbol as text. -/
def Symbol.text (s : Symbol) : Units :=
  let description := match s with
    | .toStringTag => .ofString "Symbol.toStringTag"
    | .toPrimitive => .ofString "Symbol.toPrimitive"
    | .described description => description.getD []
  Units.ofString "Symbol(" ++ description ++ Units.ofString ")"

/-- The text of a double in the script's layout. -/
def numberText (d : Double) : Units := (Layout.script.write d).toUnits

/-- The text of a primitive; symbols and objects have none. -/
def primitiveText? : Value → Option Units
  | .undefined => some (.ofString "undefined")
  | .null => some (.ofString "null")
  | .boolean b => some (.ofString (if b then "true" else "false"))
  | .number d => some (numberText d)
  | .string us => some us
  | .bigint n => some (Text.ofInt n).toUnits
  | .symbol _ | .object _ => none

/-- The error of a conversion that comes to no primitive. -/
def noPrimitive : Thrown :=
  .native .typeError (.ofString "Cannot convert object to primitive value")

/-- The error of a symbol where text is needed. -/
def symbolAsText : Thrown :=
  .native .typeError (.ofString "Cannot convert a Symbol value to a string")

/-- The error of a method that is called on a value that it is not for. -/
def wrongReceiver : Thrown :=
  .native .typeError (.ofString "incompatible receiver")

namespace Realm

/-- The tag that an object has by its nature. -/
def natureTag (r : Realm) (ref : Ref) : Except Thrown String := do
  if ← r.isArray ref then return "Array"
  if r.callable ref then return "Function"
  return match (r.object ref).nature with
    | .error => "Error"
    | .boxed (.boolean _) => "Boolean"
    | .boxed (.number _) => "Number"
    | .boxed (.string _) => "String"
    | .date _ => "Date"
    | .regexp _ => "RegExp"
    | .arguments => "Arguments"
    | _ => "Object"

/-- The tag of an object: a tag of its own or of a prototype, if that is a string, and that of its nature otherwise. -/
def tagOf (r : Realm) (ref : Ref) : Except Thrown Units := do
  let byNature ← r.natureTag ref
  match ← r.get ref (.symbol .toStringTag) with
  | .string tag => return tag
  | _ => return .ofString byNature

end Realm

/-- The text of an object that only its tag gives. -/
def taggedText (tag : Units) : Units :=
  Units.ofString "[object " ++ tag ++ Units.ofString "]"

/-- The tag of a primitive. -/
def primitiveTag : Value → String
  | .undefined => "Undefined"
  | .null => "Null"
  | .boolean _ => "Boolean"
  | .number _ => "Number"
  | .string _ => "String"
  | .symbol _ => "Symbol"
  | .bigint _ => "BigInt"
  | .object _ => "Object"

/-- The primitive inside an object that boxes one, or a primitive itself. -/
def unboxed? (r : Realm) : Value → Option Value
  | .object ref =>
    match (r.object ref).nature with
    | .boxed v => some v
    | _ => none
  | v => some v

/-- The text of a primitive where a symbol is shown by its description. -/
def shownText (v : Value) : Units :=
  match v with
  | .symbol s => s.text
  | v => (primitiveText? v).getD []

/-- Two texts with the colon of an error between them, unless one is empty. -/
def nameAndMessage (name message : Units) : Units :=
  if name = [] then message
  else if message = [] then name
  else name ++ Units.ofString ": " ++ message

/-- The texts with a comma between each two. -/
def commaJoined (texts : List Units) : Units :=
  List.intercalate (Units.ofString ",") texts

/-- The run with an array marked as being written, and not any more afterwards, whatever happens. -/
def whileJoining (ref : Ref) (texts : Run Units) : Run Units := do
  let before := (← get).joining
  modify fun r => { r with joining := ref :: before }
  let restore : Run Unit := modify fun r => { r with joining := before }
  try
    let text ← texts
    restore
    return text
  catch thrown =>
    restore
    throw thrown

mutual

/-- A call of a function. -/
def invoke (scripts : Scripts) : (depth : Nat) → Ref → (receiver : Value) → List Value → Run Value
  | 0, _, _, _ => Run.raise .rangeError (.ofString "Maximum call stack size exceeded")
  | depth + 1, ref, receiver, arguments => do
    match (← get).routine? ref with
    | none => Run.raise .typeError (.ofString "not a function")
    | some (_, .scripted number held) => scripts.call number held receiver arguments
    | some (_, .native n) => invokeNative scripts depth n receiver arguments

/-- A call of a native function. -/
def invokeNative (scripts : Scripts) : (depth : Nat) → Native → (receiver : Value) → List Value → Run Value
  | 0, _, _, _ => Run.raise .rangeError (.ofString "Maximum call stack size exceeded")
  | depth + 1, n, receiver, arguments => do
    match n, receiver with
    | .objectToString, .object ref => return .string (taggedText (← Run.look (Realm.tagOf · ref)))
    | .objectToString, v => return .string (taggedText (.ofString (primitiveTag v)))
    | .objectValueOf, v => return v
    | .arrayToString, .object ref =>
      match ← Run.look (Realm.get · ref (.ofString "join")) with
      | .object join =>
        if (← get).callable join then invoke scripts depth join receiver []
        else return .string (taggedText (← Run.look (Realm.tagOf · ref)))
      | _ => return .string (taggedText (← Run.look (Realm.tagOf · ref)))
    | .arrayJoin, .object ref =>
      if ref ∈ (← get).joining then return .string []
      let length ← Run.look (Realm.lengthOf · ref)
      return .string (← whileJoining ref do
        let texts ← (List.range length).mapM fun n => do
          match ← Run.look (Realm.get · ref (.name (nameOfIndex n))) with
          | .undefined | .null => return []
          | element => textOf scripts depth element
        return commaJoined texts)
    | .errorToString, .object ref =>
      let name ← match ← Run.look (Realm.get · ref (.ofString "name")) with
        | .undefined => pure (.ofString "Error")
        | name => textOf scripts depth name
      let message ← match ← Run.look (Realm.get · ref (.ofString "message")) with
        | .undefined => pure []
        | message => textOf scripts depth message
      return .string (nameAndMessage name message)
    | .functionToString, .object ref =>
      match ((← get).object ref).nature, (← get).callable ref with
      | .function _ text, _ => return .string text
      | _, true => return .string (Intrinsic.nativeText "")
      | _, false => throw wrongReceiver
    | .functionApply, .object ref =>
      if (← get).callable ref then
        let arguments' ← match arguments.getD 1 .undefined with
          | .undefined | .null => pure []
          | .object list => do
            let length ← Run.look (Realm.lengthOf · list)
            (List.range length).mapM fun n => Run.look (Realm.get · list (.name (nameOfIndex n)))
          | _ => Run.raise .typeError (.ofString "CreateListFromArrayLike called on non-object")
        invoke scripts depth ref (arguments.getD 0 .undefined) arguments'
      else throw wrongReceiver
    | .regexpToString, .object ref =>
      match ((← get).object ref).nature with
      | .regexp text => return .string text
      | _ => throw wrongReceiver
    | .dateToString, .object ref =>
      match ((← get).object ref).nature with
      | .date text => return .string text
      | _ => throw wrongReceiver
    | .boxedToString, v =>
      match unboxed? (← get) v with
      | some v => return .string (shownText v)
      | none => throw wrongReceiver
    | .boxedValueOf, v =>
      match unboxed? (← get) v with
      | some v => return v
      | none => throw wrongReceiver
    | .library owner name, receiver => scripts.builtin owner name receiver arguments
    | _, _ => throw wrongReceiver

/-- The primitive that stands for an object where text is wanted. -/
def primitiveOf (scripts : Scripts) : (depth : Nat) → Ref → Run Value
  | 0, _ => Run.raise .rangeError (.ofString "Maximum call stack size exceeded")
  | depth + 1, ref => do
    match ← Run.look (Realm.get · ref (.symbol .toPrimitive)) with
    | .undefined | .null =>
      match ← callMethod scripts depth ref (.ofString "toString") with
      | some v => return v
      | none =>
        match ← callMethod scripts depth ref (.ofString "valueOf") with
        | some v => return v
        | none => throw noPrimitive
    | .object method =>
      match ← invoke scripts depth method (.object ref) [.string (.ofString "string")] with
      | .object _ => throw noPrimitive
      | v => return v
    | _ => Run.raise .typeError (.ofString "not a function")

/-- The primitive that a method of an object gives, if it is a function and gives one. -/
def callMethod (scripts : Scripts) : (depth : Nat) → Ref → Key → Run (Option Value)
  | 0, _, _ => Run.raise .rangeError (.ofString "Maximum call stack size exceeded")
  | depth + 1, ref, key => do
    match ← Run.look (Realm.get · ref key) with
    | .object method =>
      if (← get).callable method then
        match ← invoke scripts depth method (.object ref) [] with
        | .object _ => return none
        | v => return some v
      else return none
    | _ => return none

/-- The text of a value where text is needed. -/
def textOf (scripts : Scripts) : (depth : Nat) → Value → Run Units
  | 0, _ => Run.raise .rangeError (.ofString "Maximum call stack size exceeded")
  | depth + 1, v => do
    let primitive ← match v with
      | .object ref => primitiveOf scripts depth ref
      | v => pure v
    match primitiveText? primitive with
    | some text => return text
    | none => throw symbolAsText

end

/-- The text of a value where it is asked for by name: a symbol gives its description. -/
def stringOf (scripts : Scripts) (v : Value) : Run Units :=
  match v with
  | .symbol s => return s.text
  | v => textOf scripts callDepth v

/-! ### Texts as numbers -/

/-- The blanks around a number: spaces, line ends and the mark of a byte order. -/
def isBlankUnit (u : CodeUnit) : Bool :=
  let n := u.val
  (0x09 ≤ n && n ≤ 0x0D) || n == 0x20 || n == 0xA0 || n == 0x1680 || (0x2000 ≤ n && n ≤ 0x200A) || n == 0x2028 ||
    n == 0x2029 || n == 0x202F || n == 0x205F || n == 0x3000 || n == 0xFEFF

/-- The value of a digit of a base. -/
def digitOf? (base : Nat) (u : CodeUnit) : Option Nat :=
  let n := u.val
  let digit :=
    if 0x30 ≤ n ∧ n ≤ 0x39 then n - 0x30
    else if 0x61 ≤ n ∧ n ≤ 0x7A then n - 0x57
    else if 0x41 ≤ n ∧ n ≤ 0x5A then n - 0x37
    else base
  if digit < base then some digit else none

/-- The number that the digits of a base spell, if there are any and all are digits. -/
def digitsIn? (base : Nat) (us : Units) : Option Nat :=
  if us = [] then none else us.foldlM (fun n u => (digitOf? base u).map fun digit => n * base + digit) 0

/-- Whether a unit is a decimal digit. -/
def isDecimal (u : CodeUnit) : Bool := (digitOf? 10 u).isSome

/-- The exponent behind a mark, if the rest is one; no rest at all is the exponent zero. -/
def exponentOf? : Units → Option Int
  | [] => some 0
  | mark :: rest =>
    if mark = 0x65 ∨ mark = 0x45 then
      match rest with
      | [] => none
      | sign :: digits =>
        if sign = 0x2D then (digitsIn? 10 digits).map fun n => -(n : Int)
        else if sign = 0x2B then (digitsIn? 10 digits).map fun n => (n : Int)
        else (digitsIn? 10 rest).map fun n => (n : Int)
    else none

/-- The number that a decimal notation without sign spells; a digit must stand before or behind the point. -/
def unsignedOf? (negative : Bool) (us : Units) : Option Double :=
  if us = .ofString "Infinity" then some (.infinity negative)
  else
    let whole := us.takeWhile isDecimal
    let rest := us.dropWhile isDecimal
    let (fraction, rest) := if rest.head? = some 0x2E then
      ((rest.drop 1).takeWhile isDecimal, (rest.drop 1).dropWhile isDecimal) else ([], rest)
    match digitsIn? 10 (whole ++ fraction), exponentOf? rest with
    | some digits, some exponent => some (.ofDecimal negative digits (exponent - fraction.length))
    | _, _ => none

/-- The number that a text spells; what spells none gives the value that is not a number. -/
def numberOf (us : Units) : Double :=
  let trimmed := ((us.dropWhile isBlankUnit).reverse.dropWhile isBlankUnit).reverse
  let inBase (base : Nat) : Double := ((digitsIn? base (trimmed.drop 2)).map fun n => Double.ofInt n).getD .nan
  match trimmed with
  | [] => .zero
  | first :: rest =>
    if first = 0x30 ∧ (rest.head? = some 0x78 ∨ rest.head? = some 0x58) then inBase 16
    else if first = 0x30 ∧ (rest.head? = some 0x6F ∨ rest.head? = some 0x4F) then inBase 8
    else if first = 0x30 ∧ (rest.head? = some 0x62 ∨ rest.head? = some 0x42) then inBase 2
    else if first = 0x2D then (unsignedOf? true rest).getD .nan
    else if first = 0x2B then (unsignedOf? false rest).getD .nan
    else (unsignedOf? false trimmed).getD .nan

end ScriptLink.Script
