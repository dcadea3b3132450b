import ScriptLink.Script.Property

/-! # The objects of an empty context

    A new context holds the language's own objects, in a fixed order, so that each is known by its number. Of their
    properties those stand here on which a conversion or a look at a global name can depend. The objects that come
    with a request belong to a context outside and have prototypes of their own. Of most functions only their name
    matters; their objects come behind all the others. -/

namespace ScriptLink.Script

/-- The language's own objects. -/
inductive Intrinsic where
  | objectPrototype
  | functionPrototype
  | arrayPrototype
  | errorPrototype
  | syntaxErrorPrototype
  | referenceErrorPrototype
  | typeErrorPrototype
  | rangeErrorPrototype
  | evalErrorPrototype
  | uriErrorPrototype
  | numberPrototype
  | stringPrototype
  | booleanPrototype
  | symbolPrototype
  | bigintPrototype
  | datePrototype
  | regexpPrototype
  | mapPrototype
  | setPrototype
  | weakMapPrototype
  | promisePrototype
  | numericArrayPrototype
  | arrayBufferPrototype
  | dataViewPrototype
  | generatorPrototype
  | arrayIteratorPrototype
  | outerObjectPrototype
  | outerArrayPrototype
  | global
  | math
  | json
  | reflect
  | namespaceObject
  | objectToString
  | objectValueOf
  | arrayToString
  | arrayJoin
  | errorToString
  | functionToString
  | functionApply
  | regexpToString
  | dateToString
  | boxedToString
  | boxedValueOf
  | arrayPush
  | objectFunction
  | objectKeys
  | numberFunction
deriving DecidableEq, Inhabited

namespace Intrinsic

/-- All of them, in the order of their numbers. -/
def all : List Intrinsic :=
  [objectPrototype, functionPrototype, arrayPrototype, errorPrototype, syntaxErrorPrototype, referenceErrorPrototype,
   typeErrorPrototype, rangeErrorPrototype, evalErrorPrototype, uriErrorPrototype, numberPrototype, stringPrototype,
   booleanPrototype, symbolPrototype, bigintPrototype, datePrototype, regexpPrototype, mapPrototype, setPrototype,
   weakMapPrototype, promisePrototype, numericArrayPrototype, arrayBufferPrototype, dataViewPrototype,
   generatorPrototype, arrayIteratorPrototype, outerObjectPrototype, outerArrayPrototype, global, math, json, reflect,
   namespaceObject, objectToString, objectValueOf, arrayToString, arrayJoin, errorToString, functionToString,
   functionApply, regexpToString, dateToString, boxedToString, boxedValueOf, arrayPush, objectFunction, objectKeys,
   numberFunction]

/-- The number of an object. -/
def ref (i : Intrinsic) : Ref := all.idxOf i

/-- The object as a value. -/
def value (i : Intrinsic) : Value := .object i.ref

/-- A property that is found by its name but not listed. -/
def hidden (name : String) (v : Value) : Property := ⟨.ofString name, .value v, false, true, true⟩

/-- A property that is not listed and never changes. -/
def fixed (name : String) (v : Value) : Property := ⟨.ofString name, .value v, false, false, false⟩

/-- The tag of a kind of objects. -/
def tag (name : String) : Property :=
  ⟨.symbol .toStringTag, .value (.string (.ofString name)), false, false, true⟩

/-! Functions of which only the name matters, by what holds them. -/

/-- Those of the global object. -/
def globalFunctions : List String :=
  ["Function", "Array", "parseFloat", "parseInt", "Boolean", "String", "Symbol", "Date", "Promise", "RegExp", "Error",
   "AggregateError", "EvalError", "RangeError", "ReferenceError", "SyntaxError", "TypeError", "URIError", "ArrayBuffer",
   "Uint8Array", "Int8Array", "Uint16Array", "Int16Array", "Uint32Array", "Int32Array", "Float32Array", "Float64Array",
   "Uint8ClampedArray", "BigUint64Array", "BigInt64Array", "DataView", "Map", "BigInt", "Set", "Iterator", "WeakMap",
   "WeakSet", "WeakRef", "FinalizationRegistry", "Proxy", "SharedArrayBuffer", "decodeURI", "decodeURIComponent",
   "encodeURI", "encodeURIComponent", "escape", "unescape", "eval", "isFinite", "isNaN"]

/-- Those of all objects. -/
def objectMethods : List String :=
  ["__defineGetter__", "__defineSetter__", "hasOwnProperty", "__lookupGetter__", "__lookupSetter__", "isPrototypeOf",
   "propertyIsEnumerable", "toLocaleString"]

/-- Those of all functions. -/
def functionMethods : List String := ["bind", "call", "arguments", "caller"]

/-- Those of all arrays. -/
def arrayMethods : List String :=
  ["at", "concat", "copyWithin", "fill", "find", "findIndex", "findLast", "findLastIndex", "lastIndexOf", "pop",
   "reverse", "shift", "unshift", "slice", "sort", "splice", "includes", "indexOf", "keys", "entries", "forEach", "filter",
   "flat", "flatMap", "map", "every", "some", "reduce", "reduceRight", "toReversed", "toSorted", "toSpliced",
   "toLocaleString", "values", "with"]

/-- Those of all strings. -/
def stringMethods : List String :=
  ["anchor", "at", "big", "blink", "bold", "charAt", "charCodeAt", "codePointAt", "concat", "endsWith", "fontcolor",
   "fontsize", "fixed", "includes", "indexOf", "italics", "lastIndexOf", "link", "localeCompare", "match", "matchAll",
   "normalize", "padEnd", "padStart", "repeat", "replace", "replaceAll", "search", "slice", "small", "split", "strike",
   "sub", "substr", "substring", "sup", "startsWith", "trim", "trimStart", "trimLeft", "trimEnd", "trimRight",
   "toLocaleLowerCase", "toLocaleUpperCase", "toLowerCase", "toUpperCase", "isWellFormed", "toWellFormed"]

/-- Those of all numbers. -/
def numberMethods : List String := ["toExponential", "toFixed", "toPrecision", "toLocaleString"]

/-- What holds them, and what they are called, in the order of their numbers. -/
def libraryNames : List (String × String) :=
  [("", globalFunctions), ("Object.prototype", objectMethods), ("Function.prototype", functionMethods),
    ("Array.prototype", arrayMethods), ("String.prototype", stringMethods), ("Number.prototype", numberMethods)].flatMap
      fun (owner, names) => names.map fun name => (owner, name)

/-- One of them. -/
def library (owner name : String) : Value := .object (all.length + libraryNames.idxOf (owner, name))

/-- A function that the global object holds. -/
def globalFunction (name : String) : Value := library "" name

/-- Those of an owner, as its properties. -/
def methods (owner : String) (names : List String) : List Property :=
  names.map fun name => hidden name (library owner name)

/-- A prototype with a parent. -/
def below (parent : Intrinsic) (properties : List Property) : Object := ⟨.plain, some parent.ref, properties⟩

/-- A prototype of errors. -/
def errorsBelow (parent : Intrinsic) (name : String) (properties : List Property) : Object :=
  below parent ([hidden "constructor" (globalFunction name), hidden "name" (.string (.ofString name)),
    hidden "message" (.string [])] ++ properties)

/-- The properties of the prototype of all objects. -/
def objectProperties : List Property :=
  methods "Object.prototype" objectMethods ++
    [hidden "constructor" objectFunction.value, hidden "toString" objectToString.value,
     hidden "valueOf" objectValueOf.value, ⟨.ofString "__proto__", .ownPrototype, false, true, true⟩]

/-- The properties of the prototype of arrays. -/
def arrayProperties : List Property :=
  methods "Array.prototype" arrayMethods ++
    [hidden "constructor" (globalFunction "Array"), hidden "push" arrayPush.value, hidden "join" arrayJoin.value,
     hidden "toString" arrayToString.value]

/-- The conversions of primitives as objects. -/
def boxedProperties (constructor : Value) : List Property :=
  [hidden "constructor" constructor, hidden "toString" boxedToString.value, hidden "valueOf" boxedValueOf.value]

/-- The properties of the global object. -/
def globalProperties : List Property :=
  [hidden "globalThis" global.value, fixed "Infinity" (.number (.infinity false)), fixed "NaN" (.number .nan),
   fixed "undefined" .undefined, hidden "Math" math.value, hidden "JSON" json.value, hidden "Reflect" reflect.value,
   hidden "Intl" namespaceObject.value, hidden "Atomics" namespaceObject.value,
   hidden "WebAssembly" namespaceObject.value, hidden "Object" objectFunction.value,
   hidden "Number" numberFunction.value] ++ methods "" globalFunctions

/-- The text of a native function. -/
def nativeText (name : String) : Units :=
  Units.ofString "function " ++ Units.ofString name ++ Units.ofString "() \x7b [native code] \x7d"

/-- A native function. -/
def function (n : Native) (name : String) : Object :=
  ⟨.function (.native n) (nativeText name), some functionPrototype.ref, []⟩

/-- Each of the language's own objects. -/
def object : Intrinsic → Object
  | objectPrototype => ⟨.plain, none, objectProperties⟩
  | functionPrototype =>
    ⟨.function (.native (.library "Function" "prototype")) (nativeText ""), some objectPrototype.ref,
      [hidden "constructor" (globalFunction "Function"), hidden "toString" functionToString.value,
        hidden "apply" functionApply.value, hidden "name" (.string [])] ++
        methods "Function.prototype" functionMethods⟩
  | arrayPrototype => ⟨.array 0, some objectPrototype.ref, arrayProperties⟩
  | errorPrototype => errorsBelow objectPrototype "Error" [hidden "toString" errorToString.value]
  | syntaxErrorPrototype => errorsBelow errorPrototype "SyntaxError" []
  | referenceErrorPrototype => errorsBelow errorPrototype "ReferenceError" []
  | typeErrorPrototype => errorsBelow errorPrototype "TypeError" []
  | rangeErrorPrototype => errorsBelow errorPrototype "RangeError" []
  | evalErrorPrototype => errorsBelow errorPrototype "EvalError" []
  | uriErrorPrototype => errorsBelow errorPrototype "URIError" []
  | numberPrototype =>
    ⟨.boxed (.number .zero), some objectPrototype.ref,
      boxedProperties numberFunction.value ++ methods "Number.prototype" numberMethods⟩
  | stringPrototype =>
    ⟨.boxed (.string []), some objectPrototype.ref,
      boxedProperties (globalFunction "String") ++ [hidden "length" (.number .zero)] ++
        methods "String.prototype" stringMethods⟩
  | booleanPrototype =>
    ⟨.boxed (.boolean false), some objectPrototype.ref, boxedProperties (globalFunction "Boolean")⟩
  | symbolPrototype =>
    below objectPrototype (boxedProperties (globalFunction "Symbol") ++
      [tag "Symbol", ⟨.symbol .toPrimitive, .value boxedValueOf.value, false, false, true⟩])
  | bigintPrototype => below objectPrototype (boxedProperties (globalFunction "BigInt") ++ [tag "BigInt"])
  | datePrototype => below objectPrototype [hidden "toString" dateToString.value]
  | regexpPrototype => below objectPrototype [hidden "toString" regexpToString.value]
  | mapPrototype => below objectPrototype [tag "Map"]
  | setPrototype => below objectPrototype [tag "Set"]
  | weakMapPrototype => below objectPrototype [tag "WeakMap"]
  | promisePrototype => below objectPrototype [tag "Promise"]
  | numericArrayPrototype =>
    below objectPrototype
      [hidden "toString" arrayToString.value, hidden "join" arrayJoin.value,
       ⟨.symbol .toStringTag, .numericTag, false, false, true⟩]
  | arrayBufferPrototype => below objectPrototype [tag "ArrayBuffer"]
  | dataViewPrototype => below objectPrototype [tag "DataView"]
  | generatorPrototype => below objectPrototype [tag "Generator"]
  | arrayIteratorPrototype => below objectPrototype [tag "Array Iterator"]
  | outerObjectPrototype => ⟨.plain, none, objectProperties⟩
  | outerArrayPrototype => ⟨.array 0, some outerObjectPrototype.ref, arrayProperties⟩
  | global => ⟨.plain, some objectPrototype.ref, globalProperties⟩
  | math => below objectPrototype [tag "Math"]
  | json => below objectPrototype [tag "JSON"]
  | reflect => below objectPrototype [tag "Reflect"]
  | namespaceObject => below objectPrototype [tag "Namespace"]
  | objectToString => function .objectToString "toString"
  | objectValueOf => function .objectValueOf "valueOf"
  | arrayToString => function .arrayToString "toString"
  | arrayJoin => function .arrayJoin "join"
  | errorToString => function .errorToString "toString"
  | functionToString => function .functionToString "toString"
  | functionApply => function .functionApply "apply"
  | regexpToString => function .regexpToString "toString"
  | dateToString => function .dateToString "toString"
  | boxedToString => function .boxedToString "toString"
  | boxedValueOf => function .boxedValueOf "valueOf"
  | arrayPush => function (.library "Array.prototype" "push") "push"
  | objectFunction =>
    { function (.library "" "Object") "Object" with properties := [hidden "keys" objectKeys.value] }
  | objectKeys => function (.library "Object" "keys") "keys"
  | numberFunction => function (.library "" "Number") "Number"

end Intrinsic

/-- The prototype of the errors of a kind. -/
def errorPrototypeOf : ScriptErrorKind → Intrinsic
  | .plain => .errorPrototype
  | .syntaxError => .syntaxErrorPrototype
  | .referenceError => .referenceErrorPrototype
  | .typeError => .typeErrorPrototype
  | .rangeError => .rangeErrorPrototype
  | .evalError => .evalErrorPrototype
  | .uriError => .uriErrorPrototype

/-- The realm of an empty context. -/
def Realm.initial : Realm where
  objects := (Intrinsic.all.map Intrinsic.object ++
    Intrinsic.libraryNames.map fun (owner, name) => Intrinsic.function (.library owner name) name).toArray
  bindings := []
  joining := []

end ScriptLink.Script
