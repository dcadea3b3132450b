import ScriptLink.Script.Sample

/-! # Blueprints

    A blueprint describes a value, and building it makes the value in a realm. Objects may have labels, so that parts
    of a blueprint can refer to objects around them. The parts of an object are added one after the other, and each
    part sees what the ones before it have done. -/

namespace ScriptLink.Script

/-- Objects of the language that are neither arrays nor plain. -/
inductive Exotic where
  | date
  | regexp
  | map
  | set
  | weakMap
  | promise
  | numericArray
  | arrayBuffer
  | dataView
  | boxedNumber
  | boxedString
  | boxedBoolean
  | boxedSymbol
  | boxedBigint
  | arguments
  | generator
  | arrayIterator
deriving DecidableEq, Inhabited

/-- An object with a nature and the prototype that goes with it. -/
def bare (nature : Nature) (prototype : Intrinsic) (properties : List Property) : Object :=
  ⟨nature, some prototype.ref, properties⟩

/-- Values under the indices of an array. -/
def indexed (values : List Value) : List Property :=
  values.zipIdx.map fun (v, n) => Realm.ordinary (.name (nameOfIndex n)) v

/-- Whole numbers as values. -/
def numbers (ns : List Int) : List Value := ns.map fun n => .number (.ofInt n)

/-- The text in the sample of a boxed string. -/
def boxedSample : Units := .ofString "abc"

/-- An exotic object as a new one is. -/
def Exotic.object : Exotic → Object
  | date =>
    bare (.date (.ofString "Thu Jan 01 1970 00:00:00 GMT+0000 (Coordinated Universal Time)")) .datePrototype []
  | regexp => bare (.regexp (.ofString "/foo/g")) .regexpPrototype []
  | map => bare .plain .mapPrototype []
  | set => bare .plain .setPrototype []
  | weakMap => bare .plain .weakMapPrototype []
  | promise => bare .plain .promisePrototype []
  | numericArray => bare (.numericArray 3) .numericArrayPrototype (indexed (numbers [1, 2, 3]))
  | arrayBuffer => bare .plain .arrayBufferPrototype []
  | dataView => bare .plain .dataViewPrototype []
  | boxedNumber => bare (.boxed (.number (.ofRatio false 3 2))) .numberPrototype []
  | boxedString =>
    bare (.boxed (.string boxedSample)) .stringPrototype
      ((indexed (boxedSample.map fun u => .string [u])).map (fun p => { p with writable := false, configurable := false })
        ++ [Intrinsic.fixed "length" (.number (.ofInt boxedSample.length))])
  | boxedBoolean => bare (.boxed (.boolean true)) .booleanPrototype []
  | boxedSymbol => bare (.boxed (.symbol (.described (some (.ofString "x"))))) .symbolPrototype []
  | boxedBigint => bare (.boxed (.bigint 1)) .bigintPrototype []
  | arguments => bare .arguments .objectPrototype (indexed (numbers [1, 2]))
  | generator => bare .plain .generatorPrototype []
  | arrayIterator => bare .plain .arrayIteratorPrototype []

/-- What an object is before its parts are added. -/
inductive Base where
  | array (length : Nat) (derived : Bool)
  | plain (derived : Bool)
  /-- An error of the class with a name. -/
  | error (className : Text)
  | function (sample : Sample)
  | exotic (e : Exotic)
  /-- An object that the language itself has. -/
  | intrinsic (i : Intrinsic)
  | revokedProxy
deriving DecidableEq, Inhabited

mutual

/-- A description of a value. -/
inductive Blueprint where
  | primitive (v : Value)
  /-- The object with a label. -/
  | labelled (label : Text)
  /-- A value in so many arrays, or in so many objects under the name a. -/
  | nested (arrays : Bool) (depth : Nat) (leaf : Blueprint)
  | object (label : Option Text) (base : Base) (parts : List Part)
  | proxy (label : Option Text) (target : Blueprint) (parts : List Part)

/-- A part of an object. -/
inductive Part where
  | property (key : Key) (value : Blueprint) (enumerable : Bool)
  | getter (key : Key) (result : Blueprint) (throws enumerable : Bool)
  /-- A function that gives or throws a value. -/
  | method (key : Key) (result : Blueprint) (throws : Bool)
  /-- A value that a function holds. -/
  | held (value : Blueprint)
  | prototype (value : Blueprint)

end

instance : Inhabited Blueprint := ⟨.primitive .undefined⟩

/-- A construction: the objects with labels, and the realm in which they are made. -/
abbrev Building := StateT (Members Value) Run

namespace Building

/-- A change of the realm. -/
def change (f : Realm → Realm) : Building Unit := modifyThe Realm f

/-- A label for an object that is still to get its parts. -/
def remember (label : Option Text) (ref : Ref) : Building Unit :=
  match label with
  | some label => modify fun labels => labels.insert label (.object ref)
  | none => pure ()

/-- The prototype of a derived class, or that of the class itself. -/
def classPrototype (parent : Intrinsic) (derived : Bool) : Building Ref :=
  if derived then Run.alloc ⟨.plain, some parent.ref, []⟩ else pure parent.ref

/-- The prototype of an error class; a class that the language does not have gives its name through a getter. -/
def errorClassPrototype (className : Text) : Building Ref :=
  match (ScriptErrorKind.plain :: ScriptErrorKind.named).find? fun kind => kind.standardName = className with
  | some kind => pure (errorPrototypeOf kind).ref
  | none =>
    let name : Property := ⟨.ofString "name", .getter (.ok (.string className.toUnits)), false, false, true⟩
    Run.alloc ⟨.plain, some Intrinsic.errorPrototype.ref, [name]⟩

/-- The object that a base stands for. -/
def ofBase : Base → Building Ref
  | .array length derived => do
    Run.alloc ⟨.array length, some (← classPrototype .arrayPrototype derived), []⟩
  | .plain derived => do
    Run.alloc ⟨.plain, some (← classPrototype .objectPrototype derived), []⟩
  | .error className => do
    Run.alloc ⟨.error, some (← errorClassPrototype className), []⟩
  | .function sample => Run.alloc (sample.object [])
  | .exotic e => Run.alloc e.object
  | .intrinsic i => pure i.ref
  | .revokedProxy => Run.alloc ⟨.proxy none, none, []⟩

end Building

namespace Realm

/-- The object at which a definition on an object or on a proxy ends. -/
def definitionTarget (r : Realm) : Nat → Ref → Ref
  | 0, ref => ref
  | steps + 1, ref =>
    match (r.object ref).nature with
    | .proxy (some target) => r.definitionTarget steps target
    | _ => ref

/-- The object with an array's length made large enough for an index. -/
def coverIndex (key : Key) (o : Object) : Object :=
  match o.nature, key with
  | .array length, .name name =>
    match indexOf? name with
    | some n => { o with nature := .array (max length (n + 1)) }
    | none => o
  | _, _ => o

/-- The realm with a property of an object defined. -/
def defineThrough (r : Realm) (ref : Ref) (property : Property) : Realm :=
  r.update (r.definitionTarget r.steps ref) fun o => coverIndex property.key (o.define property)

/-- The realm with one more value held by a function. -/
def hold (r : Realm) (ref : Ref) (v : Value) : Realm :=
  r.update ref fun o =>
    match o.nature with
    | .function (.scripted number held) text => { o with nature := .function (.scripted number (held ++ [v])) text }
    | _ => o

end Realm

/-- The value in an array or in an object under the name a. -/
def inContainer (array : Bool) (v : Value) : Run Value := do
  if array then newList [v]
  else return .object (← Run.alloc (bare .plain .objectPrototype [Realm.ordinary (.ofString "a") v]))

/-- The value in so many containers. -/
def inContainers (array : Bool) : Nat → Value → Run Value
  | 0, v => return v
  | depth + 1, v => do inContainers array depth (← inContainer array v)

mutual

/-- The value of a blueprint. -/
def Blueprint.build : Blueprint → Building Value
  | .primitive v => return v
  | .labelled label => return ((← get).find? label).getD .undefined
  | .nested arrays depth leaf => do inContainers arrays depth (← leaf.build)
  | .object label base parts => do
    let ref ← Building.ofBase base
    Building.remember label ref
    addParts ref parts
    return .object ref
  | .proxy label target parts => do
    let ref ← Run.alloc ⟨.proxy none, none, []⟩
    Building.remember label ref
    match ← target.build with
    | .object target => Building.change fun r => r.update ref fun o => { o with nature := .proxy (some target) }
    | _ => pure ()
    addParts ref parts
    return .object ref

/-- An object with a part added. -/
def addPart (ref : Ref) : Part → Building Unit
  | .property key value enumerable => do
    let v ← value.build
    Building.change fun r => r.defineThrough ref ⟨key, .value v, enumerable, true, true⟩
  | .getter key result throws enumerable => do
    let v ← result.build
    let slot : Slot := .getter (if throws then .error (.value v) else .ok v)
    Building.change fun r => r.defineThrough ref ⟨key, slot, enumerable, false, true⟩
  | .method key result throws => do
    let v ← result.build
    let method ← Run.alloc ((if throws then Sample.throws else Sample.returns).object [v])
    Building.change fun r => r.defineThrough ref ⟨key, .value (.object method), false, true, true⟩
  | .held value => do
    let v ← value.build
    Building.change fun r => r.hold ref v
  | .prototype value => do
    let v ← value.build
    Building.change fun r => r.setPrototype (r.definitionTarget r.steps ref) v

/-- An object with some parts added. -/
def addParts (ref : Ref) : List Part → Building Unit
  | [] => pure ()
  | part :: rest => do
    addPart ref part
    addParts ref rest

end

/-- The value of a blueprint on its own. -/
def Blueprint.run (b : Blueprint) : Run Value := b.build.run' []

end ScriptLink.Script
