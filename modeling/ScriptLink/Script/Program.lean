import ScriptLink.Script.Blueprint

/-! # Sources with a known effect

    A program stands for a source: it declares or deletes a name, gives a value, throws one, or gives the value of a
    name. Declared variables are no properties of the global object, and a name can be declared only once. -/

namespace ScriptLink.Script

/-- The ways of declaring a name. -/
inductive Declaration where
  /-- An assignment to a property of the global object. -/
  | assignment
  /-- A variable that is a property of the global object and stays there. -/
  | property
  /-- A variable that is no property. -/
  | variable
deriving DecidableEq, Inhabited

/-- A source with a known effect. -/
inductive Program where
  | declare (how : Declaration) (name : Units) (value : Blueprint)
  | getter (name : Units) (result : Blueprint) (throws : Bool)
  | delete (name : Units)
  | value (b : Blueprint)
  | throws (b : Blueprint)
  | name (name : Units)
deriving Inhabited

namespace Program

/-- The error of a name that is declared twice. -/
def alreadyDeclared (name : Units) : Run Value :=
  Run.raise .syntaxError (Text.ofString "Identifier '" ++ name.toText ++ .ofString "' has already been declared")

/-- Whether a name is that of a variable. -/
def isVariable (r : Realm) (name : Units) : Bool :=
  r.bindings.any fun entry => entry.1 = name

/-- The property of the global object under a name. -/
def globalProperty? (r : Realm) (name : Units) : Option Property :=
  (r.object Intrinsic.global.ref).own? (.name name)

/-- The effect of a declaration, before the value is known: a clash of names comes first. -/
def declared (how : Declaration) (key : Units) (value : Blueprint) : Run Value := do
  let r ← get
  match how with
  | .assignment =>
    setGlobal key (← value.run)
    return .undefined
  | .property =>
    if isVariable r key then alreadyDeclared key
    else
      let v ← value.run
      if (globalProperty? r key).isSome then setGlobal key v
      else modify fun r => r.define Intrinsic.global.ref ⟨.name key, .value v, true, true, false⟩
      return .undefined
  | .variable =>
    if isVariable r key ∨ (globalProperty? r key).any (fun property => !property.configurable) then
      alreadyDeclared key
    else
      let v ← value.run
      modify fun r => { r with bindings := r.bindings ++ [(key, v)] }
      return .undefined

/-- The value of a name: a variable, or else a property of the global object. -/
def valueOfName (name : Units) : Run Value := do
  match (← get).bindings.find? fun entry => entry.1 = name with
  | some entry => return entry.2
  | none =>
    if ← Run.look (Realm.has · Intrinsic.global.ref (.name name)) then
      Run.look (Realm.get · Intrinsic.global.ref (.name name))
    else Run.raise .referenceError (name.toText ++ .ofString " is not defined")

/-- The effect of a source and its value. -/
def run : Program → Run Value
  | .declare how key b => declared how key b
  | .getter key result thrown => do
    let v ← result.run
    let slot : Slot := .getter (if thrown then .error (.value v) else .ok v)
    modify fun r => r.define Intrinsic.global.ref ⟨.name key, slot, true, false, true⟩
    return .undefined
  | .delete key => do
    modify fun r => r.delete Intrinsic.global.ref (.name key)
    return .undefined
  | .value b => b.run
  | .throws b => do throw (.value (← b.run))
  | .name key => valueOfName key

/-- How many samples may ask for texts inside each other. -/
def sampleDepth : Nat := 20

/-- Scripts in which every source is this program. -/
def scripts (p : Program) : Scripts := Sample.scripts (fun _ _ => p.run) sampleDepth

end Program

end ScriptLink.Script
