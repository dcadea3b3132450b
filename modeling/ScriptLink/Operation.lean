import ScriptLink.Engine.Event

/-! # Operations on a context

    An operation is a request whose parts are the caller's objects. All parts are converted before anything else
    happens, the arguments of a call first; the first that has no image refuses the operation as a whole. -/

namespace ScriptLink

/-- What a caller can ask of a context; the parts are places in the caller's graph of objects. -/
inductive Operation where
  /-- The value of a source, or only its effects. -/
  | eval (source sourceName : Host.Item) (convert : Bool)
  | getProp (name : Host.Item)
  | callProp (name : Host.Item) (arguments : List Host.Item)
deriving Inhabited

namespace Operation

/-- The name of sources where none is given. -/
def defaultSourceName : Host.Item :=
  .scalar (.text (.ofString "<eval>") .plain)

/-- The name under which the peer knows an operation. -/
def requestName : Operation → Text
  | .eval _ _ _ => .ofString "eval"
  | .getProp _ => .ofString "get_prop"
  | .callProp _ _ => .ofString "call_prop"

/-- Named values as a mapping. -/
def record (fields : List (String × Host.Value)) : Host.Value :=
  .mapping .dict (fields.map fun field => (.text (.ofString field.1), field.2))

/-- What is sent with the request. -/
def payload (g : Host.Graph) : Operation → Except Refusal Host.Value
  | .eval source sourceName convert => do
    let code ← sourceText g (.ofString "source") source
    let filename ← sourceText g (.ofString "source name") sourceName
    return record [("code", .text code), ("filename", .text filename), ("convert", .scalar (.bool convert))]
  | .getProp name => do
    return record [("name", .text (← sourceText g (.ofString "property name") name))]
  | .callProp name arguments => do
    let nodes ← arguments.mapM (Wire.Node.ofArgument g)
    let name ← sourceText g (.ofString "property name") name
    return record [("name", .text name), ("args", .sequence .list (nodes.map Wire.Node.toValue))]

/-- The value of a result. An operation for its effects alone gives nothing, whatever the result. -/
def value (operation : Operation) (result : Host.Value) : Outcome :=
  match operation with
  | .eval _ _ false => .ok .none
  | _ =>
    match Wire.decode result with
    | .ok value => .ok value
    | .error reason => .error (.unreadable reason)

end Operation

end ScriptLink
