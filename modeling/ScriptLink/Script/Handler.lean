import ScriptLink.Json.Compact
import ScriptLink.Json.Reader
import ScriptLink.Script.Decode
import ScriptLink.Script.Encode
import ScriptLink.Script.Report
import ScriptLink.Text.Utf8

/-! # Handling requests

    A request is a line with a type, an id and a payload; the answer is a line that echoes the id. A request of one
    of three types is handled, and its answer is a result or a report of what was thrown; a request of another type
    is answered by a protocol error. -/

namespace ScriptLink.Wire

mutual

/-- A node in JSON. -/
def Node.toJson : Node → Json
  | .null => .object [(.ofString "t", .text (.ofString "null"))]
  | .complex => .object [(.ofString "t", .text (.ofString "complex"))]
  | .boolean b => .object [(.ofString "t", .text (.ofString "boolean")), (.ofString "v", .bool b)]
  | .number d =>
    .object [(.ofString "t", .text (.ofString "number")),
      (.ofString "v", match numberWord? d with
        | some word => .text word
        | none => .float d)]
  | .string t => .object [(.ofString "t", .text (.ofString "string")), (.ofString "v", .text t)]
  | .array items => .object [(.ofString "t", .text (.ofString "array")), (.ofString "v", .array (itemsToJson items))]
  | .object members =>
    .object [(.ofString "t", .text (.ofString "object")), (.ofString "v", .object (membersToJson members))]

/-- The nodes of an array in JSON. -/
def itemsToJson : List Node → List Json
  | [] => []
  | item :: rest => item.toJson :: itemsToJson rest

/-- The members of an object in JSON. -/
def membersToJson : List (Text × Node) → List (Text × Json)
  | [] => []
  | (name, node) :: rest => (name, node.toJson) :: membersToJson rest

end

end ScriptLink.Wire

namespace ScriptLink.Script

/-- The member of a payload under a name. A payload of nothing has no members to look for. -/
def field (payload : Json) (first name : String) : Run (Option Json) :=
  match payload with
  | .object members => return Members.find? members (.ofString name)
  | .null =>
    Run.raise .typeError (Text.ofString "Cannot destructure property '" ++ .ofString first ++
      .ofString "' of 'object null' as it is null.")
  | _ => return none

/-- The value of a member, undefined where there is none. -/
def fieldValue : Option Json → Run Value
  | some j => importJson j
  | none => return .undefined

/-- Whether a condition on a member holds. -/
def fieldTruth : Option Json → Bool
  | none | some .null => false
  | some (.bool b) => b
  | some (.int n) => n != 0
  | some (.float d) => !(d.isZero || d == .nan)
  | some (.text t) => !t.isEmpty
  | some (.array _) | some (.object _) => true

/-- What a message says of a value of the wrong type. -/
def received : Json → Text
  | .null => .ofString "null"
  | .array _ => .ofString "an instance of Array"
  | .object _ => .ofString "an instance of Object"
  | .bool b => .ofString "type boolean (" ++ .ofString (if b then "true" else "false") ++ .ofString ")"
  | .int n => .ofString "type number (" ++ Layout.script.write (.ofInt n) ++ .ofString ")"
  | .float d => .ofString "type number (" ++ Layout.script.write d ++ .ofString ")"
  | .text t => .ofString "type string (" ++ t ++ .ofString ")"

/-- The name of a source. -/
def sourceName : Option Json → Run Text
  | none => return .ofString "evalmachine.<anonymous>"
  | some (.text t) => return t
  | some j =>
    Run.raise .typeError (Text.ofString "The \"options.filename\" property must be of type string. Received " ++
      received j)

/-- A source is evaluated; its value is converted only on demand. -/
def evaluateSource (scripts : Scripts) (payload : Json) : Run Wire.Node := do
  let code ← field payload "code" "code"
  let filename ← field payload "code" "filename"
  let convert ← field payload "code" "convert"
  let code ← textOf scripts callDepth (← fieldValue code)
  let v ← scripts.evaluate code.toText (← sourceName filename)
  if fieldTruth convert then Run.look (encode · v) else return .null

/-- The text of a name in a payload. -/
def nameText (scripts : Scripts) (payload : Json) : Run Units := do
  textOf scripts callDepth (← fieldValue (← field payload "name" "name"))

/-- A property of the global object is read. -/
def readGlobal (scripts : Scripts) (payload : Json) : Run Wire.Node := do
  let name ← nameText scripts payload
  if ← Run.look (Realm.has · Intrinsic.global.ref (.name name)) then
    let v ← Run.look (Realm.get · Intrinsic.global.ref (.name name))
    Run.look (encode · v)
  else Run.raise .referenceError (Text.ofString "no such prop: " ++ name.toText)

/-- The values of the arguments of a call. -/
def argumentValues (scripts : Scripts) : Option Json → Run (List Value)
  | some (.array items) => (decodeItems scripts items).mapM id
  | none => Run.raise .typeError (.ofString "Cannot read properties of undefined (reading 'map')")
  | some .null => Run.raise .typeError (.ofString "Cannot read properties of null (reading 'map')")
  | some _ => Run.raise .typeError (.ofString "args.map is not a function")

/-- A function is applied to arguments with the global object as its receiver. It may bring another way of applying it,
    which is then called with the receiver and an array of the arguments. -/
def applyGlobally (scripts : Scripts) (ref : Ref) (method : Value) (arguments : List Value) : Run Value := do
  let refuse : Run Value := Run.raise .typeError (.ofString "fn.apply is not a function")
  if method = Intrinsic.functionApply.value then invoke scripts callDepth ref Intrinsic.global.value arguments
  else
    match method with
    | .object other =>
      if (← get).callable other then
        let list ← Run.newArray .outerArrayPrototype arguments
        invoke scripts callDepth other (.object ref) [Intrinsic.global.value, list]
      else refuse
    | _ => refuse

/-- A function that a property of the global object holds is called with the global object as its receiver. -/
def callGlobal (scripts : Scripts) (payload : Json) : Run Wire.Node := do
  let name ← nameText scripts payload
  let arguments ← field payload "name" "args"
  let f ← Run.look (Realm.get · Intrinsic.global.ref (.name name))
  let refuse : Run Wire.Node := Run.raise .typeError (name.toText ++ .ofString " is not a function")
  match f with
  | .object ref =>
    if (← get).callable ref then
      let method ← Run.look (Realm.get · ref (.ofString "apply"))
      let v ← applyGlobally scripts ref method (← argumentValues scripts arguments)
      Run.look (encode · v)
    else refuse
  | _ => refuse

/-- The types of requests that are handled. -/
inductive RequestType where
  | eval
  | getProp
  | callProp
deriving DecidableEq

/-- The type with a name. -/
def RequestType.ofName? (name : Units) : Option RequestType :=
  if name = .ofString "eval" then some .eval
  else if name = .ofString "get_prop" then some .getProp
  else if name = .ofString "call_prop" then some .callProp
  else none

/-- What a request of a type does with its payload. -/
def RequestType.run (scripts : Scripts) (payload : Json) : RequestType → Run Wire.Node
  | .eval => evaluateSource scripts payload
  | .getProp => readGlobal scripts payload
  | .callProp => callGlobal scripts payload

/-- Named values as a JSON object. -/
def jsonRecord (members : List (String × Json)) : Json :=
  .object (members.map fun member => (.ofString member.1, member.2))

/-- A report in JSON. -/
def Report.toJson (r : Report) : Json :=
  jsonRecord [("name", .text r.name.toText), ("message", .text r.message.toText), ("stack", .text r.stack.toText)]

/-- What a request comes to: a result, a report, or the refusal of its type. -/
inductive Reply where
  | result (node : Wire.Node)
  | error (report : Report)
  | refusal (type : Units)

/-- A reply in JSON, with the id of its request if that has one. -/
def Reply.toJson (reply : Reply) (id : Option Json) : Json :=
  let (type, payload) := match reply with
    | .result node => ("result", ("result", node.toJson))
    | .error report => ("error", ("error", report.toJson))
    | .refusal type => ("protocol_error", ("message", .text (Text.ofString "unknown type: " ++ type.toText)))
  let echo := match id with
    | some id => [("event_id", id)]
    | none => []
  jsonRecord ([("type", .text (.ofString type)), ("payload", jsonRecord [payload])] ++ echo)

/-- The reply to a request of a type; whatever is thrown is reported. -/
def replyTo (scripts : Scripts) (type : Units) (payload : Json) (r : Realm) : Reply × Realm :=
  match RequestType.ofName? type with
  | none => (.refusal type, r)
  | some handled =>
    match (handled.run scripts payload).run r with
    | (.ok node, r) => (.result node, r)
    | (.error thrown, r) =>
      match (report scripts thrown).run r with
      | (.ok report, r) => (.error report, r)
      | (.error _, r) => (.error default, r)

/-- The reply to a message, with the realm after it. A message whose type has no text is not answered. -/
def handle (scripts : Scripts) (message : Json) (r : Realm) : Option Json × Realm :=
  let part (name : String) : Option Json := match message with
    | .object members => Members.find? members (.ofString name)
    | _ => none
  let typeText : Run Units := do textOf scripts callDepth (← fieldValue (part "type"))
  match typeText.run r with
  | (.error _, r) => (none, r)
  | (.ok type, r) =>
    let (reply, r) := replyTo scripts type ((part "payload").getD .null) r
    (some (reply.toJson (part "event_id")), r)

/-- The bytes of a reply: one line. -/
def replyLine (reply : Json) : List UInt8 :=
  Utf8.encode (Json.compact reply ++ [0x0A])

/-- The deepest nesting of requests that is read. -/
def requestNesting : Nat := 10000

/-- The bytes that answer the bytes of a line, with the realm after it. -/
def answerLine (scripts : Scripts) (line : List UInt8) (r : Realm) : List UInt8 × Realm :=
  match (Utf8.decode line).bind (Json.read? requestNesting) with
  | none => ([], r)
  | some message =>
    match handle scripts message r with
    | (some reply, r) => (replyLine reply, r)
    | (none, r) => ([], r)

/-- The bytes that answer some lines in turn, with the realm after them. -/
def answerLines (scripts : Scripts) (lines : List (List UInt8)) (r : Realm) : List UInt8 × Realm :=
  lines.foldl (fun (answers, r) line =>
    let (answer, r) := answerLine scripts line r
    (answers ++ answer, r)) ([], r)

end ScriptLink.Script
