import ScriptLink.Error.Failure
import ScriptLink.Json.Reader
import ScriptLink.Text.Utf8

/-! # Events

    Whatever happens to an engine is an event in its queue: a request of a caller, something that the peer wrote, the
    end of the connection, or the wish to finish. A line of the peer becomes a message or a protocol error, and a
    blank one becomes nothing. -/

namespace ScriptLink

/-- A request of a caller. The serial number tells it from every other request; the id under which the peer answers
    only has to differ from those of the requests that wait at the same time. -/
structure Request where
  serial : Nat
  id : Text
  operation : Host.Value
  payload : Host.Value
deriving Inhabited

/-- What a request ends with: a result, still as the peer sent it, or a failure. -/
abbrev Outcome := Except Failure Host.Value

/-- What the queue of an engine holds. -/
inductive Event where
  | request (r : Request)
  | message (content : Host.Value)
  | protocolError (message : Text)
  | closed (reason : Text)
  | finish
  /-- Anything else. -/
  | stray (value : Host.Value)
deriving Inhabited

/-- Whether a byte is blank at the ends of a line. -/
def isBlankByte (b : UInt8) : Bool :=
  b == 0x20 || (0x09 ≤ b && b ≤ 0x0D)

/-- The event that a line of the peer becomes, if any. -/
def Event.ofLine? (line : List UInt8) : Option Event :=
  if line.all isBlankByte then none
  else
    match (Utf8.decode line).bind (Json.read? Json.nestingLimit) with
    | some value => some (.message (.ofJson value))
    | none => some (.protocolError (.ofString "Could not decode Node output"))

/-- What the peer answers to a request. -/
inductive Answer where
  | result (value : Host.Value)
  | error (report : Host.Value)
  | refusal (message : Host.Value)

/-- What keeps an answer from giving an outcome, if anything. -/
def Answer.unshown? : Answer → Option Host.Unshown
  | .error report => ScriptError.unshown? report
  | _ => none

/-- The outcome that an answer gives to its request. -/
def Answer.outcome : Answer → Outcome
  | .result value => .ok value
  | .error report => .error (.script (.ofReport report))
  | .refusal message => .error (.engine message.message)

/-- The answer that the entries of a message hold, by the name of its type and the entries of its payload. -/
def Answer.ofPayload? (type : Text) (payload : List (Host.Value × Host.Value)) : Option Answer :=
  if type = .ofString "result" then (Host.lookup? payload (.ofString "result")).map .result
  else if type = .ofString "error" then (Host.lookup? payload (.ofString "error")).map .error
  else if type = .ofString "protocol_error" then (Host.lookup? payload (.ofString "message")).map .refusal
  else none

/-- The answer that a message holds, with the id of the request that it is for. Further entries do no harm. -/
def Answer.ofMessage? (content : Host.Value) : Option (Answer × Host.Value) :=
  match content with
  | .mapping _ entries => do
    let type ← (← Host.lookup? entries (.ofString "type")).likeText?
    let id ← Host.lookup? entries (.ofString "event_id")
    match ← Host.lookup? entries (.ofString "payload") with
    | .mapping _ payload => (Answer.ofPayload? type payload).map fun answer => (answer, id)
    | _ => none
  | _ => none

end ScriptLink
