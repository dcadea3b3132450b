import ScriptLink.Engine.Loop
import ScriptLink.Engine.Reader
import ScriptLink.Engine.Start
import ScriptLink.Operation

/-! # Sessions

    A session is a context at work: an engine that was started, with the reader and the event loop that serve it. A
    caller asks for one operation at a time and waits for its end. Whatever the peer does meanwhile passes through
    the reader and the event loop. -/

namespace ScriptLink

/-- A context at work. -/
structure Session where
  site : Site
  /-- What the reader received since the last newline. -/
  unfinished : List UInt8
  /-- Whether the reader looks at the process next. -/
  looks : Bool
  /-- Whether the reader is still at work. -/
  reading : Bool
  /-- Whether the event loop is still at work. -/
  looping : Bool
  /-- The number of requests so far. -/
  requests : Nat
  /-- The id of each request, by its number. -/
  ids : Nat → Text

namespace Session

/-- The engine of a session. -/
def engine (s : Session) : Engine := s.site.engine

/-- The session with another state of its engine. -/
def withEngine (s : Session) (e : Engine) : Session :=
  { s with site := { s.site with engine := e } }

/-- Whether the context is of no use any more. -/
def closed (s : Session) : Bool := s.engine.stopped

/-- How a context shows itself. -/
def display (s : Session) : Text :=
  if s.closed then .ofString "<Context closed>" else .ofString "<Context live>"

/-- The session after the event loop has handled all there is. -/
def settle (s : Session) : Session :=
  if s.looping then
    let (e, runEnd) := s.engine.run
    { s.withEngine e with looping := runEnd = .waiting }
  else s

/-- A session whose engine was not started yet. -/
def idle (site : Site) (ids : Nat → Text) : Session := ⟨site, [], true, false, false, 0, ids⟩

/-- The engine started, and with it the event loop and the reader, which registers the connection while it is open. -/
def start (machine : Machine) (s : Session) : Except Failure Unit × Session :=
  match s.site.start machine with
  | (.error failure, site) => (.error failure, { s with site := site })
  | (.ok (), site) => (.ok (), settle { s with site := site, reading := true, looping := true })

/-- The session after an attempt of the reader to receive. -/
def receive (s : Session) (receipt : Receipt) : Session :=
  if s.reading then
    let (r, progress) := Reader.advance s.looks ⟨s.engine, s.unfinished, 0⟩ receipt
    settle { s.withEngine r.engine with
      unfinished := r.unfinished
      looks := progress = .newRound
      reading := match progress with
        | .ended _ => false
        | _ => true }
  else s

/-- The session after some attempts of the reader to receive. -/
def hear (s : Session) (receipts : List Receipt) : Session :=
  receipts.foldl receive s

/-- An attempt that gives nothing for now. -/
def silence : Receipt := ⟨false, false, .nothing⟩

/-- The engine stopped, by the caller or by somebody else; the reader notices at its next look. -/
def close (s : Session) : Session :=
  (s.withEngine s.engine.stop).settle.receive silence

/-- What can happen while a caller waits. -/
inductive Happening where
  | written (bytes : List UInt8)
  | exited (code : Int)
  | disconnected
  /-- Somebody else closes the context. -/
  | closedMeanwhile
deriving DecidableEq

/-- The session after something happened. -/
def happen (s : Session) : Happening → Session
  | .written [] => s
  | .written bytes => s.hear [⟨false, false, .data bytes⟩, silence]
  | .exited code =>
    let process := s.engine.process.map fun process => { process with looks := [some code] }
    (s.withEngine { s.engine with process := process }).receive silence
  | .disconnected => s.receive ⟨false, false, .ended⟩
  | .closedMeanwhile => s.close

/-- A request is put into the queue and, as long as the event loop is at work, sent. It is known by its number. -/
def request (s : Session) (operation payload : Host.Value) : Except Failure Nat × Session :=
  if s.engine.stopping ∨ ¬ s.engine.started then (.error (.closed (.ofString "engine is not running")), s)
  else
    let request : Request := ⟨s.requests, s.ids s.requests, operation, payload⟩
    (.ok s.requests, settle { s.withEngine (s.engine.enqueue (.request request)) with requests := s.requests + 1 })

/-- A request from its beginning to its end; `meanwhile` is what happens in between. There is no outcome as long as
    nothing decides it. -/
def ask (s : Session) (operation payload : Host.Value) (meanwhile : Session → Session) : Option Outcome × Session :=
  match s.request operation payload with
  | (.error failure, s) => (some (.error failure), s)
  | (.ok serial, s) =>
    let s := meanwhile s
    (s.engine.outcome? serial, s)

/-- An operation from its beginning to its end. -/
def perform (s : Session) (g : Host.Graph) (operation : Operation) (meanwhile : Session → Session) :
    Option Outcome × Session :=
  match operation.payload g with
  | .error refusal => (some (.error (.refused refusal)), s)
  | .ok payload =>
    if s.closed then (some (.error (.closed (.ofString "context is closed"))), s)
    else
      let (outcome, s) := s.ask (.text operation.requestName) payload meanwhile
      (outcome.map fun outcome => outcome.bind operation.value, s)

end Session

end ScriptLink
