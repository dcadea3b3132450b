import ScriptLink.Proofs.Conversation
import ScriptLink.Proofs.Listening
import ScriptLink.Proofs.LoopSurvival
import ScriptLink.Proofs.Starting

/-! # The threads around an engine

    Callers, the reader, whoever stops the engine and the event loop go on in any order. A caller looks whether the
    context is closed, and puts its request into the queue later; the loop fails the requests that wait one after the
    other, and stops the engine itself when the other end went away. A `Service` has a move for each of these steps, and
    keeps what was taken from the queue and what the loop has done. Main statement: whatever is done with a started
    engine is one way in which the moves can follow one another. -/

namespace ScriptLink
open Relation

/-! ### Moves -/

/-- What the loop goes on with when the requests that waited are failed. -/
inductive Onward where
  | take
  | stop
  | drain

/-- What the event loop does next. -/
inductive Duty where
  | take
  | handle (event : Event)
  | send (r : Request) (line : List UInt8)
  | fail (requests : List Request) (failure : Failure) (onward : Onward)
  /-- It stops the engine, unless somebody else does. -/
  | stop
  /-- Its own stop is under way. -/
  | release
  | drain
  | over
  | raised (fault : LoopFault)

/-- What the loop does when the failing is over. -/
def Onward.duty : Onward → Duty
  | .take => .take
  | .stop => .stop
  | .drain => .drain

/-- What the loop does after an event. -/
def Verdict.duty : Verdict → Duty
  | .goOn => .take
  | .ended => .drain
  | .raised fault => .raised fault

/-- What the loop does after a run of it. -/
def Engine.RunEnd.duty : Engine.RunEnd → Duty
  | .waiting => .take
  | .ended => .over
  | .raised fault => .raised fault

/-- What the loop has done. -/
inductive Note where
  | sent (r : Request) (fault : Option SystemFault)
  /-- A request was completed; the engine counted as stopped, or not. -/
  | ended (completion : Completion) (stopped : Bool)

/-- What has become of an inquiry. -/
inductive Standing where
  /-- The context was open; the request is not in the queue yet. -/
  | admitted
  /-- The request has this number. -/
  | waits (serial : Nat)
  /-- It has failed without a request. -/
  | failed (failure : Failure)

/-- An engine and the threads around it. -/
structure Service where
  engine : Engine
  stage : StopStage
  duty : Duty
  /-- The events that the loop has taken from the queue. -/
  taken : List Event
  callers : List (Inquiry × Standing)
  history : List Note

theorem Inquiry.request?_eq {inquiry : Inquiry} {serial : Nat} {id : Text} {r : Request}
    (h : inquiry.request? serial id = some r) : r.serial = serial ∧ r.id = id := by
  cases inquiry with
  | perform g operation =>
    simp only [request?] at h
    split at h
    · obtain rfl := Option.some.inj h
      exact ⟨rfl, rfl⟩
    · cases h
  | ask operation payload =>
    obtain rfl := Option.some.inj h
    exact ⟨rfl, rfl⟩

/-- The engine after the next move of a stop, and how far that has come then. -/
def StopStage.move (e : Engine) : StopStage → Engine × StopStage
  | .before => (e, .before)
  | .none => ({ e with stopping := true }, .flagged)
  | .flagged => (e.enqueue .finish, .told)
  | .told => ({ e.closeConnection with listening := false }, .closed)
  | .closed => (e.endProcess, .done)
  | .done => (e, .done)

/-- What is asked of a process that is to end. -/
def Worker.endCalls (p : Worker) : List Call :=
  [.terminate, .waitBriefly] ++ if p.stubborn then [.kill, .wait] else []

namespace Engine

theorem closeConnection_eq (e : Engine) : e.closeConnection = { e with
    connection := e.connection.map fun connection => { connection with isOpen := false }
    calls := e.calls ++ e.connection.toList.map fun _ => .closeConnection } := by
  rcases hc : e.connection with _ | connection
  · simp only [closeConnection, hc, Option.map_none, Option.toList_none, List.map_nil, List.append_nil]
    rw [← hc]
  · simp only [closeConnection, hc, Option.map_some, Option.toList_some, List.map_cons, List.map_nil]
    rfl

theorem endProcess_eq (e : Engine) : ∃ log, e.endProcess = { e with
    process := e.process.map fun process => process.ended (if process.stubborn then 9 else 15)
    calls := e.calls ++ e.process.toList.flatMap Worker.endCalls
    log := log } := by
  rcases hp : e.process with _ | process
  · refine ⟨e.log, ?_⟩
    simp only [endProcess, hp, Option.map_none, Option.toList_none, List.flatMap_nil, List.append_nil]
    rw [← hp]
  · by_cases hs : process.stubborn = true <;> refine ⟨e.endProcess.log, ?_⟩ <;>
      simp [endProcess, hp, hs, Worker.endCalls, called, logged]

end Engine

/-- A stop leaves the requests alone. -/
theorem StopStage.move_frame (stage : StopStage) (e : Engine) : (stage.move e).1.started = e.started ∧
    (stage.move e).1.gone = e.gone ∧ (stage.move e).1.pending = e.pending ∧
    (stage.move e).1.completed = e.completed := by
  cases stage with
  | told =>
    rw [move, Engine.closeConnection_eq]
    exact ⟨rfl, rfl, rfl, rfl⟩
  | closed =>
    obtain ⟨log, hlog⟩ := e.endProcess_eq
    rw [move, hlog]
    exact ⟨rfl, rfl, rfl, rfl⟩
  | _ => exact ⟨rfl, rfl, rfl, rfl⟩

theorem StopStage.stopping_move {stage : StopStage} {e : Engine} (h : stage ≠ .none → e.stopping = true) :
    (stage.move e).1.stopping = true := by
  cases stage with
  | none => rfl
  | told =>
    rw [move, Engine.closeConnection_eq]
    exact h StopStage.noConfusion
  | closed =>
    obtain ⟨log, hlog⟩ := e.endProcess_eq
    rw [move, hlog]
    exact h StopStage.noConfusion
  | _ => exact h StopStage.noConfusion

/-- A stop has the same moves beside a reader. -/
theorem Watch.stopNext_eq (x : Watch) :
    x.stopNext = { x with engine := (x.stage.move x.engine).1, stage := (x.stage.move x.engine).2 } := by
  obtain ⟨engine, stage, unfinished, task, coming, taken, judged⟩ := x
  cases stage <;> rfl

/-- The requests that the loop holds in its hands. -/
def Duty.requests : Duty → List Request
  | .handle event => event.request?.toList
  | .fail requests _ _ => requests
  | _ => []

namespace Service
variable {x y : Service}

/-- An engine before its loop has taken anything, with nobody around. -/
def start (e : Engine) : Service where
  engine := e
  stage := if e.stopping then .before else .none
  duty := .take
  taken := []
  callers := []
  history := []

/-- All events that were ever put into the queue. -/
def heard (x : Service) : List Event := x.taken ++ x.engine.queue

/-- All requests that were ever put into the queue. -/
def asked (x : Service) : List Request := x.heard.filterMap Event.request?

/-- The requests that were taken up and have no answer. -/
def waiting (x : Service) : List Request := x.engine.pending.map Prod.snd

/-- The requests that have no end yet. -/
def unfinished (x : Service) : List Request := x.waiting ++ (x.duty.requests ++ x.engine.queued)

/-- A request is completed, which is noted together with whether the engine counts as stopped. -/
def conclude (x : Service) (r : Request) (outcome : Outcome) : Service :=
  { x with
    engine := x.engine.complete r outcome
    history := x.history ++ [.ended ⟨r.serial, outcome⟩ x.engine.stopped] }

/-- All requests that wait are to be failed. -/
def clear (x : Service) (failure : Failure) (onward : Onward) : Service :=
  { x with
    engine := { x.engine with pending := [] }
    duty := .fail x.waiting failure onward }

/-- What the loop does with an event, up to the first request that it sends or fails. -/
def handle (x : Service) (event : Event) : Service :=
  match event with
  | .finish => x.clear engineWasStopped .drain
  | .closed reason =>
    clear { x with engine := { x.engine.logged .info (.ofString "Node runtime went away: " ++ reason) with
      gone := some reason } } (.closed reason) .stop
  | .protocolError message =>
    clear { x with engine := x.engine.logged .warning (.ofString "Protocol error: " ++ message) } (.engine message) .take
  | .request r =>
    match x.engine.gone with
    | some reason => { x.conclude r (.error (.closed reason)) with duty := .take }
    | none =>
      { x with
        engine := { x.engine with pending := x.engine.pending.insert r.id r }
        duty := match r.line with
          | .error reason => .raised (.unwritable reason)
          | .ok line => .send r line }
  | .message _ | .stray _ =>
    { x with
      engine := (x.engine.handle event).1
      duty := (x.engine.handle event).2.duty
      history := x.history ++ ((x.engine.handle event).1.completed.drop x.engine.completed.length).map fun completion =>
        .ended completion x.engine.stopped }

/-- The requests in the queue are failed, and nothing else is done with it. -/
def drainNext (x : Service) : Service :=
  match x.engine.queue with
  | [] => { x with duty := .over }
  | event :: rest =>
    let x := { x with engine := { x.engine with queue := rest }, taken := x.taken ++ [event] }
    match event.request? with
    | some r => x.conclude r (.error engineWasStopped)
    | none => x

/-- The service after the next move of a stop. -/
def stopNext (x : Service) : Service :=
  { x with engine := (x.stage.move x.engine).1, stage := (x.stage.move x.engine).2 }

/-- The service after the next move of the loop. -/
def work (x : Service) : Service :=
  match x.duty with
  | .take =>
    match x.engine.queue with
    | [] => x
    | event :: rest =>
      { x with engine := { x.engine with queue := rest }, taken := x.taken ++ [event], duty := .handle event }
  | .handle event => x.handle event
  | .send r line =>
    match x.engine.write line with
    | (e, none) => { x with engine := e, history := x.history ++ [.sent r none], duty := .take }
    | (e, some fault) =>
      { conclude { x with engine := e.forget r.id, history := x.history ++ [.sent r (some fault)] } r
        (.error (.closed (.ofString "could not reach engine: " ++ fault.message))) with duty := .take }
  | .fail [] _ onward => { x with duty := onward.duty }
  | .fail (r :: requests) failure onward =>
    { x.conclude r (.error failure) with duty := .fail requests failure onward }
  | .stop =>
    if x.engine.stopping then { x with duty := .take }
    else { x with engine := { x.engine with stopping := true }, stage := .flagged, duty := .release }
  | .release =>
    match x.stage with
    | .before | .done => { x with duty := .take }
    | _ => x.stopNext
  | .drain => x.drainNext
  | .over | .raised _ => x

/-- What becomes of an inquiry when it is begun. -/
def standing (x : Service) : Inquiry → Standing
  | .perform g operation =>
    match operation.payload g with
    | .error refusal => .failed (.refused refusal)
    | .ok _ => if x.engine.stopped then .failed (.closed (.ofString "context is closed")) else .admitted
  | .ask _ _ => .admitted

/-- A caller comes with an inquiry. -/
def begin (x : Service) (inquiry : Inquiry) : Service :=
  { x with callers := x.callers ++ [(inquiry, x.standing inquiry)] }

/-- An admitted caller goes on: its request is put into the queue, unless the engine is stopped. -/
def ask (x : Service) (k : Nat) (inquiry : Inquiry) (id : Text) : Service :=
  if x.engine.stopping ∨ ¬ x.engine.started then
    { x with callers := x.callers.set k (inquiry, .failed (.closed (.ofString "engine is not running"))) }
  else
    match inquiry.request? x.asked.length id with
    | none => x
    | some r =>
      { x with
        engine := x.engine.enqueue (.request r)
        callers := x.callers.set k (inquiry, .waits r.serial) }

/-- What can happen. The id of a new request is one that no unfinished request has; the reader puts the event of a line
    into the queue, or tells why nothing more will come; and what the process and the connection will do may change. -/
inductive Step : Service → Service → Prop
  | works (x : Service) : Step x x.work
  | stops (x : Service) : Step x x.stopNext
  | begins (x : Service) (inquiry : Inquiry) : Step x (x.begin inquiry)
  | asks {x : Service} {k : Nat} {inquiry : Inquiry} (id : Text) (admitted : x.callers[k]? = some (inquiry, .admitted))
      (apart : ∀ other ∈ x.unfinished, other.id ≠ id) : Step x (x.ask k inquiry id)
  | hears (x : Service) (line : List UInt8) :
      Step x { x with engine := { x.engine with queue := x.engine.queue ++ (Event.ofLine? line).toList } }
  | loses (x : Service) (reason : Text) : Step x { x with engine := x.engine.enqueue (.closed reason) }
  | looks (x : Service) (looks : List (Option Int)) :
      Step x { x with engine := { x.engine with
        process := x.engine.process.map fun process => { process with looks := looks } } }
  | meets (x : Service) (obstacles : List (Option Obstacle)) :
      Step x { x with engine := { x.engine with
        connection := x.engine.connection.map fun connection => { connection with obstacles := obstacles } } }

/-- The service can come to this from a start. -/
def Run (e : Engine) (x : Service) : Prop :=
  ReflTransGen Step (start e) x

/-! ### What a move of the loop is -/

end Service

/-- What the queue holds where nothing but callers, the reader and stops put something into it. -/
inductive Event.Known : Event → Prop
  | request (r : Request) : Known (.request r)
  | message (content : Json) (tellable : content.Tellable) : Known (.message (.ofJson content))
  | protocolError (words : Text) : Known (.protocolError words)
  | closed (reason : Text) : Known (.closed reason)
  | finish : Known .finish

/-- What all waiting requests are failed with, and what comes then. -/
inductive Event.Clears : Event → Failure → Onward → Prop
  | finish : Clears .finish engineWasStopped .drain
  | closed (reason : Text) : Clears (.closed reason) (.closed reason) .stop
  | protocolError (words : Text) : Clears (.protocolError words) (.engine words) .take

/-- Why the end went away, after an event. -/
def Event.goneAfter (gone : Option Text) : Event → Option Text
  | .closed reason => some reason
  | _ => gone

namespace Service
variable {x y : Service}

/-- The moves of the loop. -/
inductive Works (x : Service) : Service → Prop
  | rests (idle : x.duty = .take ∧ x.engine.queue = [] ∨ x.duty = .over ∨ ∃ fault, x.duty = .raised fault) : Works x x
  | takes {event : Event} {rest : List Event} (duty : x.duty = .take) (queue : x.engine.queue = event :: rest) :
      Works x { x with
        engine := { x.engine with queue := rest }
        taken := x.taken ++ [event]
        duty := .handle event }
  | turnsAway {r : Request} {reason : Text} (duty : x.duty = .handle (.request r)) (gone : x.engine.gone = some reason) :
      Works x { x.conclude r (.error (.closed reason)) with duty := .take }
  | awaits {r : Request} {line : List UInt8} (duty : x.duty = .handle (.request r)) (gone : x.engine.gone = none)
      (writes : r.line = .ok line) :
      Works x { x with engine := { x.engine with pending := x.engine.pending.insert r.id r }, duty := .send r line }
  | chokes {r : Request} {reason : Unwritable} (duty : x.duty = .handle (.request r)) (gone : x.engine.gone = none)
      (fails : r.line = .error reason) :
      Works x { x with
        engine := { x.engine with pending := x.engine.pending.insert r.id r }
        duty := .raised (.unwritable reason) }
  | passesOver {content : Json} (log : List LogEntry) (duty : x.duty = .handle (.message (.ofJson content))) :
      Works x { x with engine := { x.engine with log := log }, duty := .take }
  | raises {content : Json} {fault : LoopFault} (duty : x.duty = .handle (.message (.ofJson content)))
      (fatal : (Event.message (.ofJson content)).fault? = some fault) : Works x { x with duty := .raised fault }
  | replies {content : Json} {id : Text} {r : Request} {outcome : Outcome} (log : List LogEntry)
      (duty : x.duty = .handle (.message (.ofJson content))) (reply : content.reply? = some (id, outcome))
      (found : x.engine.pending.find? id = some r) :
      Works x { conclude { x with engine := { x.engine.forget id with log := log } } r outcome with duty := .take }
  | clears {event : Event} {failure : Failure} {onward : Onward} (log : List LogEntry) (duty : x.duty = .handle event)
      (clears : event.Clears failure onward) :
      Works x (clear { x with engine := { x.engine with gone := event.goneAfter x.engine.gone, log := log } }
        failure onward)
  | concludes {r : Request} {requests : List Request} {failure : Failure} {onward : Onward}
      (duty : x.duty = .fail (r :: requests) failure onward) :
      Works x { x.conclude r (.error failure) with duty := .fail requests failure onward }
  | goesOn {failure : Failure} {onward : Onward} (duty : x.duty = .fail [] failure onward) :
      Works x { x with duty := onward.duty }
  | sends {r : Request} {line : List UInt8} (connection : Option Connection) (duty : x.duty = .send r line)
      (written : connection = (x.engine.write line).1.connection) :
      Works x { x with
        engine := { x.engine with connection := connection }
        history := x.history ++ [.sent r none]
        duty := .take }
  | drops {r : Request} {line : List UInt8} (connection : Option Connection) (fault : SystemFault)
      (duty : x.duty = .send r line) (written : connection = (x.engine.write line).1.connection) :
      Works x { conclude { x with
          engine := { x.engine with connection := connection }.forget r.id
          history := x.history ++ [.sent r (some fault)] } r
        (.error (.closed (.ofString "could not reach engine: " ++ fault.message))) with duty := .take }
  | leaves (duty : x.duty = .stop) (stopping : x.engine.stopping = true) : Works x { x with duty := .take }
  | flags (duty : x.duty = .stop) (stopping : x.engine.stopping = false) :
      Works x { x with engine := { x.engine with stopping := true }, stage := .flagged, duty := .release }
  | releases (duty : x.duty = .release) (stage : x.stage ≠ .before ∧ x.stage ≠ .done) : Works x x.stopNext
  | hasReleased (duty : x.duty = .release) (stage : x.stage = .before ∨ x.stage = .done) :
      Works x { x with duty := .take }
  | drains {event : Event} {rest : List Event} (duty : x.duty = .drain) (queue : x.engine.queue = event :: rest)
      (brings : event.request? = none) :
      Works x { x with engine := { x.engine with queue := rest }, taken := x.taken ++ [event] }
  | drainsRequest {r : Request} {rest : List Event} (duty : x.duty = .drain)
      (queue : x.engine.queue = .request r :: rest) :
      Works x (conclude { x with engine := { x.engine with queue := rest }, taken := x.taken ++ [.request r] } r
        (.error engineWasStopped))
  | ends (duty : x.duty = .drain) (queue : x.engine.queue = []) : Works x { x with duty := .over }

/-- A message that ends the loop does nothing else. -/
theorem handle_of_fault {content : Host.Value} {fault : LoopFault} (h : (Event.message content).fault? = some fault) :
    x.handle (.message content) = { x with duty := .raised fault } := by
  simp only [handle, Engine.handle_fault h, Verdict.duty, List.drop_length, List.map_nil, List.append_nil]

theorem works_handle {event : Event} (hduty : x.duty = .handle event) (hknown : event.Known) :
    x.Works (x.handle event) := by
  cases hknown with
  | finish => exact .clears x.engine.log hduty .finish
  | closed reason => exact .clears _ hduty (.closed reason)
  | protocolError words => exact .clears _ hduty (.protocolError words)
  | request r =>
    simp only [handle]
    split
    · rename_i reason hg
      exact .turnsAway hduty hg
    · rename_i hg
      rcases hline : r.line with reason | line
      · exact .chokes hduty hg hline
      · exact .awaits hduty hg hline
  | message content htellable =>
    rcases hfault : (Event.message (.ofJson content)).fault? with _ | fault
    · obtain ⟨log, hhandle⟩ := Engine.handle_message (e := x.engine) hfault htellable
      simp only [handle, hhandle, Verdict.duty]
      rcases hreply : content.reply? with _ | ⟨id, outcome⟩
      · simp only [Engine.heed, hreply, List.drop_length, List.map_nil, List.append_nil]
        exact .passesOver log hduty
      · rcases hfind : x.engine.pending.find? id with _ | r
        · simp only [Engine.heed, hreply, hfind, List.drop_length, List.map_nil, List.append_nil]
          exact .passesOver log hduty
        · simp only [Engine.heed, hreply, hfind, Engine.complete, Engine.forget, List.drop_left, List.map_cons,
            List.map_nil]
          exact .replies log hduty hreply hfind
    · rw [handle_of_fault hfault]
      exact .raises hduty hfault

/-- A write changes the connection at most. -/
theorem write_eq (e : Engine) (line : List UInt8) :
    (e.write line).1 = { e with connection := (e.write line).1.connection } := by
  unfold Engine.write
  split <;> rfl

theorem works_send {r : Request} {line : List UInt8} (hduty : x.duty = .send r line) : x.Works x.work := by
  have heq := write_eq x.engine line
  simp only [work, hduty]
  rcases hwrite : x.engine.write line with ⟨e, _ | fault⟩ <;> rw [hwrite] at heq <;>
    rw [show e = { x.engine with connection := e.connection } from heq]
  · exact .sends e.connection hduty (by rw [hwrite])
  · exact .drops e.connection fault hduty (by rw [hwrite])

theorem works_drain (hduty : x.duty = .drain) : x.Works x.work := by
  have hwork : x.work = x.drainNext := by simp only [work, hduty]
  rw [hwork, drainNext]
  split
  · rename_i hq
    exact .ends hduty hq
  · rename_i event rest hq
    split
    · rename_i r hr
      cases event with
      | request r =>
        obtain rfl := Option.some.inj hr
        exact .drainsRequest hduty hq
      | _ => cases hr
    · rename_i hr
      exact .drains hduty hq hr

theorem works_release (hduty : x.duty = .release) : x.Works x.work := by
  simp only [work, hduty]
  split
  · rename_i hstage
    exact .hasReleased hduty (.inl hstage)
  · rename_i hstage
    exact .hasReleased hduty (.inr hstage)
  · rename_i hbefore hdone
    exact .releases hduty ⟨hbefore, hdone⟩

theorem works_stop (hduty : x.duty = .stop) : x.Works x.work := by
  simp only [work, hduty]
  split
  · rename_i hs
    exact .leaves hduty hs
  · rename_i hs
    exact .flags hduty (Bool.not_eq_true _ ▸ hs)

theorem works_work (hknown : ∀ event, x.duty = .handle event → event.Known) : x.Works x.work := by
  rcases hduty : x.duty with _ | event | ⟨r, line⟩ | ⟨_ | ⟨r, requests⟩, failure, onward⟩ | _ | _ | _ | _ | fault
  · simp only [work, hduty]
    split
    · rename_i hq
      exact .rests (.inl ⟨hduty, hq⟩)
    · rename_i event rest hq
      exact .takes hduty hq
  · simp only [work, hduty]
    exact works_handle hduty (hknown event hduty)
  · exact works_send hduty
  · simp only [work, hduty]
    exact .goesOn hduty
  · simp only [work, hduty]
    exact .concludes hduty
  · exact works_stop hduty
  · exact works_release hduty
  · exact works_drain hduty
  · simp only [work, hduty]
    exact .rests (.inr (.inl hduty))
  · simp only [work, hduty]
    exact .rests (.inr (.inr ⟨fault, hduty⟩))

/-! ### What goes on beside the loop -/

/-- What becomes of a caller who goes on. -/
inductive Asks (x : Service) (k : Nat) (inquiry : Inquiry) (id : Text) : Service → Prop
  | turnsAway (closed : x.engine.stopping = true ∨ ¬ x.engine.started) :
      Asks x k inquiry id { x with
        callers := x.callers.set k (inquiry, .failed (.closed (.ofString "engine is not running"))) }
  | puts {r : Request} (live : ¬ (x.engine.stopping = true ∨ ¬ x.engine.started))
      (request : inquiry.request? x.asked.length id = some r) :
      Asks x k inquiry id { x with
        engine := x.engine.enqueue (.request r)
        callers := x.callers.set k (inquiry, .waits r.serial) }
  | rests (request : inquiry.request? x.asked.length id = none) : Asks x k inquiry id x

theorem asks_ask (x : Service) (k : Nat) (inquiry : Inquiry) (id : Text) :
    x.Asks k inquiry id (x.ask k inquiry id) := by
  unfold ask
  split
  · rename_i hclosed
    exact .turnsAway hclosed
  · rename_i hlive
    split
    · rename_i hrequest
      exact .rests hrequest
    · rename_i r hrequest
      exact .puts hlive hrequest

/-- Whoever is neither the loop nor about to stop the engine puts something into the queue at most, but no finish, and
    no request where the engine is stopped. -/
structure Beside (x y : Service) : Prop where
  stage : y.stage = x.stage
  duty : y.duty = x.duty
  taken : y.taken = x.taken
  history : y.history = x.history
  started : y.engine.started = x.engine.started
  stopping : y.engine.stopping = x.engine.stopping
  gone : y.engine.gone = x.engine.gone
  pending : y.engine.pending = x.engine.pending
  completed : y.engine.completed = x.engine.completed
  queue : ∃ more, y.engine.queue = x.engine.queue ++ more ∧ .finish ∉ more ∧
    (x.engine.stopping = true → ∀ event ∈ more, event.request? = none)

theorem Asks.beside {k : Nat} {inquiry : Inquiry} {id : Text} (h : x.Asks k inquiry id y) : x.Beside y := by
  cases h with
  | turnsAway | rests =>
    exact ⟨rfl, rfl, rfl, rfl, rfl, rfl, rfl, rfl, rfl, [], (List.append_nil _).symm, List.not_mem_nil,
      fun _ => List.forall_mem_nil _⟩
  | @puts r live =>
    exact ⟨rfl, rfl, rfl, rfl, rfl, rfl, rfl, rfl, rfl, [.request r], rfl, by simp, fun hs => absurd (.inl hs) live⟩

/-- A step is a move of the loop, a move of a stop, or goes on beside them. -/
theorem Step.threads (h : Step x y) : y = x.work ∨ y = x.stopNext ∨ x.Beside y := by
  cases h with
  | works => exact .inl rfl
  | stops => exact .inr (.inl rfl)
  | asks => exact .inr (.inr (asks_ask ..).beside)
  | hears line =>
    refine .inr (.inr ⟨rfl, rfl, rfl, rfl, rfl, rfl, rfl, rfl, rfl, _, rfl, fun hm => ?_, fun _ event hm => ?_⟩)
    · rcases Event.ofLine?_cases (Option.mem_toList.mp hm) with ⟨content, hevent, -⟩ | ⟨words, hevent⟩ <;> cases hevent
    · rcases Event.ofLine?_cases (Option.mem_toList.mp hm) with ⟨content, rfl, -⟩ | ⟨words, rfl⟩ <;> rfl
  | loses reason =>
    refine .inr (.inr ⟨rfl, rfl, rfl, rfl, rfl, rfl, rfl, rfl, rfl, [.closed reason], rfl, by simp, ?_⟩)
    intro _ event hm
    rw [List.mem_singleton.mp hm]
    rfl
  | begins | looks | meets =>
    exact .inr (.inr ⟨rfl, rfl, rfl, rfl, rfl, rfl, rfl, rfl, rfl, [], (List.append_nil _).symm, List.not_mem_nil,
      fun _ => List.forall_mem_nil _⟩)

end Service
end ScriptLink
