import ScriptLink.Engine.Loop
import ScriptLink.Proofs.Members

/-! # What the event loop makes of every request

    The queue of an engine at work holds requests, messages of the peer, protocol errors, ends of the connection and
    finishes. `Incoming` names them, and `outcomeOf?` reads off the queue alone how a request in it must end: by the
    finish or the end of the connection before it, by the obstacle that its own line meets, or else by the first
    arrival behind it that decides. Main statement: a run of the loop ends with nothing waiting and nothing queued,
    and has completed every request once, with that outcome, unless it is left by a fault: that is so exactly where a
    message without an answer, before the first finish, is nested too deep for the log.

    The induction is on the arrivals. `ends` lists the completions that are still owed to the requests among them, and
    one step of the loop pays what the first arrival decides: of the waiting requests, and of those to come. -/

namespace ScriptLink

/-- What can stand in the queue of an engine at work. -/
inductive Incoming where
  | request (r : Request)
  | message (content : Json)
  | protocolError (message : Text)
  | closed (reason : Text)
  | finish

/-- The member of a JSON object under a name. -/
def Json.at? (name : String) : Json → Option Json
  | .object members => Members.find? members (.ofString name)
  | _ => none

/-- The text that a JSON value is. -/
def Json.text? : Json → Option Text
  | .text t => some t
  | _ => none

/-- The outcome that the payload of a message of some type stands for. -/
def Json.outcomeOfType? (type : Text) (payload : Json) : Option Outcome :=
  if type = .ofString "result" then (payload.at? "result").map fun result => .ok (.ofJson result)
  else if type = .ofString "error" then
    (payload.at? "error").map fun report => .error (.script (.ofReport (.ofJson report)))
  else if type = .ofString "protocol_error" then
    (payload.at? "message").map fun words => .error (.engine (Host.Value.ofJson words).message)
  else none

/-- The id of the request that a message answers, with the outcome that it brings. -/
def Json.reply? (content : Json) : Option (Text × Outcome) := do
  let type ← (← content.at? "type").text?
  let id ← (← content.at? "event_id").text?
  let outcome ← Json.outcomeOfType? type (← content.at? "payload")
  return (id, outcome)

namespace Incoming

/-- The event that stands in the queue. -/
def event : Incoming → Event
  | .request r => .request r
  | .message content => .message (.ofJson content)
  | .protocolError words => .protocolError words
  | .closed reason => .closed reason
  | .finish => .finish

/-- Whether an arrival is a finish. -/
def isFinish : Incoming → Bool
  | .finish => true
  | _ => false

/-- The arrivals before the first finish: what stands behind it is not heeded any more. -/
def heeded (arrivals : List Incoming) : List Incoming :=
  arrivals.takeWhile fun arrival => !arrival.isFinish

/-- The requests among some arrivals, in order. -/
def requests (arrivals : List Incoming) : List Request :=
  arrivals.filterMap fun arrival =>
    match arrival with
    | .request r => some r
    | _ => none

/-- Why the other end is known to be gone after some arrivals: the last of them that says so counts. -/
def goneAfter (gone : Option Text) (arrivals : List Incoming) : Option Text :=
  arrivals.foldl (fun gone arrival =>
    match arrival with
    | .closed reason => some reason
    | _ => gone) gone

/-- The outcome that an arrival gives to a request that waits under an id, if it decides it. -/
def decision? (id : Text) : Incoming → Option Outcome
  | .request _ => none
  | .message content => content.reply?.bind fun reply => if reply.1 = id then some reply.2 else none
  | .protocolError words => some (.error (.engine words))
  | .closed reason => some (.error (.closed reason))
  | .finish => some (.error engineWasStopped)

/-- The failure of a request whose line met an obstacle. -/
def unreachable (obstacle : Obstacle) : Failure :=
  .closed (.ofString "could not reach engine: " ++ obstacle.fault.message)

/-- The outcome of a request that stands between other arrivals. Every request before it was sent when it comes to be
    sent itself, so as many obstacles are used up. -/
def outcomeOf? (gone : Option Text) (obstacles : List (Option Obstacle)) (before : List Incoming) (id : Text)
    (after : List Incoming) : Option Outcome :=
  if before.any isFinish then some (.error engineWasStopped)
  else
    match goneAfter gone before with
    | some reason => some (.error (.closed reason))
    | none =>
      match obstacles[(requests before).length]?.join with
      | some obstacle => some (.error (unreachable obstacle))
      | none => after.findSome? (decision? id)

end Incoming

/-- A request whose parts have a form in JSON. -/
def Request.Writable (r : Request) : Prop :=
  (∃ name, Json.write r.operation = .ok name) ∧ ∃ text, Json.write r.payload = .ok text

/-- A message that is for the request with some id, if it has an id at all: none that is a list or an object. -/
def Json.HasPlainId (content : Json) : Prop :=
  ∀ id, content.at? "event_id" = some id → (∀ items, id ≠ .array items) ∧ ∀ members, id ≠ .object members

/-- A message whose answer, if it holds one, can be given. What the peer writes on a line always can. -/
def Json.Tellable (content : Json) : Prop :=
  ∀ answer id, Answer.ofMessage? (.ofJson content) = some (answer, id) → answer.unshown? = none

/-- A message that holds no answer and is nested too deep to be shown to the log. -/
def Json.Unloggable (content : Json) : Prop :=
  Answer.ofMessage? (.ofJson content) = none ∧
    ∃ reason, (Event.message (.ofJson content)).unshown? = some reason ∧ reason.exhausts = true

/-- An engine at work whose queue holds these arrivals, and whose coming writes meet these obstacles. Requests are
    told apart by their ids and by their serial numbers, and none of them was completed before. -/
structure Engine.Faces (e : Engine) (arrivals : List Incoming) (obstacles : List (Option Obstacle)) : Prop where
  queue : e.queue = arrivals.map Incoming.event
  finish : .finish ∈ arrivals
  connection : ∃ c, e.connection = some c ∧ c.obstacles = obstacles
  writable : ∀ r ∈ Incoming.requests arrivals, r.Writable
  plainIds : ∀ content, .message content ∈ arrivals → content.HasPlainId
  tellable : ∀ content, .message content ∈ arrivals → content.Tellable
  ids : (e.pending.names ++ (Incoming.requests arrivals).map Request.id).Nodup
  serials : (e.pending.map (·.2.serial) ++ (Incoming.requests arrivals).map Request.serial).Nodup
  fresh : ∀ c ∈ e.completed, c.serial ∉ e.pending.map (·.2.serial) ++ (Incoming.requests arrivals).map Request.serial

/-- The outcomes with which a request was completed, in order. -/
def Engine.outcomesOf (e : Engine) (r : Request) : List Outcome :=
  (e.completed.filter fun c => c.serial = r.serial).map Completion.outcome

/-! ### Messages -/

section Messages
variable {content : Json} {answer : Answer} {id : Host.Value}

theorem Host.Value.likeText?_ofJson (j : Json) : (Host.Value.ofJson j).likeText? = j.text? := by
  cases j <;> rfl

theorem Host.Value.unhashable?_ofJson {j : Json} (harray : ∀ items, j ≠ .array items)
    (hobject : ∀ members, j ≠ .object members) : (Host.Value.ofJson j).unhashable? = Option.none := by
  cases j with
  | array items => exact absurd rfl (harray items)
  | object members => exact absurd rfl (hobject members)
  | _ => rfl

/-- The answer in a JSON message, by the parts of the message. -/
theorem Answer.ofMessage?_object (members : Members Json) :
    Answer.ofMessage? (.ofJson (.object members)) =
      ((members.find? (.ofString "type")).bind Json.text?).bind fun type =>
        (members.find? (.ofString "event_id")).bind fun j =>
          (members.find? (.ofString "payload")).bind fun payload =>
            match payload with
            | .object parts =>
              (Answer.ofPayload? type (Host.ofJsonMembers parts)).map fun answer => (answer, Host.Value.ofJson j)
            | _ => none := by
  simp only [Host.Value.ofJson, Answer.ofMessage?, Host.lookup?_ofJsonMembers]
  rcases members.find? (.ofString "type") with _ | jtype
  · rfl
  · simp only [Option.map_some, Option.bind_some, Option.bind_eq_bind, Host.Value.likeText?_ofJson]
    congr 1
    funext type
    rcases members.find? (.ofString "event_id") with _ | j
    · rfl
    · rcases members.find? (.ofString "payload") with _ | payload
      · rfl
      · cases payload <;> rfl

theorem Json.outcomeOfType?_object (type : Text) (parts : Members Json) :
    Json.outcomeOfType? type (.object parts) =
      (Answer.ofPayload? type (Host.ofJsonMembers parts)).map Answer.outcome := by
  simp only [Json.outcomeOfType?, Json.at?, Answer.ofPayload?, Host.lookup?_ofJsonMembers]
  split_ifs <;> simp [Function.comp_def, Answer.outcome]

/-- What a JSON message means is what the answer in it means, for the request with the text of its id. -/
theorem Json.reply?_eq (content : Json) :
    content.reply? = (Answer.ofMessage? (.ofJson content)).bind fun found =>
      found.2.likeText?.map fun id => (id, found.1.outcome) := by
  cases content with
  | object members =>
    rw [Answer.ofMessage?_object]
    simp only [Json.reply?, Json.at?, Option.bind_eq_bind, Option.pure_def]
    rcases Members.find? members (.ofString "type") with _ | jtype
    · rfl
    simp only [Option.bind_some]
    rcases jtype.text? with _ | type
    · rfl
    simp only [Option.bind_some]
    rcases Members.find? members (.ofString "event_id") with _ | j
    · rfl
    simp only [Option.bind_some]
    rcases Members.find? members (.ofString "payload") with _ | payload
    · rcases j.text? <;> rfl
    cases payload with
    | object parts =>
      simp only [Option.bind_some, Json.outcomeOfType?_object]
      rcases Answer.ofPayload? type (Host.ofJsonMembers parts) with _ | answer
      · rcases j.text? <;> rfl
      · simp only [Option.map_some, Option.bind_some, Host.Value.likeText?_ofJson]
        rcases j.text? <;> rfl
    | _ => rcases j.text? <;> simp [Json.outcomeOfType?, Json.at?]
  | _ => rfl

/-- The answer that a JSON message holds can be looked up by its id. -/
theorem Answer.unhashable?_of_ofMessage? (plain : content.HasPlainId)
    (h : Answer.ofMessage? (.ofJson content) = some (answer, id)) : id.unhashable? = none := by
  cases content with
  | object members =>
    rw [Answer.ofMessage?_object] at h
    simp only [Option.bind_eq_some_iff] at h
    obtain ⟨type, -, j, hj, payload, -, h⟩ := h
    cases payload with
    | object parts =>
      obtain ⟨_, -, he⟩ := Option.map_eq_some_iff.mp h
      obtain ⟨-, rfl⟩ := Prod.mk.inj he
      obtain ⟨harray, hobject⟩ := plain j hj
      exact Host.Value.unhashable?_ofJson harray hobject
    | _ => cases h
  | _ => cases h

end Messages

/-! ### The parts of a step -/

namespace Engine
variable {e : Engine} {obstacles : List (Option Obstacle)}

/-- An event without any use is logged or passed over, or it is too deep for the log. -/
theorem unexpected_cases (e : Engine) (event : Event) :
    (∃ reason, event.unshown? = some reason ∧ reason.exhausts = true ∧
        e.unexpected event = (e, .raised (.unshown reason))) ∨
      (∀ reason, event.unshown? = some reason → reason.exhausts = false) ∧
        ∃ log, e.unexpected event = ({ e with log := log }, .goOn) := by
  rcases hshown : event.unshown? with _ | reason
  · refine .inr ⟨fun _ h => (Option.some_ne_none _ h.symm).elim,
      (e.logged .warning (.ofString "Unexpected event: " ++ event.display)).log, ?_⟩
    simp only [unexpected, hshown]
    rfl
  · cases hexhausts : reason.exhausts with
    | true => exact .inl ⟨reason, rfl, hexhausts, by simp only [unexpected, hshown, hexhausts, if_true]⟩
    | false =>
      refine .inr ⟨fun other h => Option.some.inj h ▸ hexhausts, e.log, ?_⟩
      simp only [unexpected, hshown, hexhausts, Bool.false_eq_true, if_false]

theorem handle_unloggable {content : Json} (h : content.Unloggable) (e : Engine) :
    ∃ reason, e.handle (.message (.ofJson content)) = (e, .raised (.unshown reason)) := by
  obtain ⟨hmessage, reason, hshown, hexhausts⟩ := h
  exact ⟨reason, by simp only [handle, hmessage, unexpected, hshown, hexhausts, if_true]⟩

theorem handle_loggable {content : Json} (hmessage : Answer.ofMessage? (.ofJson content) = none)
    (h : ¬ content.Unloggable) (e : Engine) :
    ∃ log, e.handle (.message (.ofJson content)) = ({ e with log := log }, .goOn) := by
  simp only [handle, hmessage]
  rcases e.unexpected_cases (.message (.ofJson content)) with ⟨reason, hshown, hexhausts, -⟩ | ⟨-, hlogged⟩
  · exact absurd ⟨hmessage, reason, hshown, hexhausts⟩ h
  · exact hlogged

/-- A stop leaves alone what waits and what was completed, and the obstacles of the connection. -/
theorem stop_frame (e : Engine) : e.stop.gone = e.gone ∧ e.stop.pending = e.pending ∧
    e.stop.completed = e.completed ∧ e.stop.connection.map Connection.obstacles =
      e.connection.map Connection.obstacles := by
  unfold stop
  split
  · exact ⟨rfl, rfl, rfl, rfl⟩
  · simp only [endProcess, closeConnection, enqueue, logged, called]
    cases e.connection <;> cases e.process <;> dsimp only
    · exact ⟨rfl, rfl, rfl, rfl⟩
    · split <;> exact ⟨rfl, rfl, rfl, rfl⟩
    · exact ⟨rfl, rfl, rfl, rfl⟩
    · split <;> exact ⟨rfl, rfl, rfl, rfl⟩

/-- A write uses up one obstacle, and fails if there is one. -/
theorem write_of_obstacles (h : e.connection.map Connection.obstacles = some obstacles) (line : List UInt8) :
    ∃ connection, e.write line = ({ e with connection := some connection }, obstacles.head?.join.map Obstacle.fault) ∧
      connection.obstacles = obstacles.tail := by
  obtain ⟨connection, hc, rfl⟩ := Option.map_eq_some_iff.mp h
  refine ⟨(connection.write line).1, ?_, ?_⟩
  · rcases ho : connection.obstacles with _ | ⟨_ | obstacle, later⟩ <;> simp [write, hc, Connection.write, ho]
  · rcases ho : connection.obstacles with _ | ⟨_ | obstacle, later⟩ <;> simp [Connection.write, ho]

end Engine

theorem Request.line_of_writable {r : Request} (h : r.Writable) : ∃ line, r.line = .ok line := by
  obtain ⟨⟨name, hname⟩, text, htext⟩ := h
  simp [Request.line, Request.toValue, Json.write, Host.MappingKind.isDict, Json.writeEntries, Json.keyText,
    Host.Value.text, Json.writeScalar, hname, htext, bind, Except.bind, Except.map, pure, Except.pure]

namespace Incoming

/-- The outcome of a request that waits under an id while some arrivals are to come. -/
def decided (id : Text) (arrivals : List Incoming) : Outcome :=
  (arrivals.findSome? (decision? id)).getD (.error engineWasStopped)

/-- The completions owed to the requests that wait. -/
def waitingEnds (pending : Members Request) (arrivals : List Incoming) : List Completion :=
  pending.map fun entry => ⟨entry.2.serial, decided entry.1 arrivals⟩

/-- The completions owed to the requests that are to come. -/
def ends (gone : Option Text) (obstacles : List (Option Obstacle)) : List Incoming → List Completion
  | [] => []
  | .finish :: rest => (requests rest).map fun r => ⟨r.serial, .error engineWasStopped⟩
  | .closed reason :: rest => ends (some reason) obstacles rest
  | .message _ :: rest => ends gone obstacles rest
  | .protocolError _ :: rest => ends gone obstacles rest
  | .request r :: rest =>
    match gone with
    | some reason => ⟨r.serial, .error (.closed reason)⟩ :: ends gone obstacles rest
    | none =>
      let outcome := match obstacles.head?.join with
        | some obstacle => .error (unreachable obstacle)
        | none => decided r.id rest
      ⟨r.serial, outcome⟩ :: ends none obstacles.tail rest

theorem ends_request_of_gone {gone : Option Text} {reason : Text} (h : gone = some reason)
    (obstacles : List (Option Obstacle)) (r : Request) (rest : List Incoming) :
    ends gone obstacles (.request r :: rest) = ⟨r.serial, .error (.closed reason)⟩ :: ends gone obstacles rest := by
  rw [h]
  rfl

theorem ends_request_of_sent {gone : Option Text} {obstacles : List (Option Obstacle)} (hg : gone = none)
    (ho : obstacles.head?.join = none) (r : Request) (rest : List Incoming) :
    ends gone obstacles (.request r :: rest) = ⟨r.serial, decided r.id rest⟩ :: ends gone obstacles.tail rest := by
  rw [hg, ends, ho]

theorem ends_request_of_obstacle {gone : Option Text} {obstacles : List (Option Obstacle)} {obstacle : Obstacle}
    (hg : gone = none) (ho : obstacles.head?.join = some obstacle) (r : Request) (rest : List Incoming) :
    ends gone obstacles (.request r :: rest) =
      ⟨r.serial, .error (unreachable obstacle)⟩ :: ends gone obstacles.tail rest := by
  rw [hg, ends, ho]

theorem decided_cons (id : Text) (arrival : Incoming) (rest : List Incoming) :
    decided id (arrival :: rest) = (arrival.decision? id).getD (decided id rest) := by
  unfold decided
  rw [List.findSome?_cons]
  cases arrival.decision? id <;> rfl

end Incoming

/-! ### One step -/

namespace Engine
open Incoming

/-- The arrivals to come stand in the queue, with nothing behind them but finishes. -/
def Queues (e : Engine) (arrivals : List Incoming) : Prop :=
  ∃ later, (∀ event ∈ later, event = .finish) ∧ e.queue = arrivals.map Incoming.event ++ later

/-- The engine in the midst of a run: every request to come can be sent and be told from all others, and every message
    to come can be looked up and its answer be given. -/
structure InRun (e : Engine) (arrivals : List Incoming) (obstacles : List (Option Obstacle)) : Prop where
  connection : e.connection.map Connection.obstacles = some obstacles
  writable : ∀ r ∈ requests arrivals, r.Writable
  plainIds : ∀ content, .message content ∈ arrivals → content.HasPlainId
  tellable : ∀ content, .message content ∈ arrivals → content.Tellable
  ids : (e.pending.names ++ (requests arrivals).map Request.id).Nodup

/-- The completions owed to all requests. -/
def owed (e : Engine) (arrivals : List Incoming) (obstacles : List (Option Obstacle)) : List Completion :=
  waitingEnds e.pending arrivals ++ ends e.gone obstacles arrivals

/-- Handling an arrival goes on to the arrivals behind it, and the completions that it adds are those that are owed no
    more. -/
def Pays (e : Engine) (arrival : Incoming) (rest : List Incoming) (obstacles : List (Option Obstacle)) : Prop :=
  ∃ e' obstacles' paid, e.handle arrival.event = (e', .goOn) ∧ e'.Queues rest ∧ e'.InRun rest obstacles' ∧
    e'.completed = e.completed ++ paid ∧ (paid ++ e'.owed rest obstacles').Perm (e.owed (arrival :: rest) obstacles)

variable {e : Engine} {rest : List Incoming} {obstacles : List (Option Obstacle)}

/-- What decides every waiting request pays them all. -/
theorem waitingEnds_of_decides {pending : Members Request} {arrival : Incoming} {outcome : Outcome}
    (h : ∀ id, arrival.decision? id = some outcome) (rest : List Incoming) :
    waitingEnds pending (arrival :: rest) = pending.map fun entry => ⟨entry.2.serial, outcome⟩ := by
  simp [waitingEnds, decided_cons, h]

/-- What decides no waiting request leaves all of them owed. -/
theorem waitingEnds_of_decides_none {pending : Members Request} {arrival : Incoming}
    (h : ∀ entry ∈ pending, arrival.decision? entry.1 = none) (rest : List Incoming) :
    waitingEnds pending (arrival :: rest) = waitingEnds pending rest := by
  refine List.map_congr_left fun entry he => ?_
  rw [decided_cons, h entry he, Option.getD_none]

/-- A run goes on behind an arrival with an engine that has the same connection, where the requests to come are still
    told from those that wait. -/
theorem InRun.behind {arrival : Incoming} {e' : Engine} {obstacles' : List (Option Obstacle)}
    (h : e.InRun (arrival :: rest) obstacles) (hc : e'.connection.map Connection.obstacles = some obstacles')
    (hids : (e'.pending.names ++ (requests rest).map Request.id).Nodup) : e'.InRun rest obstacles' where
  connection := hc
  writable r hr := h.writable r (List.mem_filterMap.mpr (by
    obtain ⟨other, ho, hr⟩ := List.mem_filterMap.mp hr
    exact ⟨other, List.mem_cons_of_mem _ ho, hr⟩))
  plainIds content hm := h.plainIds content (List.mem_cons_of_mem _ hm)
  tellable content hm := h.tellable content (List.mem_cons_of_mem _ hm)
  ids := hids

theorem pays_protocolError {words : Text} (hq : e.Queues rest) (h : e.InRun (.protocolError words :: rest) obstacles) :
    e.Pays (.protocolError words) rest obstacles := by
  refine ⟨_, obstacles, _, rfl, hq, h.behind h.connection ?_, rfl, ?_⟩
  · exact (List.nodup_append.mp h.ids).2.1
  · rw [owed, owed, waitingEnds_of_decides (fun _ => rfl)]
    exact List.Perm.refl _

theorem pays_closed {reason : Text} (hq : e.Queues rest) (h : e.InRun (.closed reason :: rest) obstacles) :
    e.Pays (.closed reason) rest obstacles := by
  set failed : Engine :=
    { e.logged .info (Text.ofString "Node runtime went away: " ++ reason) with gone := some reason }.failPending
      (.closed reason)
  obtain ⟨hgone, hpending, hcompleted, hconnection⟩ := stop_frame failed
  refine ⟨failed.stop, obstacles, _, rfl, ?_, h.behind ?_ ?_, hcompleted, ?_⟩
  · obtain ⟨later, hlater, hqueue⟩ := hq
    cases hs : failed.stopping with
    | true => exact ⟨later, hlater, by rw [stop_of_stopping hs]; exact hqueue⟩
    | false =>
      refine ⟨later ++ [.finish], ?_, ?_⟩
      · intro event he
        rcases List.mem_append.mp he with he | he
        · exact hlater event he
        · exact List.mem_singleton.mp he
      · rw [queue_stop_of_not_stopping hs, ← List.append_assoc]
        exact congrArg (· ++ [Event.finish]) hqueue
  · exact hconnection.trans h.connection
  · rw [hpending]
    exact (List.nodup_append.mp h.ids).2.1
  · rw [owed, owed, waitingEnds_of_decides (fun _ => rfl), hgone, hpending]
    exact List.Perm.refl _

theorem pays_request_of_gone {r : Request} {reason : Text} (hg : e.gone = some reason) (hq : e.Queues rest)
    (h : e.InRun (.request r :: rest) obstacles) : e.Pays (.request r) rest obstacles := by
  refine ⟨e.complete r (.error (.closed reason)), obstacles, [⟨r.serial, .error (.closed reason)⟩], ?_, hq,
    h.behind h.connection ?_, rfl, ?_⟩
  · simp only [Incoming.event, handle, dispatch, hg]
  · exact h.ids.sublist ((List.sublist_cons_self _ _).append_left _)
  · rw [owed, owed, waitingEnds_of_decides_none (fun _ _ => rfl), ends_request_of_gone hg, List.singleton_append]
    exact List.perm_middle.symm

theorem dispatch_sent {r : Request} {line : List UInt8} {e' : Engine} (hg : e.gone = none) (hline : r.line = .ok line)
    (hwrite : ({ e with pending := e.pending.insert r.id r } : Engine).write line = (e', none)) :
    e.dispatch r = (e', .goOn) := by
  unfold dispatch
  split
  case h_1 reason hgone => simp [hg] at hgone
  case h_2 => simp only [hline, hwrite]

theorem dispatch_failed {r : Request} {line : List UInt8} {e' : Engine} {obstacle : Obstacle} (hg : e.gone = none)
    (hline : r.line = .ok line)
    (hwrite : ({ e with pending := e.pending.insert r.id r } : Engine).write line = (e', some obstacle.fault)) :
    e.dispatch r = ((e'.forget r.id).complete r (.error (unreachable obstacle)), .goOn) := by
  unfold dispatch
  split
  case h_1 reason hgone => simp [hg] at hgone
  case h_2 => simp only [hline, hwrite, unreachable]

/-- A request whose line goes through waits; one whose line meets an obstacle is completed at once. -/
theorem pays_request_of_not_gone {r : Request} (hg : e.gone = none) (hq : e.Queues rest)
    (h : e.InRun (.request r :: rest) obstacles) : e.Pays (.request r) rest obstacles := by
  obtain ⟨line, hline⟩ := Request.line_of_writable (h.writable r List.mem_cons_self)
  have hids : (e.pending.names ++ r.id :: (requests rest).map Request.id).Nodup := h.ids
  have hnew : r.id ∉ e.pending.names := fun hm =>
    (List.nodup_append.mp hids).2.2 _ hm _ List.mem_cons_self rfl
  obtain ⟨connection, hwrite, hobstacles⟩ :=
    write_of_obstacles (e := { e with pending := e.pending.insert r.id r }) h.connection line
  rcases ho : obstacles.head?.join with _ | obstacle
  · rw [ho, Option.map_none] at hwrite
    refine ⟨_, obstacles.tail, [], dispatch_sent hg hline hwrite, hq,
      h.behind (congrArg some hobstacles) ?_, (List.append_nil _).symm, ?_⟩
    · simpa [Members.names, Members.insert_of_not_mem hnew] using hids
    · rw [owed, owed, waitingEnds_of_decides_none (fun _ _ => rfl), ends_request_of_sent hg ho]
      simp [waitingEnds, Members.insert_of_not_mem hnew]
  · rw [ho, Option.map_some] at hwrite
    refine ⟨_, obstacles.tail, [⟨r.serial, .error (unreachable obstacle)⟩],
      dispatch_failed hg hline hwrite, hq, h.behind (congrArg some hobstacles) ?_, rfl, ?_⟩
    · simp only [forget, complete, Members.insert_of_not_mem hnew, Members.filter_append_singleton hnew]
      exact h.ids.sublist ((List.sublist_cons_self _ _).append_left _)
    · rw [owed, owed, waitingEnds_of_decides_none (fun _ _ => rfl), ends_request_of_obstacle hg ho,
        List.singleton_append]
      simp only [forget, complete, Members.insert_of_not_mem hnew, Members.filter_append_singleton hnew]
      exact List.perm_middle.symm

/-- A message that answers no request that waits is logged at most. -/
theorem pays_of_idle {content : Json} {e' : Engine} (h : e.InRun (.message content :: rest) obstacles)
    (hhandle : e.handle (.message (.ofJson content)) = (e', .goOn)) (hqueue : e'.Queues rest)
    (hconnection : e'.connection = e.connection) (hpending : e'.pending = e.pending) (hgone : e'.gone = e.gone)
    (hcompleted : e'.completed = e.completed)
    (hnone : ∀ entry ∈ e.pending, (Incoming.message content).decision? entry.1 = none) :
    e.Pays (.message content) rest obstacles := by
  have hids : (e.pending.names ++ (requests rest).map Request.id).Nodup := h.ids
  refine ⟨e', obstacles, [], hhandle, hqueue, h.behind (hconnection ▸ h.connection) (hpending ▸ hids), ?_, ?_⟩
  · rw [hcompleted, List.append_nil]
  · rw [owed, owed, waitingEnds_of_decides_none hnone, hpending, hgone]
    exact List.Perm.refl _

/-- A message that answers a request that waits completes it, and what is owed to the others stays. -/
theorem pays_of_answered {content : Json} {name : Text} {r : Request} {outcome : Outcome} (hq : e.Queues rest)
    (h : e.InRun (.message content :: rest) obstacles) (hfind : e.pending.find? name = some r)
    (hhandle : e.handle (.message (.ofJson content)) = ((e.forget name).complete r outcome, .goOn))
    (hdecision : ∀ other, (Incoming.message content).decision? other = if name = other then some outcome else none) :
    e.Pays (.message content) rest obstacles := by
  have hids : (e.pending.names ++ (requests rest).map Request.id).Nodup := h.ids
  refine ⟨(e.forget name).complete r outcome, obstacles, [⟨r.serial, outcome⟩], hhandle, hq, h.behind h.connection ?_,
    rfl, ?_⟩
  · exact hids.sublist (((List.filter_sublist).map Prod.fst).append_right _)
  · have hothers : waitingEnds (e.forget name).pending (.message content :: rest) =
        waitingEnds (e.forget name).pending rest := waitingEnds_of_decides_none (fun entry he => by
      have hne : entry.1 ≠ name := by simpa using (List.mem_filter.mp he).2
      rw [hdecision, if_neg hne.symm]) rest
    have hsplit := (Members.perm_cons_filter (List.nodup_append.mp hids).1 (Members.mem_of_find? hfind)).map
      fun entry : Text × Request => (⟨entry.2.serial, decided entry.1 (.message content :: rest)⟩ : Completion)
    rw [List.map_cons, decided_cons, hdecision, if_pos rfl, Option.getD_some] at hsplit
    change (([⟨r.serial, outcome⟩] ++ (waitingEnds (e.forget name).pending rest ++ ends e.gone obstacles rest) :
      List Completion)).Perm _
    rw [← hothers, ← List.append_assoc]
    exact hsplit.symm.append_right _

/-- A message completes the request that it answers, if that waits, and nothing else. -/
theorem pays_message {content : Json} (hloggable : ¬ content.Unloggable) (hq : e.Queues rest)
    (h : e.InRun (.message content :: rest) obstacles) : e.Pays (.message content) rest obstacles := by
  rcases hm : Answer.ofMessage? (.ofJson content) with _ | ⟨answer, id⟩
  · obtain ⟨log, hhandle⟩ := handle_loggable hm hloggable e
    refine pays_of_idle h hhandle hq rfl rfl rfl rfl fun entry _ => ?_
    simp [decision?, Json.reply?_eq, hm]
  · have hhash := Answer.unhashable?_of_ofMessage? (h.plainIds content List.mem_cons_self) hm
    have hshown := h.tellable content List.mem_cons_self answer id hm
    rcases hid : id.likeText? with _ | name
    · refine pays_of_idle h (by simp only [handle, hm, Engine.answer, hhash, hid, Option.bind_none]) hq rfl rfl rfl rfl
        fun entry _ => ?_
      simp [decision?, Json.reply?_eq, hm, hid]
    have hdecision : ∀ other, (Incoming.message content).decision? other =
        if name = other then some answer.outcome else none := fun other => by
      simp [decision?, Json.reply?_eq, hm, hid]
    rcases hfind : e.pending.find? name with _ | r
    · refine pays_of_idle h
        (by simp only [handle, hm, Engine.answer, hhash, hid, Option.bind_some, hfind, Option.map_none]) hq
        rfl rfl rfl rfl fun entry he => ?_
      rw [hdecision, if_neg]
      rintro rfl
      exact Members.find?_eq_none.mp hfind (Members.mem_names he)
    · refine pays_of_answered hq h hfind ?_ hdecision
      simp only [handle, hm, Engine.answer, hhash, hid, Option.bind_some, hfind, Option.map_some, hshown]

/-! ### A whole run -/

/-- Every arrival but a finish pays what it decides, if it is no message that is too deep for the log. -/
theorem pays {arrival : Incoming} (hf : arrival ≠ .finish)
    (hloggable : ∀ content, arrival = .message content → ¬ content.Unloggable) (hq : e.Queues rest)
    (h : e.InRun (arrival :: rest) obstacles) : e.Pays arrival rest obstacles := by
  cases arrival with
  | finish => exact absurd rfl hf
  | closed reason => exact pays_closed hq h
  | protocolError words => exact pays_protocolError hq h
  | message content => exact pays_message (hloggable content rfl) hq h
  | request r =>
    rcases hg : e.gone with _ | reason
    · exact pays_request_of_not_gone hg hq h
    · exact pays_request_of_gone hg hq h

/-- A drain completes the requests that are left in the queue, and nothing else. -/
theorem completed_drain (hq : e.Queues rest) : e.drain.completed =
    e.completed ++ (requests rest).map fun r => ⟨r.serial, .error engineWasStopped⟩ := by
  obtain ⟨later, hlater, hqueue⟩ := hq
  obtain ⟨n, rfl⟩ : ∃ n, later = List.replicate n .finish := ⟨_, List.eq_replicate_of_mem hlater⟩
  simp only [drain, hqueue, List.filterMap_append, List.filterMap_map, requests, List.map_filterMap,
    List.filterMap_replicate_of_none, List.append_nil]
  congr 1
  refine List.filterMap_congr fun arrival _ => ?_
  cases arrival <;> rfl

theorem mem_heeded_cons {arrival other : Incoming} (hf : arrival ≠ .finish) :
    other ∈ heeded (arrival :: rest) ↔ other = arrival ∨ other ∈ heeded rest := by
  have hgoesOn : arrival.isFinish = false := by cases arrival <;> first | rfl | exact absurd rfl hf
  simp only [heeded, List.takeWhile_cons, hgoesOn, Bool.not_false, if_true, List.mem_cons]

/-- A run up to the first finish leaves nothing waiting and nothing queued, and pays all that was owed. -/
theorem runFor_pays {arrivals : List Incoming} {steps : Nat} (hf : .finish ∈ arrivals) (hs : arrivals.length ≤ steps)
    (hloggable : ∀ content, .message content ∈ heeded arrivals → ¬ content.Unloggable) (hq : e.Queues arrivals)
    (h : e.InRun arrivals obstacles) :
    (e.runFor steps).2 = .ended ∧ (e.runFor steps).1.pending = [] ∧ (e.runFor steps).1.queue = [] ∧
      ∃ paid, (e.runFor steps).1.completed = e.completed ++ paid ∧ paid.Perm (e.owed arrivals obstacles) := by
  induction arrivals generalizing e steps obstacles with
  | nil => cases hf
  | cons arrival rest ih =>
    obtain ⟨later, hlater, hqueue⟩ := hq
    obtain ⟨steps, rfl⟩ : ∃ n, steps = n + 1 := Nat.exists_eq_add_one.mpr (Nat.lt_of_lt_of_le (Nat.succ_pos _) hs)
    simp only [List.map_cons, List.cons_append] at hqueue
    by_cases harrival : arrival = .finish
    · subst harrival
      have hdrained := completed_drain
        (e := ({ e with queue := rest.map Incoming.event ++ later } : Engine).failPending engineWasStopped)
        ⟨later, hlater, rfl⟩
      simp only [runFor, hqueue, Incoming.event, handle]
      refine ⟨trivial, rfl, rfl, _, hdrained.trans (List.append_assoc _ _ _), ?_⟩
      rw [owed, waitingEnds_of_decides (fun _ => rfl)]
      exact List.Perm.refl _
    · have hheeded (content : Json) : .message content ∈ heeded (arrival :: rest) ↔ _ := mem_heeded_cons harrival
      have hpays : ({ e with queue := rest.map Incoming.event ++ later } : Engine).Pays arrival rest obstacles :=
        pays harrival (fun content he => hloggable content ((hheeded content).mpr (.inl he.symm))) ⟨later, hlater, rfl⟩
          ⟨h.connection, h.writable, h.plainIds, h.tellable, h.ids⟩
      obtain ⟨e', obstacles', paid, hhandle, hq', h', hcompleted, hperm⟩ := hpays
      have hf' : .finish ∈ rest := (List.mem_cons.mp hf).resolve_left (Ne.symm harrival)
      obtain ⟨hend, hpending, hempty, later', hcompleted', hperm'⟩ := ih hf' (Nat.le_of_succ_le_succ hs)
        (fun content hm => hloggable content ((hheeded content).mpr (.inr hm))) hq' h'
      simp only [runFor, hqueue, hhandle]
      refine ⟨hend, hpending, hempty, paid ++ later', ?_, (hperm'.append_left paid).trans hperm⟩
      rw [hcompleted', hcompleted, List.append_assoc]

/-- The first message that is too deep for the log ends the run by a fault. -/
theorem runFor_raises {arrivals : List Incoming} {steps : Nat} {content : Json} (hs : arrivals.length ≤ steps)
    (hm : .message content ∈ heeded arrivals) (hdeep : content.Unloggable) (hq : e.Queues arrivals)
    (h : e.InRun arrivals obstacles) : ∃ reason, (e.runFor steps).2 = .raised (.unshown reason) := by
  induction arrivals generalizing e steps obstacles with
  | nil => cases hm
  | cons arrival rest ih =>
    obtain ⟨later, hlater, hqueue⟩ := hq
    obtain ⟨steps, rfl⟩ : ∃ n, steps = n + 1 := Nat.exists_eq_add_one.mpr (Nat.lt_of_lt_of_le (Nat.succ_pos _) hs)
    have harrival : arrival ≠ .finish := by
      rintro rfl
      cases hm
    simp only [List.map_cons, List.cons_append] at hqueue
    by_cases hraises : ∃ other, arrival = .message other ∧ other.Unloggable
    · obtain ⟨other, rfl, hother⟩ := hraises
      obtain ⟨reason, hhandle⟩ := handle_unloggable hother { e with queue := rest.map Incoming.event ++ later }
      refine ⟨reason, ?_⟩
      simp only [runFor, hqueue, Incoming.event, hhandle]
    · obtain ⟨e', obstacles', -, hhandle, hq', h', -, -⟩ :=
        pays (e := { e with queue := rest.map Incoming.event ++ later }) harrival
          (fun other he hother => hraises ⟨other, he, hother⟩) ⟨later, hlater, rfl⟩
          ⟨h.connection, h.writable, h.plainIds, h.tellable, h.ids⟩
      have hrest : .message content ∈ heeded rest :=
        ((mem_heeded_cons harrival).mp hm).resolve_left fun he => hraises ⟨content, he.symm, hdeep⟩
      simp only [runFor, hqueue, hhandle]
      exact ih (Nat.le_of_succ_le_succ hs) hrest hq' h'

end Engine

/-! ### Every request -/

namespace Incoming

theorem serials_ends (gone : Option Text) (obstacles : List (Option Obstacle)) (arrivals : List Incoming) :
    (ends gone obstacles arrivals).map Completion.serial = (requests arrivals).map Request.serial := by
  induction arrivals generalizing gone obstacles with
  | nil => rfl
  | cons arrival rest ih =>
    cases arrival with
    | finish => simp [ends, requests]
    | request r =>
      cases gone with
      | none => exact congrArg (r.serial :: ·) (ih none obstacles.tail)
      | some reason => exact congrArg (r.serial :: ·) (ih (some reason) obstacles)
    | closed reason => exact ih (some reason) obstacles
    | message content => exact ih gone obstacles
    | protocolError words => exact ih gone obstacles

theorem goneAfter_some (reason : Text) (arrivals : List Incoming) : ∃ last, goneAfter (some reason) arrivals = some last := by
  induction arrivals generalizing reason with
  | nil => exact ⟨reason, rfl⟩
  | cons arrival rest ih =>
    cases arrival with
    | closed other => exact ih other
    | _ => exact ih reason

/-- Once the other end is gone, nothing is sent any more. -/
theorem outcomeOf?_of_gone (reason : Text) (obstacles obstacles' : List (Option Obstacle)) (r : Request)
    (before : List Incoming) (id : Text) (after : List Incoming) :
    outcomeOf? (some reason) obstacles (.request r :: before) id after =
      outcomeOf? (some reason) obstacles' before id after := by
  obtain ⟨last, hlast⟩ := goneAfter_some reason before
  have hlast' : goneAfter (some reason) (.request r :: before) = some last := hlast
  simp only [outcomeOf?, hlast, hlast', List.any_cons, isFinish, Bool.false_or]

theorem outcomeOf?_of_sent (obstacles : List (Option Obstacle)) (r : Request) (before : List Incoming) (id : Text)
    (after : List Incoming) :
    outcomeOf? none obstacles (.request r :: before) id after = outcomeOf? none obstacles.tail before id after := by
  have hrequests : requests (.request r :: before) = r :: requests before := rfl
  have hgone : goneAfter none (.request r :: before) = goneAfter none before := rfl
  simp only [outcomeOf?, hrequests, hgone, List.any_cons, isFinish, Bool.false_or, List.length_cons,
    List.getElem?_tail]

/-- A finish decides whatever nothing before it has decided. -/
theorem findSome?_decision? {arrivals : List Incoming} (hf : .finish ∈ arrivals) (id : Text) :
    arrivals.findSome? (decision? id) = some (decided id arrivals) := by
  have hsome : (arrivals.findSome? (decision? id)).isSome :=
    List.findSome?_isSome_iff.mpr ⟨.finish, hf, rfl⟩
  obtain ⟨outcome, ho⟩ := Option.isSome_iff_exists.mp hsome
  rw [decided, ho, Option.getD_some]

/-- The completion that is owed to a request among the arrivals is the one that its place in the queue asks for. -/
theorem mem_ends {before after : List Incoming} {r : Request} (hf : .finish ∈ before ++ .request r :: after)
    (gone : Option Text) (obstacles : List (Option Obstacle)) :
    ∃ outcome, outcomeOf? gone obstacles before r.id after = some outcome ∧
      (⟨r.serial, outcome⟩ : Completion) ∈ ends gone obstacles (before ++ .request r :: after) := by
  induction before generalizing gone obstacles with
  | nil =>
    have hf : .finish ∈ after := by simpa using hf
    rcases hg : gone with _ | reason
    · rcases ho : obstacles.head?.join with _ | obstacle
      · refine ⟨decided r.id after, ?_, ?_⟩
        · simp only [outcomeOf?, requests, goneAfter, List.any_nil, List.foldl_nil, List.filterMap_nil, List.length_nil,
            ← List.head?_eq_getElem?, ho]
          exact findSome?_decision? hf r.id
        · rw [List.nil_append, ends_request_of_sent rfl ho]
          exact List.mem_cons_self
      · refine ⟨.error (unreachable obstacle), ?_, ?_⟩
        · simp only [outcomeOf?, requests, goneAfter, List.any_nil, List.foldl_nil, List.filterMap_nil, List.length_nil,
            ← List.head?_eq_getElem?, ho]
          rfl
        · rw [List.nil_append, ends_request_of_obstacle rfl ho]
          exact List.mem_cons_self
    · exact ⟨.error (.closed reason), rfl, List.mem_cons_self⟩
  | cons arrival before ih =>
    have hrest : arrival ≠ .finish → .finish ∈ before ++ .request r :: after := fun hne =>
      (List.mem_cons.mp hf).resolve_left (Ne.symm hne)
    cases arrival with
    | finish =>
      -- Behind a finish everything in the queue ends in the same way.
      refine ⟨.error engineWasStopped, rfl, List.mem_map.mpr ⟨r, ?_, rfl⟩⟩
      exact List.mem_filterMap.mpr ⟨.request r, by simp, rfl⟩
    | closed reason => exact ih (hrest (by simp)) (some reason) obstacles
    | message content => exact ih (hrest (by simp)) gone obstacles
    | protocolError words => exact ih (hrest (by simp)) gone obstacles
    | request other =>
      cases gone with
      | none =>
        obtain ⟨outcome, ho, hm⟩ := ih (hrest (by simp)) none obstacles.tail
        exact ⟨outcome, (outcomeOf?_of_sent ..).trans ho, List.mem_cons_of_mem _ hm⟩
      | some reason =>
        obtain ⟨outcome, ho, hm⟩ := ih (hrest (by simp)) (some reason) obstacles
        exact ⟨outcome, (outcomeOf?_of_gone reason obstacles obstacles ..).trans ho, List.mem_cons_of_mem _ hm⟩

end Incoming

namespace Engine
open Incoming

/-- Where no two completions are of one request, a completion is the only one of its request. -/
theorem filter_serial {completions : List Completion} {c : Completion}
    (h : (completions.map Completion.serial).Nodup) (hc : c ∈ completions) :
    completions.filter (fun other => other.serial = c.serial) = [c] := by
  induction completions with
  | nil => cases hc
  | cons first rest ih =>
    rw [List.map_cons, List.nodup_cons] at h
    rcases List.mem_cons.mp hc with rfl | hc
    · rw [List.filter_cons_of_pos (by simp), List.filter_eq_nil_iff.mpr fun other ho => ?_]
      intro he
      exact h.1 (List.mem_map.mpr ⟨other, ho, of_decide_eq_true he⟩)
    · have hne : first.serial ≠ c.serial := fun he => h.1 (he ▸ List.mem_map_of_mem hc)
      rw [List.filter_cons_of_neg (by simpa using hne)]
      exact ih h.2 hc

/-- A completion is owed to every request that waits, and to every request that is to come. -/
theorem serials_owed (e : Engine) (arrivals : List Incoming) (obstacles : List (Option Obstacle)) :
    (e.owed arrivals obstacles).map Completion.serial =
      e.pending.map (·.2.serial) ++ (requests arrivals).map Request.serial := by
  rw [owed, List.map_append, serials_ends, waitingEnds, List.map_map]
  rfl

/-- The loop of an engine whose queue holds a finish ends, if it heeds no message that is too deep for the log. Nothing
    waits then and nothing is queued, and every request, queued or already waiting, was completed once: one in the queue
    as its place there asks for, and one that waited as the first arrival that decides it. Where the loop heeds such a
    message, that ends it by a fault. -/
theorem run_completes_every_request {e : Engine} {arrivals : List Incoming} {obstacles : List (Option Obstacle)}
    (h : e.Faces arrivals obstacles) :
    ((∀ content, .message content ∈ heeded arrivals → ¬ content.Unloggable) →
      e.run.2 = .ended ∧ e.run.1.pending = [] ∧ e.run.1.queue = [] ∧
      (∀ before r after, arrivals = before ++ .request r :: after →
        ∃ outcome, outcomeOf? e.gone obstacles before r.id after = some outcome ∧ e.run.1.outcomesOf r = [outcome]) ∧
      ∀ id r, (id, r) ∈ e.pending →
        ∃ outcome, arrivals.findSome? (decision? id) = some outcome ∧ e.run.1.outcomesOf r = [outcome]) ∧
    ∀ content, .message content ∈ heeded arrivals → content.Unloggable →
      ∃ reason, e.run.2 = .raised (.unshown reason) := by
  have hsteps : arrivals.length ≤ e.stepsLeft := by
    rw [stepsLeft, h.queue, List.length_map]
    exact Nat.le_add_right _ _
  have hqueues : e.Queues arrivals := ⟨[], by simp, by rw [h.queue, List.append_nil]⟩
  obtain ⟨c, hc, hobstacles⟩ := h.connection
  have hrun : e.InRun arrivals obstacles :=
    ⟨by rw [hc, Option.map_some, hobstacles], h.writable, h.plainIds, h.tellable, h.ids⟩
  refine ⟨fun hloggable => ?_, fun content hm hdeep => runFor_raises hsteps hm hdeep hqueues hrun⟩
  obtain ⟨hend, hpending, hempty, paid, hcompleted, hperm⟩ := runFor_pays h.finish hsteps hloggable hqueues hrun
  have hserials := hperm.map Completion.serial
  rw [serials_owed] at hserials
  -- Whatever is owed to a request is the one thing that the run completed it with.
  have once : ∀ (r : Request) (outcome : Outcome), ⟨r.serial, outcome⟩ ∈ e.owed arrivals obstacles →
      e.run.1.outcomesOf r = [outcome] := by
    intro r outcome howed
    have hserial : r.serial ∈ e.pending.map (·.2.serial) ++ (requests arrivals).map Request.serial := by
      rw [← serials_owed]
      exact List.mem_map.mpr ⟨_, howed, rfl⟩
    have hearlier : e.completed.filter (fun c => c.serial = r.serial) = [] :=
      List.filter_eq_nil_iff.mpr fun c hc he => h.fresh c hc (of_decide_eq_true he ▸ hserial)
    have hpaid : paid.filter (fun c => c.serial = r.serial) = [⟨r.serial, outcome⟩] :=
      filter_serial (hserials.nodup_iff.mpr h.serials) (hperm.mem_iff.mpr howed)
    rw [outcomesOf, run, hcompleted, List.filter_append, hearlier, hpaid]
    rfl
  refine ⟨hend, hpending, hempty, ?_, ?_⟩
  · intro before r after hsplit
    obtain ⟨outcome, ho, hm⟩ := mem_ends (hsplit ▸ h.finish) e.gone obstacles
    refine ⟨outcome, ho, once r outcome (List.mem_append_right _ ?_)⟩
    rw [hsplit]
    exact hm
  · intro id r hr
    refine ⟨decided id arrivals, findSome?_decision? h.finish id, once r _ (List.mem_append_left _ ?_)⟩
    exact List.mem_map.mpr ⟨(id, r), hr, rfl⟩

/-! A run with an arrival of every kind: the first line meets an obstacle, the second request is answered, the third
    fails with a protocol error, the fourth and the waiting one with the end of the connection, after which the fifth
    is not sent any more. -/

/-- The request with some number. -/
def numbered (n : Nat) : Request :=
  ⟨n, .ofNat n, .text (.ofString "call"), .sequence .list [.text (.ofNat n)]⟩

/-- The answer to the request with some number, with nothing as its result. -/
def plainReply (n : Nat) : Json :=
  .object [(.ofString "type", .text (.ofString "result")), (.ofString "event_id", .text (.ofNat n)),
    (.ofString "payload", .object [(.ofString "result", .null)])]

/-- Arrivals of every kind. -/
def mixedArrivals : List Incoming :=
  [.request (numbered 1), .request (numbered 2), .message (plainReply 2), .message .null, .request (numbered 3),
    .protocolError (.ofString "no"), .request (numbered 4), .closed (.ofString "bye"), .request (numbered 5), .finish,
    .request (numbered 6)]

/-- A pipe without a reader. -/
def brokenPipe : Obstacle :=
  ⟨.plain 32 (.ofString "Broken pipe"), 3⟩

/-- An engine with arrivals of every kind in its queue, and with one request that waits. -/
def mixedEngine : Engine :=
  { Engine.new with
    queue := mixedArrivals.map Incoming.event
    pending := [(.ofNat 0, numbered 0)]
    connection := some ⟨true, [some brokenPipe], []⟩ }

theorem ofMessage?_plainReply (n : Nat) :
    Answer.ofMessage? (.ofJson (plainReply n)) = some (.result .none, .text (.ofNat n)) := rfl

theorem faces_mixedArrivals : mixedEngine.Faces mixedArrivals [some brokenPipe] where
  queue := rfl
  finish := by simp [mixedArrivals]
  connection := ⟨_, rfl, rfl⟩
  writable := by
    intro r hr
    obtain ⟨n, rfl⟩ : ∃ n, r = numbered n := by
      simp only [mixedArrivals, requests, List.filterMap_cons, List.filterMap_nil, List.mem_cons,
        List.not_mem_nil, or_false] at hr
      rcases hr with rfl | rfl | rfl | rfl | rfl | rfl <;> exact ⟨_, rfl⟩
    exact ⟨⟨_, rfl⟩, _, rfl⟩
  plainIds := by
    intro content hm id hid
    obtain rfl | rfl : content = plainReply 2 ∨ content = .null := by simpa [mixedArrivals] using hm
    · obtain rfl : Json.text (.ofNat 2) = id := Option.some.inj hid
      exact ⟨by simp, by simp⟩
    · cases hid
  tellable := by
    intro content hm answer id hanswer
    obtain rfl | rfl : content = plainReply 2 ∨ content = .null := by simpa [mixedArrivals] using hm
    · rw [ofMessage?_plainReply] at hanswer
      cases hanswer
      rfl
    · cases hanswer
  ids := by decide
  serials := by decide
  fresh := by simp [mixedEngine, Engine.new]

theorem run_completes_mixed : mixedEngine.Faces mixedArrivals [some brokenPipe] ∧
    (∀ content, .message content ∈ heeded mixedArrivals → ¬ content.Unloggable) ∧ mixedEngine.run.2 = .ended ∧
    mixedEngine.run.1.outcomesOf (numbered 0) = [.error (.engine (.ofString "no"))] ∧
    mixedEngine.run.1.outcomesOf (numbered 1) = [.error (unreachable brokenPipe)] ∧
    mixedEngine.run.1.outcomesOf (numbered 2) = [.ok (.scalar .none)] ∧
    mixedEngine.run.1.outcomesOf (numbered 5) = [.error (.closed (.ofString "bye"))] ∧
    mixedEngine.run.1.outcomesOf (numbered 6) = [.error engineWasStopped] := by
  have hloggable : ∀ content, .message content ∈ heeded mixedArrivals → ¬ content.Unloggable := by
    rintro content hm ⟨hmessage, reason, hshown, -⟩
    obtain rfl | rfl : content = plainReply 2 ∨ content = .null := by
      simpa [mixedArrivals] using (List.takeWhile_prefix _).subset hm
    · cases hmessage
    · cases hshown
  obtain ⟨hend, -, -, hqueued, hwaited⟩ := (run_completes_every_request faces_mixedArrivals).1 hloggable
  refine ⟨faces_mixedArrivals, hloggable, hend, ?_, ?_, ?_, ?_, ?_⟩
  · obtain ⟨outcome, ho, hall⟩ := hwaited _ _ (List.mem_singleton.mpr rfl)
    exact hall.trans (congrArg (fun o => [o]) (Option.some.inj ho).symm)
  · obtain ⟨outcome, ho, hall⟩ := hqueued [] _ _ rfl
    exact hall.trans (congrArg (fun o => [o]) (Option.some.inj ho).symm)
  · obtain ⟨outcome, ho, hall⟩ := hqueued (mixedArrivals.take 1) _ _ rfl
    exact hall.trans (congrArg (fun o => [o]) (Option.some.inj ho).symm)
  · obtain ⟨outcome, ho, hall⟩ := hqueued (mixedArrivals.take 8) _ _ rfl
    exact hall.trans (congrArg (fun o => [o]) (Option.some.inj ho).symm)
  · obtain ⟨outcome, ho, hall⟩ := hqueued (mixedArrivals.take 10) _ _ rfl
    exact hall.trans (congrArg (fun o => [o]) (Option.some.inj ho).symm)

end Engine

/-! ### Messages that are too deep -/

/-- A list in a list, and so on, with an empty one in the innermost of them. -/
def Json.nested : Nat → Json
  | 0 => .array []
  | n + 1 => .array [Json.nested n]

/-- Each list takes a call. -/
theorem Json.unshown?_nested {n room : Nat} (h : room ≤ n) :
    (Host.Value.ofJson (nested n)).unshown? room = some .tooDeep := by
  induction n generalizing room with
  | zero =>
    obtain rfl := Nat.le_zero.mp h
    rfl
  | succ n ih =>
    cases room with
    | zero => rfl
    | succ room =>
      have hbelow : (Host.Value.ofJson (nested n)).unshown? room = some .tooDeep := ih (Nat.le_of_succ_le_succ h)
      exact Host.unshown?_singleton hbelow

theorem Json.unloggable_nested {n : Nat} (h : Event.logRoom - 3 ≤ n) : (nested n).Unloggable :=
  ⟨by cases n <;> rfl, .tooDeep, unshown?_nested h, rfl⟩

namespace Engine
open Incoming

/-- A request, a message, and a finish. -/
def amid (content : Json) : List Incoming :=
  [.request (numbered 1), .message content, .finish]

/-- An engine with these events before it. -/
def meeting (content : Json) : Engine :=
  { Engine.new with queue := (amid content).map Incoming.event, connection := some ⟨true, [], []⟩ }

theorem faces_amid {content : Json} (hplain : content.HasPlainId) (htellable : content.Tellable) :
    (meeting content).Faces (amid content) [] where
  queue := rfl
  finish := by simp [amid]
  connection := ⟨_, rfl, rfl⟩
  writable := by
    intro r hr
    obtain rfl : r = numbered 1 := by simpa [amid, requests] using hr
    exact ⟨⟨_, rfl⟩, _, rfl⟩
  plainIds := by
    intro other hm
    obtain rfl : other = content := by simpa [amid] using hm
    exact hplain
  tellable := by
    intro other hm
    obtain rfl : other = content := by simpa [amid] using hm
    exact htellable
  ids := by simp [meeting, amid, requests, Engine.new, Members.names]
  serials := by simp [meeting, amid, requests, Engine.new]
  fresh := by simp [meeting, Engine.new]

/-- The request waits when the message ends the run, and is never completed. -/
theorem run_meeting {content : Json} (h : content.Unloggable) :
    ∃ reason, (meeting content).run.2 = .raised (.unshown reason) ∧
      (meeting content).run.1.outcomesOf (numbered 1) = [] := by
  set asked : Engine :=
    (dispatch { meeting content with queue := [.message (.ofJson content), .finish] } (numbered 1)).1
  have hrequest : (meeting content).run = runFor 3 asked := rfl
  have hqueue : asked.queue = [.message (.ofJson content), .finish] := rfl
  obtain ⟨reason, hhandle⟩ := handle_unloggable h { asked with queue := [.finish] }
  have hmessage : runFor 3 asked = ({ asked with queue := [.finish] }, .raised (.unshown reason)) := by
    simp only [runFor, hqueue, hhandle]
  rw [hrequest, hmessage]
  exact ⟨reason, rfl, rfl⟩

theorem deep_message_raises : (meeting (.nested 2000)).Faces (amid (.nested 2000)) [] ∧
    .message (.nested 2000) ∈ heeded (amid (.nested 2000)) ∧ (Json.nested 2000).Unloggable ∧
    ∃ reason, (meeting (.nested 2000)).run.2 = .raised (.unshown reason) ∧
      (meeting (.nested 2000)).run.1.outcomesOf (numbered 1) = [] := by
  have hdeep : (Json.nested 2000).Unloggable := Json.unloggable_nested (by decide)
  refine ⟨faces_amid (fun _ h => ?_) (fun _ _ h => ?_), by simp [heeded, amid, isFinish], hdeep, run_meeting hdeep⟩
  · cases h
  · rw [hdeep.1] at h
    cases h

end Engine

end ScriptLink
