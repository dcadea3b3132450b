import ScriptLink.Engine.State
import ScriptLink.Json.Writer

/-! # The event loop

    The loop takes one event after the other from the queue. A request is written to the connection and waits; an
    answer completes the request that it is for; the end of the connection and every protocol error complete all that
    wait. The loop ends with the first finish, and whatever is left in the queue then is completed without having
    been sent. Main statements: handling an event keeps the number of steps that are left, since only a first stop adds
    an event, and a run that waits has left nothing in the queue. -/

namespace ScriptLink

/-- What can leave the loop and end it out of turn. -/
inductive LoopFault where
  /-- The payload of a request cannot be written. -/
  | unwritable (reason : Unwritable)
  /-- The id in an answer is of a class that cannot be looked up. -/
  | unhashable (typeName : Text)
  /-- An event without any use, or a report that describes no error, cannot be shown either. -/
  | unshown (reason : Host.Unshown)
deriving DecidableEq

/-- The wording of a fault. -/
def LoopFault.message : LoopFault → Text
  | .unwritable reason => reason.message
  | .unhashable typeName => .ofString "unhashable type: " ++ Quoted.text typeName
  | .unshown reason => reason.message

/-- How the loop goes on after an event. -/
inductive Verdict where
  | goOn
  | ended
  | raised (fault : LoopFault)
deriving DecidableEq

/-- The failure of requests that an engine no longer takes up. -/
def engineWasStopped : Failure :=
  .closed (.ofString "engine was stopped")

/-- The value that a request is sent as. -/
def Request.toValue (request : Request) : Host.Value :=
  .mapping .dict [(.text (.ofString "type"), request.operation), (.text (.ofString "event_id"), .text request.id),
    (.text (.ofString "payload"), request.payload)]

/-- The bytes of the line that a request is sent as. -/
def Request.line (request : Request) : Except Unwritable (List UInt8) := do
  return Utf8.encode ((← Json.write request.toValue) ++ [0x0A])

/-- How an event that the loop has no use for shows itself. -/
def Event.display : Event → Text
  | .message content => Host.enclosed "RemoteMessage(content=" ")" content.display
  | .stray value => value.display
  | _ => []

/-- The calls that the stack of the loop has room for where an event is shown to the log. -/
def Event.logRoom : Nat := 987

/-- What keeps an event from being shown to the log, if anything. Of a message, the content takes three calls more. -/
def Event.unshown? : Event → Option Host.Unshown
  | .message content => content.unshown? (logRoom - 3)
  | .stray value => value.unshown? logRoom
  | _ => none

namespace Engine

/-- The engine with all waiting requests failed. -/
def failPending (e : Engine) (failure : Failure) : Engine :=
  { e with
    pending := []
    completed := e.completed ++ e.pending.map fun entry => ⟨entry.2.serial, .error failure⟩ }

/-- The engine with a line written to its connection, and the fault if that failed. -/
def write (e : Engine) (line : List UInt8) : Engine × Option SystemFault :=
  match e.connection with
  | some connection =>
    let (connection, fault) := connection.write line
    ({ e with connection := some connection }, fault)
  | none => (e, some (.plain 9 (.ofString "Bad file descriptor")))

/-- The engine without the waiting request under an id. -/
def forget (e : Engine) (id : Text) : Engine :=
  { e with pending := e.pending.filter fun entry => entry.1 ≠ id }

/-- A request is put among the waiting ones and sent. It fails at once when the other end is gone or cannot be
    reached. -/
def dispatch (e : Engine) (request : Request) : Engine × Verdict :=
  match e.gone with
  | some reason => (e.complete request (.error (.closed reason)), .goOn)
  | none =>
    let e := { e with pending := e.pending.insert request.id request }
    match request.line with
    | .error reason => (e, .raised (.unwritable reason))
    | .ok line =>
      match e.write line with
      | (e, none) => (e, .goOn)
      | (e, some fault) =>
        let failure := .closed (.ofString "could not reach engine: " ++ fault.message)
        ((e.forget request.id).complete request (.error failure), .goOn)

/-- An answer completes the request that waits under its id, if there is one. -/
def answer (e : Engine) (answer : Answer) (id : Host.Value) : Engine × Verdict :=
  match id.unhashable? with
  | some typeName => (e, .raised (.unhashable typeName))
  | none =>
    match id.likeText?.bind fun id => (e.pending.find? id).map fun request => (id, request) with
    | some (id, request) =>
      match answer.unshown? with
      | some reason => (e.forget id, .raised (.unshown reason))
      | none => ((e.forget id).complete request answer.outcome, .goOn)
    | none => (e, .goOn)

/-- An event without any use is only logged. The log passes over what cannot be shown, unless the stack is what did
    not suffice: that is raised through it. -/
def unexpected (e : Engine) (event : Event) : Engine × Verdict :=
  match event.unshown? with
  | none => (e.logged .warning (.ofString "Unexpected event: " ++ event.display), .goOn)
  | some reason => (e, if reason.exhausts then .raised (.unshown reason) else .goOn)

/-- What the loop does with an event. A stray value without truth ends it. -/
def handle (e : Engine) (event : Event) : Engine × Verdict :=
  match event with
  | .finish => (e.failPending engineWasStopped, .ended)
  | .closed reason =>
    let e := e.logged .info (.ofString "Node runtime went away: " ++ reason)
    (stop ({ e with gone := some reason }.failPending (.closed reason)), .goOn)
  | .request request => e.dispatch request
  | .message content =>
    match Answer.ofMessage? content with
    | some (answer, id) => e.answer answer id
    | none => e.unexpected event
  | .protocolError message =>
    ((e.logged .warning (.ofString "Protocol error: " ++ message)).failPending (.engine message), .goOn)
  | .stray value => if value.truthy then e.unexpected event else (e, .ended)

/-- The engine with its queue emptied after the end of the loop. -/
def drain (e : Engine) : Engine :=
  { e with
    queue := []
    completed := e.completed ++ e.queue.filterMap fun event =>
      match event with
      | .request request => some ⟨request.serial, .error engineWasStopped⟩
      | _ => none }

/-- How a run of the loop ends: it waits for more events, it is over, or a fault left it. -/
inductive RunEnd where
  | waiting
  | ended
  | raised (fault : LoopFault)
deriving DecidableEq

/-- The loop for at most so many events. -/
def runFor : Nat → Engine → Engine × RunEnd
  | 0, e => (e, .waiting)
  | steps + 1, e =>
    match e.queue with
    | [] => (e, .waiting)
    | event :: rest =>
      match handle { e with queue := rest } event with
      | (e, .goOn) => runFor steps e
      | (e, .ended) => (e.drain, .ended)
      | (e, .raised fault) => (e, .raised fault)

/-- The greatest number of events that the loop can take from the queue as it stands: those that are there, and the
    finish that a stop adds. -/
def stepsLeft (e : Engine) : Nat :=
  e.queue.length + if e.stopping then 0 else 1

/-- The loop until it waits, is over, or raises. -/
def run (e : Engine) : Engine × RunEnd :=
  runFor e.stepsLeft e

/-- A stop adds a finish and takes away the possibility of adding one. -/
theorem stepsLeft_stop (e : Engine) : e.stop.stepsLeft = e.stepsLeft := by
  cases h : e.stopping
  · simp [stepsLeft, queue_stop_of_not_stopping h, stopping_stop, h]
  · rw [stop_of_stopping h]

theorem stepsLeft_write (e : Engine) (line : List UInt8) : (e.write line).1.stepsLeft = e.stepsLeft := by
  unfold write
  split <;> rfl

theorem stepsLeft_dispatch (e : Engine) (request : Request) : (e.dispatch request).1.stepsLeft = e.stepsLeft := by
  unfold dispatch
  split
  · rfl
  · dsimp only
    split
    · rfl
    · split
      case h_1 e' h =>
        have hw := stepsLeft_write { e with pending := e.pending.insert request.id request } (by assumption)
        rw [h] at hw
        exact hw
      case h_2 e' fault h =>
        have hw := stepsLeft_write { e with pending := e.pending.insert request.id request } (by assumption)
        rw [h] at hw
        exact hw

theorem stepsLeft_answer (e : Engine) (answer : Answer) (id : Host.Value) :
    (e.answer answer id).1.stepsLeft = e.stepsLeft := by
  unfold Engine.answer
  split
  · rfl
  · split
    · split <;> rfl
    · rfl

/-- An event without any use changes the log at most. -/
theorem unexpected_frame (e : Engine) (event : Event) : ∃ log, (e.unexpected event).1 = { e with log := log } := by
  unfold unexpected
  split
  · exact ⟨_, rfl⟩
  · exact ⟨e.log, rfl⟩

theorem stepsLeft_unexpected (e : Engine) (event : Event) : (e.unexpected event).1.stepsLeft = e.stepsLeft := by
  obtain ⟨log, hlog⟩ := e.unexpected_frame event
  rw [hlog]
  rfl

/-- Handling an event keeps the number of steps that are left. -/
theorem stepsLeft_handle (e : Engine) (event : Event) : (e.handle event).1.stepsLeft = e.stepsLeft := by
  cases event with
  | finish => rfl
  | closed reason => exact stepsLeft_stop _
  | request request => exact stepsLeft_dispatch e request
  | message content =>
    simp only [handle]
    split
    · exact stepsLeft_answer ..
    · exact stepsLeft_unexpected ..
  | protocolError message => rfl
  | stray value =>
    simp only [handle]
    split
    · exact stepsLeft_unexpected ..
    · rfl

/-- A run that waits has taken every event from the queue. -/
theorem queue_runFor_of_waiting {steps : Nat} {e : Engine} (hs : e.stepsLeft ≤ steps)
    (h : (e.runFor steps).2 = .waiting) : (e.runFor steps).1.queue = [] := by
  induction steps generalizing e with
  | zero =>
    have : e.queue.length = 0 := by simp only [stepsLeft] at hs; omega
    exact List.length_eq_zero_iff.mp this
  | succ steps ih =>
    cases hq : e.queue with
    | nil => simp [runFor, hq]
    | cons event rest =>
      simp only [runFor, hq] at h ⊢
      have hk := stepsLeft_handle { e with queue := rest } event
      have hr : ({ e with queue := rest } : Engine).stepsLeft ≤ steps := by
        simp only [stepsLeft, hq, List.length_cons] at hs ⊢
        omega
      generalize handle { e with queue := rest } event = result at h hk ⊢
      obtain ⟨e', verdict⟩ := result
      cases verdict with
      | goOn => exact ih (hk ▸ hr) h
      | ended => simp at h
      | raised fault => simp at h

theorem queue_run_of_waiting {e : Engine} (h : e.run.2 = .waiting) : e.run.1.queue = [] :=
  queue_runFor_of_waiting (Nat.le_refl _) h

end Engine

end ScriptLink
