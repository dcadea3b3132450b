import ScriptLink.Engine.Event

/-! # The state of an engine

    An engine owns a process and a connection to it. Callers put requests into its queue; the event loop takes them
    out, keeps those that wait for an answer, and completes each with an outcome. What the surroundings will answer
    (the looks at the process, the obstacles that writes meet) is part of the state, so that every operation is a
    function. Main statement: stopping twice is stopping once. -/

namespace ScriptLink

/-- The process at the other end. -/
structure Worker where
  /-- What the looks at it will find, an exit code or nothing; the last one stays. -/
  looks : List (Option Int)
  /-- Whether it goes on when it is asked to end. -/
  stubborn : Bool
deriving DecidableEq, Inhabited

namespace Worker

/-- What a look at the process finds. -/
def exitCode? (p : Worker) : Option Int :=
  p.looks.head?.join

/-- The process after a look. -/
def afterLook (p : Worker) : Worker :=
  match p.looks with
  | _ :: next :: later => { p with looks := next :: later }
  | _ => p

/-- The process after a signal that ends it, unless it had ended by itself. -/
def ended (p : Worker) (signal : Int) : Worker :=
  match p.exitCode? with
  | some code => { p with looks := [some code] }
  | none => { p with looks := [some (-signal)] }

/-- Whether every further look finds the process ended. -/
def HasEnded (p : Worker) : Prop :=
  p.looks ≠ [] ∧ ∀ look ∈ p.looks, look.isSome

end Worker

/-- What keeps a write from going through: a fault, after so many bytes. -/
structure Obstacle where
  fault : SystemFault
  passed : Nat
deriving DecidableEq, Inhabited

/-- The connection to the process. -/
structure Connection where
  isOpen : Bool
  /-- What the coming writes meet; those beyond the list go through. -/
  obstacles : List (Option Obstacle)
  /-- The bytes that each write so far has passed on. -/
  written : List (List UInt8)
deriving Inhabited

/-- The connection after a write, and the fault if the write failed. A failed write passes on less than the whole. -/
def Connection.write (c : Connection) (bytes : List UInt8) : Connection × Option SystemFault :=
  match c.obstacles with
  | [] => ({ c with written := c.written ++ [bytes] }, none)
  | none :: later => ({ c with obstacles := later, written := c.written ++ [bytes] }, none)
  | some obstacle :: later =>
    ({ c with obstacles := later, written := c.written ++ [bytes.take (min obstacle.passed (bytes.length - 1))] },
      some obstacle.fault)

/-- What an engine asks of its connection and its process when it is stopped. -/
inductive Call where
  | closeConnection
  | terminate
  | waitBriefly
  | kill
  | wait
deriving DecidableEq

/-- How much a log entry matters. -/
inductive LogLevel where
  | info
  | warning
deriving DecidableEq

/-- An entry of the log. -/
structure LogEntry where
  level : LogLevel
  words : Text
deriving DecidableEq

/-- A request's end. -/
structure Completion where
  serial : Nat
  outcome : Outcome

/-- An engine. -/
structure Engine where
  /-- Whether a start was ever begun. -/
  started : Bool
  /-- Whether a stop was ever begun. -/
  stopping : Bool
  /-- Why the other end went away, once that is known. -/
  gone : Option Text
  /-- The events to come. Where there is room for 1000 only, whoever brings one more waits until one is taken; here
      there is always room. -/
  queue : List Event
  /-- The requests that wait for an answer, by id. -/
  pending : Members Request
  /-- The ends of requests, in order. -/
  completed : List Completion
  /-- Whether the socket that waits for the process to connect is open. -/
  listening : Bool
  connection : Option Connection
  process : Option Worker
  calls : List Call
  log : List LogEntry
deriving Inhabited

namespace Engine

/-- An engine that was never started. -/
def new : Engine where
  started := false
  stopping := false
  gone := none
  queue := []
  pending := []
  completed := []
  listening := false
  connection := none
  process := none
  calls := []
  log := []

/-- Whether the engine was stopped or its other end went away. -/
def stopped (e : Engine) : Bool :=
  e.stopping || e.gone.isSome

/-- The engine with one more event in its queue. -/
def enqueue (e : Engine) (event : Event) : Engine :=
  { e with queue := e.queue ++ [event] }

/-- The engine with one more entry in its log. -/
def logged (e : Engine) (level : LogLevel) (words : Text) : Engine :=
  { e with log := e.log ++ [⟨level, words⟩] }

/-- The engine with more asked of its connection and its process. -/
def called (e : Engine) (calls : List Call) : Engine :=
  { e with calls := e.calls ++ calls }

/-- The engine with a request completed. -/
def complete (e : Engine) (request : Request) (outcome : Outcome) : Engine :=
  { e with completed := e.completed ++ [⟨request.serial, outcome⟩] }

/-- The outcome of a request, once it has one. -/
def outcome? (e : Engine) (serial : Nat) : Option Outcome :=
  (e.completed.find? fun completion => completion.serial = serial).map Completion.outcome

/-- The engine with its connection closed. -/
def closeConnection (e : Engine) : Engine :=
  match e.connection with
  | some connection =>
    { e.called [.closeConnection] with connection := some { connection with isOpen := false } }
  | none => e

/-- The engine with its process asked to end, and forced to when it does not listen. -/
def endProcess (e : Engine) : Engine :=
  match e.process with
  | some process =>
    let asked := e.called [.terminate, .waitBriefly]
    if process.stubborn then
      let warned := asked.logged .warning (.ofString "Node runtime did not stop, killing it")
      { warned.called [.kill, .wait] with process := some (process.ended 9) }
    else { asked with process := some (process.ended 15) }
  | none => e

/-- The engine stopped: the event loop is told to finish, then the connection and the process are ended. A second
    stop does nothing. -/
def stop (e : Engine) : Engine :=
  if e.stopping then e
  else
    let e := { e with stopping := true }.enqueue .finish
    endProcess { e.closeConnection with listening := false }

theorem stopping_stop (e : Engine) : e.stop.stopping = true := by
  unfold stop
  split
  · assumption
  · simp only [endProcess, closeConnection, enqueue, logged, called]
    repeat' split
    all_goals rfl

theorem stop_of_stopping {e : Engine} (h : e.stopping = true) : e.stop = e := by
  simp [stop, h]

theorem stop_stop (e : Engine) : e.stop.stop = e.stop :=
  stop_of_stopping (stopping_stop e)

theorem queue_closeConnection (e : Engine) : e.closeConnection.queue = e.queue := by
  unfold closeConnection
  split <;> rfl

theorem stopping_closeConnection (e : Engine) : e.closeConnection.stopping = e.stopping := by
  unfold closeConnection
  split <;> rfl

theorem queue_endProcess (e : Engine) : e.endProcess.queue = e.queue := by
  simp only [endProcess]
  repeat' split
  all_goals rfl

theorem stopping_endProcess (e : Engine) : e.endProcess.stopping = e.stopping := by
  simp only [endProcess]
  repeat' split
  all_goals rfl

/-- The first stop puts a finish behind everything that is in the queue. -/
theorem queue_stop_of_not_stopping {e : Engine} (h : e.stopping = false) :
    e.stop.queue = e.queue ++ [.finish] := by
  simp [stop, h, queue_endProcess, queue_closeConnection, enqueue]

end Engine

end ScriptLink
