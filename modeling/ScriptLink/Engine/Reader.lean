import ScriptLink.Engine.State

/-! # The reader of the connection

    The reader registers the connection, then cuts what it receives into lines, whatever the pieces in which it
    arrives, and puts the event of each line into the engine's queue. Between two rounds of receiving it looks at the
    process. It ends with the first sign that nothing more will come, which it puts into the queue as well, or when the
    engine is stopped. -/

namespace ScriptLink

/-- The bytes between newlines: one more segment than there are newlines. `current` and `done` hold what was read so
    far, in reverse. -/
def segmentsFrom (done : List (List UInt8)) (current : List UInt8) : List UInt8 → List (List UInt8)
  | [] => (current.reverse :: done).reverse
  | b :: rest =>
    if b = 0x0A then segmentsFrom (current.reverse :: done) [] rest else segmentsFrom done (b :: current) rest

/-- The bytes between newlines, in order. -/
def segments (bytes : List UInt8) : List (List UInt8) :=
  segmentsFrom [] [] bytes

/-- The lines that a chunk ends, given the unfinished line before it, and the line that is unfinished after it. -/
def linesOfChunk (unfinished chunk : List UInt8) : List (List UInt8) × List UInt8 :=
  match segments chunk with
  | [] => ([], unfinished)
  | first :: rest =>
    match rest.getLast? with
    | none => ([], unfinished ++ first)
    | some last => ((unfinished ++ first) :: rest.dropLast, last)

/-- What an attempt to receive gives. -/
inductive Received where
  | data (bytes : List UInt8)
  /-- Nothing for now. -/
  | nothing
  /-- The end of the stream. -/
  | ended
  | fault (fault : SystemFault)
  /-- The connection object itself is of no use any more. -/
  | unusable (words : Text)
deriving DecidableEq

/-- An attempt to receive, with the moments before it at which somebody stops the engine. -/
structure Receipt where
  /-- The engine is stopped while the reader waits for something to receive. -/
  stopsWaiting : Bool
  /-- The engine is stopped during the attempt. -/
  stops : Bool
  received : Received
deriving DecidableEq

/-- What can leave the reader. -/
inductive ReadFault where
  | system (fault : SystemFault)
  | unusable (words : Text)
deriving DecidableEq

/-- The wording of a fault. -/
def ReadFault.message : ReadFault → Text
  | .system fault => fault.message
  | .unusable words => words

/-- What registering a connection raises, if anything: one that is closed has no number any more. -/
def Connection.registrationFault? (c : Connection) : Option ReadFault :=
  if c.isOpen then none else some (.unusable (.ofString "Invalid file descriptor: -1"))

/-- What registering the connection of an engine raises, if anything. -/
def Engine.registrationFault? (e : Engine) : Option ReadFault :=
  match e.connection with
  | some connection => connection.registrationFault?
  | none => some (.unusable (.ofString "Invalid file object: None"))

/-- A reader with its engine. -/
structure Reader where
  engine : Engine
  /-- What was received since the last newline. -/
  unfinished : List UInt8
  /-- The number of attempts to receive so far. -/
  attempts : Nat
deriving Inhabited

namespace Reader

/-- The reader of a connection from which nothing was received yet. -/
def ofEngine (e : Engine) : Reader := ⟨e, [], 0⟩

/-- The reader with an event in the queue of its engine. -/
def enqueue (r : Reader) (event : Event) : Reader :=
  { r with engine := r.engine.enqueue event }

/-- The reader with the engine stopped, if it is to be. -/
def stopIf (r : Reader) (stops : Bool) : Reader :=
  if stops then { r with engine := r.engine.stop } else r

/-- The reader that has told the engine why nothing more will come. -/
def close (r : Reader) (reason : Text) : Reader :=
  r.enqueue (.closed reason)

/-- The reader after a chunk: the lines that it ends are events now. -/
def take (r : Reader) (chunk : List UInt8) : Reader :=
  let (lines, unfinished) := linesOfChunk r.unfinished chunk
  { r with
    engine := { r.engine with queue := r.engine.queue ++ lines.filterMap Event.ofLine? }
    unfinished := unfinished }

/-- How the reader goes on: with a new round, with the round it is in, or not at all. -/
inductive Progress where
  | newRound
  | sameRound
  | ended (fault : Option ReadFault)
deriving DecidableEq

/-- The look at the process with which a round begins. The reader is over when the flag is false. -/
def look (r : Reader) (stopsWaiting : Bool) : Reader × Bool :=
  if r.engine.stopping then (r, false)
  else
    let r := r.stopIf stopsWaiting
    match r.engine.process with
    | none => (r, true)
    | some process =>
      let r := { r with engine := { r.engine with process := some process.afterLook } }
      match process.exitCode? with
      | some code => (r.close (.ofString "Node exited with code " ++ .ofInt code), false)
      | none => (r, true)

/-- The end of reading by a fault. Once the engine is stopped, a connection that is closed on this side is to be
    expected. -/
def closeByFault (r : Reader) (fault : SystemFault) : Reader × Progress :=
  if fault.badDescriptor then
    (if r.engine.stopping then r else r.close (.ofString "connection closed"), .ended none)
  else (r.close (.ofString "connection failed: " ++ fault.message), .ended (some (.system fault)))

/-- The end of reading by a connection that is of no use any more. -/
def closeUnusable (r : Reader) (words : Text) : Reader × Progress :=
  if r.engine.stopping then (r, .ended none)
  else (r.close (.ofString "connection failed: " ++ words), .ended (some (.unusable words)))

/-- What the reader does with what it received. -/
def accept (r : Reader) : Received → Reader × Progress
  | .data [] | .ended => (r.close (.ofString "connection closed by Node"), .ended none)
  | .data chunk => (r.take chunk, .sameRound)
  | .nothing => (r, .newRound)
  | .fault fault => if fault.wouldBlock then (r, .newRound) else r.closeByFault fault
  | .unusable words => r.closeUnusable words

/-- An attempt to receive. -/
def attempt (r : Reader) (receipt : Receipt) : Reader × Progress :=
  let r := r.stopIf receipt.stops
  accept { r with attempts := r.attempts + 1 } receipt.received

/-- An attempt to receive, with a look at the process before it when it is the first of a round. -/
def advance (looks : Bool) (r : Reader) (receipt : Receipt) : Reader × Progress :=
  if looks then
    match r.look receipt.stopsWaiting with
    | (r, false) => (r, .ended none)
    | (r, true) => r.attempt receipt
  else r.attempt receipt

/-- The attempt that finds the end of the stream. -/
def atEnd : Receipt := ⟨false, false, .ended⟩

/-- The reader on a script of attempts, behind which the stream ends. -/
def run : (looks : Bool) → Reader → List Receipt → Reader × Option ReadFault
  | looks, r, [] =>
    match advance looks r atEnd with
    | (r, .ended fault) => (r, fault)
    | (r, _) => (r, none)
  | looks, r, receipt :: rest =>
    match advance looks r receipt with
    | (r, .ended fault) => (r, fault)
    | (r, .newRound) => run true r rest
    | (r, .sameRound) => run false r rest

/-- The reader of a registered connection on a script of attempts. -/
def listen (e : Engine) (script : List Receipt) : Reader × Option ReadFault :=
  run true (ofEngine e) script

/-- The reader from its start. What the registration raises is passed on as it is, without a closing event and whether
    or not the engine is stopped. -/
def attend (e : Engine) (script : List Receipt) : Reader × Option ReadFault :=
  match e.registrationFault? with
  | some fault => (ofEngine e, some fault)
  | none => listen e script

end Reader

end ScriptLink
