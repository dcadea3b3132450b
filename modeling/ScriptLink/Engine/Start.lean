import ScriptLink.Engine.State
import ScriptLink.Environment.Directory

/-! # Starting an engine

    An engine is started once: its directory is prepared, a socket is opened, the process is launched there and
    connects back. What the machine answers to each of these steps is given, so that a start is a function. A start
    that fails at the launch or after it stops the engine, unless the program cannot even be named to the machine. -/

namespace ScriptLink

/-- What an engine is told when it is made. -/
structure Options where
  /-- The program that executes the script. -/
  program : Text
  /-- Whether the process keeps the streams of its parent. -/
  debug : Bool
  /-- The time to wait for the connection, in seconds. -/
  timeout : Text
deriving Inhabited

/-- The options where none are given. -/
def Options.standard : Options := ⟨.ofString "node", false, .ofString "10.0"⟩

/-- How a launched process comes to be connected: at last, never, or not because the socket fails; the number counts
    the looks at the process until then. -/
inductive Arrival where
  | connects (looks : Nat)
  | never (looks : Nat)
  | fails (looks : Nat) (fault : SystemFault)
deriving DecidableEq, Inhabited

/-- What the machine answers during a start. -/
structure Machine where
  /-- The number under which the socket for the process can be reached. -/
  listen : Except SystemFault Nat
  launch : Except SystemFault Worker
  arrival : Arrival

/-- A process as it was launched. -/
structure Command where
  program : Text
  arguments : List Text
  directory : Path
  /-- Whether its streams lead nowhere. -/
  silent : Bool
deriving DecidableEq, Inhabited

/-- An engine with its surroundings. -/
structure Site where
  options : Options
  engine : Engine
  environment : Environment
  /-- The processes launched so far. -/
  launched : List Command

/-- The process after so many looks, and the exit code if one of them found it; the first that does is the last. -/
def Worker.watch : Nat → Worker → Worker × Option Int
  | 0, w => (w, none)
  | looks + 1, w =>
    match w.exitCode? with
    | some code => (w.afterLook, some code)
    | none => watch looks w.afterLook

/-- Why no process connected in the end, if so, and the process after the wait. -/
def Worker.await (w : Worker) (timeout : Text) (arrival : Arrival) : Worker × Option Text :=
  let looks := match arrival with
    | .connects looks | .fails looks _ => looks
    | .never looks => looks + 1
  match w.watch looks, arrival with
  | (w, some code), _ => (w, some (.ofString "Node exited with code " ++ .ofInt code))
  | (w, none), .connects _ => (w, none)
  | (w, none), .never _ => (w, some (.ofString "no connection after " ++ timeout ++ .ofString " seconds"))
  | (w, none), .fails _ fault => (w, some fault.message)

/-- A wait ends well only when the process connects before any look finds it ended. -/
theorem Worker.watch_of_await {w w' : Worker} {timeout : Text} {arrival : Arrival}
    (h : w.await timeout arrival = (w', none)) : ∃ looks, arrival = .connects looks ∧ w.watch looks = (w', none) := by
  cases arrival with
  | connects looks =>
    rcases hwatch : w.watch looks with ⟨watched, _ | code⟩
    · simp only [await, hwatch] at h
      exact ⟨looks, rfl, by rw [hwatch, (Prod.mk.inj h).1]⟩
    · simp only [await, hwatch] at h
      cases h
  | never looks =>
    rcases hwatch : w.watch (looks + 1) with ⟨watched, _ | code⟩ <;>
      · simp only [await, hwatch] at h
        cases h
  | fails looks fault =>
    rcases hwatch : w.watch looks with ⟨watched, _ | code⟩ <;>
      · simp only [await, hwatch] at h
        cases h

namespace Site

/-- The failure of a second start. -/
def alreadyStarted : Failure :=
  .engine (.ofString "engine was already started")

/-- The command that executes the script in its directory. -/
def command (s : Site) (directory : Path) (socket : Nat) : Command where
  program := s.options.program
  arguments := [.ofString "./index.js", .ofNat socket]
  directory := directory
  silent := !s.options.debug

/-- The last step of a start: the process is launched, and it connects. -/
def launch (machine : Machine) (s : Site) (directory : Path) (socket : Nat) : Except Failure Unit × Site :=
  match s.options.program.nameFault? with
  | some fault => (.error (.program fault), s)
  | none =>
    match machine.launch with
    | .error fault =>
      (.error (.engine (.ofString "Could not start " ++ s.options.program ++ .ofString ": " ++ fault.message)),
        { s with engine := { s.engine with listening := false, stopping := true } })
    | .ok worker =>
      let s := { s with launched := s.launched ++ [s.command directory socket] }
      match worker.await s.options.timeout machine.arrival with
      | (worker, none) =>
        (.ok (), { s with engine := { s.engine with process := some worker, connection := some ⟨true, [], []⟩ } })
      | (worker, some reason) =>
        (.error (.engine (.ofString "Node runtime did not connect: " ++ reason)),
          { s with engine := { s.engine with process := some worker }.stop })

/-- The engine started. A second start is refused and changes nothing. -/
def start (machine : Machine) (s : Site) : Except Failure Unit × Site :=
  if s.engine.started then (.error alreadyStarted, s)
  else
    match s.environment.create with
    | (.error failure, environment) =>
      (.error failure, { s with engine := { s.engine with started := true }, environment := environment })
    | (.ok directory, environment) =>
      let s := { s with engine := { s.engine with started := true }, environment := environment }
      match machine.listen with
      | .error fault => (.error (.system fault), s)
      | .ok socket => launch machine { s with engine := { s.engine with listening := true } } directory socket

/-- The engine stopped. -/
def stop (s : Site) : Site :=
  { s with engine := s.engine.stop }

end Site

end ScriptLink
