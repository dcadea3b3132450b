import Mathlib.Logic.Relation
import ScriptLink.Proofs.Framing

/-! # A reader beside a stop

    Whoever stops an engine does so beside its reader, and the two go on in any order: between two lines of a chunk,
    between the look at an exception and the event that tells of it, in the middle of the stop itself. The reader is
    taken apart into moves between which anything of that may happen. Main statement: the reader that is stopped only
    where its attempts say so is one way in which the moves can follow one another. -/

namespace ScriptLink
open Relation

/-! ### Moves -/

/-- What the reader does next. -/
inductive Task where
  | register
  | check
  | look
  | receive
  | queue (lines : List (List UInt8))
  | judge (raised : ReadFault)
  | announce (reason : Text) (fault : Option ReadFault)
  | ended (fault : Option ReadFault)

/-- How far a stop of the engine has come. -/
inductive StopStage where
  /-- The engine had been stopped before the reader began. -/
  | before
  | none
  | flagged
  | told
  | closed
  | done

/-- No stop is under way. -/
def StopStage.IsSettled (stage : StopStage) : (stopping : Bool) → Prop
  | true => stage = .before ∨ stage = .done
  | false => stage = .none

/-- A reader at work. -/
structure Watch where
  engine : Engine
  stage : StopStage
  unfinished : List UInt8
  task : Task
  /-- What the coming attempts give; then the stream ends. -/
  coming : List Received
  /-- What the attempts so far gave. -/
  taken : List Received
  /-- Whether the engine was stopped when the reader dealt with an exception. -/
  judged : Bool

/-- What the reader does with an exception. -/
def ReadFault.task (stopping : Bool) : ReadFault → Task
  | .system fault =>
    if fault.badDescriptor then
      if stopping then .ended none else .announce (.ofString "connection closed") none
    else .announce (.ofString "connection failed: " ++ fault.message) (some (.system fault))
  | .unusable words =>
    if stopping then .ended none
    else .announce (.ofString "connection failed: " ++ words) (some (.unusable words))

namespace Watch
variable {x y : Watch} {r : Reader}

/-- The reader of an engine before its first move. -/
def start (e : Engine) (script : List Received) : Watch where
  engine := e
  stage := if e.stopping then .before else .none
  unfinished := []
  task := .register
  coming := script
  taken := []
  judged := false

/-- The reader after the look at the process. -/
def look (x : Watch) : Watch :=
  match x.engine.process with
  | none => { x with task := .receive }
  | some process =>
    let x := { x with engine := { x.engine with process := some process.afterLook } }
    match process.exitCode? with
    | some code => { x with task := .announce (.ofString "Node exited with code " ++ .ofInt code) none }
    | none => { x with task := .receive }

/-- The reader after an attempt that gave this. -/
def accept (x : Watch) : Received → Watch
  | .data [] | .ended => { x with task := .announce (.ofString "connection closed by Node") none }
  | .data chunk =>
    let (lines, unfinished) := linesOfChunk x.unfinished chunk
    { x with unfinished := unfinished, task := .queue lines }
  | .nothing => { x with task := .check }
  | .fault fault => if fault.wouldBlock then { x with task := .check } else { x with task := .judge (.system fault) }
  | .unusable words => { x with task := .judge (.unusable words) }

/-- The reader after its next move. -/
def next (x : Watch) : Watch :=
  match x.task with
  | .register =>
    match x.engine.registrationFault? with
    | some fault => { x with task := .ended (some fault) }
    | none => { x with task := .check }
  | .check => if x.engine.stopping then { x with task := .ended none } else { x with task := .look }
  | .look => x.look
  | .receive =>
    match x.coming with
    | [] => x.accept .ended
    | received :: coming => accept { x with coming := coming, taken := x.taken ++ [received] } received
  | .queue [] => { x with task := .receive }
  | .queue (line :: lines) =>
    { x with
      engine := { x.engine with queue := x.engine.queue ++ (Event.ofLine? line).toList }
      task := .queue lines }
  | .judge raised => { x with task := raised.task x.engine.stopping, judged := x.engine.stopping }
  | .announce reason fault => { x with engine := x.engine.enqueue (.closed reason), task := .ended fault }
  | .ended _ => x

/-- The same after the next move of a stop. Its first one is that somebody calls it. -/
def stopNext (x : Watch) : Watch :=
  match x.stage with
  | .before | .done => x
  | .none => { x with engine := { x.engine with stopping := true }, stage := .flagged }
  | .flagged => { x with engine := x.engine.enqueue .finish, stage := .told }
  | .told => { x with engine := { x.engine.closeConnection with listening := false }, stage := .closed }
  | .closed => { x with engine := x.engine.endProcess, stage := .done }

/-- A move of the reader or of a stop, or a change of what looks at the process will find. -/
inductive Step : Watch → Watch → Prop
  | reads (x : Watch) : Step x x.next
  | stops (x : Watch) : Step x x.stopNext
  | shifts (x : Watch) (process : Option Worker) : Step x { x with engine := { x.engine with process := process } }

/-- The reader can come to this on a script of attempts. -/
def Run (e : Engine) (script : List Received) (x : Watch) : Prop :=
  ReflTransGen Step (start e script) x

/-! ### A reader that is stopped only at its attempts -/

theorem reads_next (h : x.next = y) : ReflTransGen Step x y :=
  h ▸ .single (.reads x)

/-- A whole stop without a move of the reader in between. -/
theorem reaches_stop (h : x.stage.IsSettled x.engine.stopping) : ∃ stage : StopStage,
    stage.IsSettled x.engine.stop.stopping ∧ ReflTransGen Step x { x with engine := x.engine.stop, stage := stage } := by
  rcases hs : x.engine.stopping with _ | _
  · rw [hs] at h
    have hstage : x.stage = .none := h
    refine ⟨.done, ?_, ?_⟩
    · rw [Engine.stopping_stop]
      exact .inr rfl
    · have hstop : { x with engine := x.engine.stop, stage := .done } = x.stopNext.stopNext.stopNext.stopNext := by
        simp only [Engine.stop, hs, Bool.false_eq_true, if_false, stopNext, hstage]
      rw [hstop]
      exact .tail (.tail (.tail (.single (.stops _)) (.stops _)) (.stops _)) (.stops _)
  · rw [Engine.stop_of_stopping hs]
    exact ⟨x.stage, h, .refl⟩

/-- The same reader as the one that is not taken apart, no stop under way. -/
structure Follows (x : Watch) (r : Reader) (coming : List Received) (task : Task) : Prop where
  engine : x.engine = r.engine
  unfinished : x.unfinished = r.unfinished
  coming : x.coming = coming
  task : x.task = task
  settled : x.stage.IsSettled r.engine.stopping

theorem Follows.withTask {coming : List Received} {task : Task} (h : x.Follows r coming task) (later : Task) :
    Follows { x with task := later } r coming later :=
  ⟨h.engine, h.unfinished, h.coming, rfl, h.settled⟩

section
variable {coming : List Received} {task : Task}

theorem follows_stop (h : x.Follows r coming task) (stops : Bool) :
    ∃ y, ReflTransGen Step x y ∧ y.Follows (r.stopIf stops) coming task := by
  cases stops with
  | false => exact ⟨x, .refl, h⟩
  | true =>
    obtain ⟨stage, hsettled, hreach⟩ := reaches_stop (h.engine ▸ h.settled)
    rw [h.engine] at hsettled
    exact ⟨_, hreach, congrArg Engine.stop h.engine, h.unfinished, h.coming, h.task, hsettled⟩

theorem follows_announce {reason : Text} {fault : Option ReadFault} (h : x.Follows r coming (.announce reason fault)) :
    ∃ y, ReflTransGen Step x y ∧ y.Follows (r.close reason) coming (.ended fault) := by
  have hnext : x.next = { x with engine := x.engine.enqueue (.closed reason), task := .ended fault } := by
    simp only [next, h.task]
  refine ⟨_, reads_next hnext, ?_, h.unfinished, h.coming, rfl, h.settled⟩
  rw [h.engine]
  rfl

/-- The lines of a chunk, one move for each. -/
theorem follows_queue {lines : List (List UInt8)} (h : x.Follows r coming (.queue lines)) :
    ∃ y, ReflTransGen Step x y ∧ y.Follows { r with
      engine := { r.engine with queue := r.engine.queue ++ lines.filterMap Event.ofLine? } } coming .receive := by
  induction lines generalizing x r with
  | nil =>
    have hnext : x.next = { x with task := .receive } := by simp only [next, h.task]
    refine ⟨_, reads_next hnext, ?_⟩
    rw [List.filterMap_nil, List.append_nil]
    exact h.withTask _
  | cons line lines ih =>
    have hnext : x.next = { x with
        engine := { x.engine with queue := x.engine.queue ++ (Event.ofLine? line).toList }
        task := .queue lines } := by simp only [next, h.task]
    obtain ⟨y, hreach, hy⟩ := ih (x := x.next) (r := { r with
      engine := { r.engine with queue := r.engine.queue ++ (Event.ofLine? line).toList } }) (by
        rw [hnext]
        exact ⟨by rw [h.engine], h.unfinished, h.coming, rfl, h.settled⟩)
    refine ⟨y, .head (.reads x) hreach, ?_⟩
    rw [List.filterMap_eq_flatMap_toList, List.flatMap_cons, ← List.filterMap_eq_flatMap_toList, ← List.append_assoc]
    exact hy

theorem follows_judge {raised : ReadFault} (h : x.Follows r coming (.judge raised)) :
    ∃ y, ReflTransGen Step x y ∧ y.Follows r coming (raised.task r.engine.stopping) := by
  have hnext : x.next = { x with task := raised.task x.engine.stopping, judged := x.engine.stopping } := by
    simp only [next, h.task]
  rw [h.engine] at hnext
  exact ⟨_, reads_next hnext, rfl, h.unfinished, h.coming, rfl, h.settled⟩

end

/-- What the reader goes on with. -/
def taskOf : Reader.Progress → Task
  | .newRound => .check
  | .sameRound => .receive
  | .ended fault => .ended fault

section
variable {coming : List Received}

/-- The end by a fault: a judgement, and word of it unless the engine is stopped and the connection closed. -/
theorem follows_closeByFault {fault : SystemFault} (h : x.Follows r coming (.judge (.system fault))) :
    ∃ y, ReflTransGen Step x y ∧ y.Follows (r.closeByFault fault).1 coming (taskOf (r.closeByFault fault).2) := by
  obtain ⟨y, hreach, hy⟩ := follows_judge h
  simp only [Reader.closeByFault, ReadFault.task] at hy ⊢
  by_cases hsilent : fault.badDescriptor = true ∧ r.engine.stopping = true
  · simp only [hsilent, if_true] at hy ⊢
    exact ⟨y, hreach, hy⟩
  · -- With or without an exception behind it, there is word.
    by_cases hdescriptor : fault.badDescriptor = true
    · have hs : ¬ r.engine.stopping = true := fun hs => hsilent ⟨hdescriptor, hs⟩
      simp only [hdescriptor, hs, if_true] at hy ⊢
      obtain ⟨z, hreach', hz⟩ := follows_announce hy
      exact ⟨z, hreach.trans hreach', hz⟩
    · simp only [hdescriptor] at hy ⊢
      obtain ⟨z, hreach', hz⟩ := follows_announce hy
      exact ⟨z, hreach.trans hreach', hz⟩

theorem follows_closeUnusable {words : Text} (h : x.Follows r coming (.judge (.unusable words))) :
    ∃ y, ReflTransGen Step x y ∧ y.Follows (r.closeUnusable words).1 coming (taskOf (r.closeUnusable words).2) := by
  obtain ⟨y, hreach, hy⟩ := follows_judge h
  simp only [Reader.closeUnusable, ReadFault.task] at hy ⊢
  by_cases hs : r.engine.stopping = true
  · simp only [hs, if_true] at hy ⊢
    exact ⟨y, hreach, hy⟩
  · simp only [hs] at hy ⊢
    obtain ⟨z, hreach', hz⟩ := follows_announce hy
    exact ⟨z, hreach.trans hreach', hz⟩

/-- What an attempt gave, up to the next one. -/
theorem follows_accept (h : x.Follows r coming .receive) (received : Received) :
    ∃ y, ReflTransGen Step (x.accept received) y ∧
      y.Follows (r.accept received).1 coming (taskOf (r.accept received).2) := by
  unfold accept
  split
  · exact follows_announce (h.withTask _)
  · exact follows_announce (h.withTask _)
  · rename_i chunk hne
    have htake : r.accept (.data chunk) = (r.take chunk, .sameRound) := by
      obtain ⟨b, bytes, rfl⟩ := List.exists_cons_of_ne_nil fun hnil => hne hnil
      rfl
    rw [htake]
    obtain ⟨y, hreach, hy⟩ := follows_queue (x := { x with
      unfinished := (linesOfChunk x.unfinished chunk).2
      task := .queue (linesOfChunk x.unfinished chunk).1 }) (r := { r with
        unfinished := (linesOfChunk x.unfinished chunk).2 }) ⟨h.engine, rfl, h.coming, rfl, h.settled⟩
    refine ⟨y, hreach, ?_⟩
    rw [h.unfinished] at hy
    exact hy
  · exact ⟨_, .refl, h.withTask _⟩
  · rename_i fault
    by_cases hblock : fault.wouldBlock = true
    · rw [if_pos hblock]
      refine ⟨_, .refl, ?_⟩
      simp only [Reader.accept, hblock, if_true]
      exact h.withTask _
    · rw [if_neg hblock, Reader.accept, if_neg hblock]
      exact follows_closeByFault (h.withTask _)
  · exact follows_closeUnusable (h.withTask _)

theorem next_receive (h : x.task = .receive) : x.next = accept { x with
    coming := x.coming.tail
    taken := x.taken ++ x.coming.take 1 } (x.coming.headD .ended) := by
  obtain ⟨engine, stage, unfinished, task, coming, taken, judged⟩ := x
  obtain rfl : task = .receive := h
  cases coming with
  | nil => simp only [next, List.tail_nil, List.take_nil, List.append_nil, List.headD_nil]
  | cons received coming => rfl

theorem follows_attempt {receipt : Receipt} (h : x.Follows r coming .receive)
    (hr : coming.headD .ended = receipt.received) : ∃ y, ReflTransGen Step x y ∧
      y.Follows (r.attempt receipt).1 coming.tail (taskOf (r.attempt receipt).2) := by
  obtain ⟨y, hstop, hy⟩ := follows_stop h receipt.stops
  have hnext := next_receive hy.task
  rw [hy.coming, hr] at hnext
  obtain ⟨z, haccept, hz⟩ := follows_accept (x := { y with coming := coming.tail, taken := y.taken ++ coming.take 1 })
    (r := { r.stopIf receipt.stops with attempts := (r.stopIf receipt.stops).attempts + 1 })
    ⟨hy.engine, hy.unfinished, rfl, hy.task, hy.settled⟩ receipt.received
  exact ⟨z, (hstop.trans (reads_next hnext)).trans haccept, hz⟩

theorem follows_look (h : x.Follows r coming .check) (stopsWaiting : Bool) : ∃ y, ReflTransGen Step x y ∧
    y.Follows (r.look stopsWaiting).1 coming (if (r.look stopsWaiting).2 then .receive else .ended none) := by
  by_cases hs : r.engine.stopping = true
  · have hnext : x.next = { x with task := .ended none } := by simp only [next, h.task, h.engine, hs, if_true]
    refine ⟨_, reads_next hnext, ?_⟩
    simp only [Reader.look, hs, if_true]
    exact h.withTask _
  · have hnext : x.next = { x with task := .look } := by simp only [next, h.task, h.engine, hs, Bool.false_eq_true, if_false]
    obtain ⟨y, hstop, hy⟩ := follows_stop (h.withTask .look) stopsWaiting
    have hreach := (reads_next hnext).trans hstop
    have hlook : y.next = y.look := by simp only [next, hy.task]
    rcases hp : (r.stopIf stopsWaiting).engine.process with _ | process
    · refine ⟨_, hreach.trans (reads_next hlook), ?_⟩
      simp only [look, hy.engine, Reader.look, hs, Bool.false_eq_true, if_false, if_true, hp]
      exact ⟨rfl, hy.unfinished, hy.coming, rfl, hy.settled⟩
    · rcases hcode : process.exitCode? with _ | code
      · refine ⟨_, hreach.trans (reads_next hlook), ?_⟩
        simp only [look, hy.engine, Reader.look, hs, Bool.false_eq_true, if_false, if_true, hp, hcode]
        exact ⟨rfl, hy.unfinished, hy.coming, rfl, hy.settled⟩
      · have hy' : y.look.Follows { r.stopIf stopsWaiting with
            engine := { (r.stopIf stopsWaiting).engine with process := some process.afterLook } } coming
            (.announce (.ofString "Node exited with code " ++ .ofInt code) none) := by
          simp only [look, hy.engine, hp, hcode]
          exact ⟨rfl, hy.unfinished, hy.coming, rfl, hy.settled⟩
        obtain ⟨z, hannounce, hz⟩ := follows_announce hy'
        refine ⟨z, (hreach.trans (reads_next hlook)).trans hannounce, ?_⟩
        simp only [Reader.look, hs, Bool.false_eq_true, if_false, hp, hcode]
        exact hz

theorem follows_advance (looks : Bool) (receipt : Receipt)
    (h : x.Follows r coming (if looks then .check else .receive)) (hr : coming.headD .ended = receipt.received) :
    ∃ y left, ReflTransGen Step x y ∧
      y.Follows (Reader.advance looks r receipt).1 left (taskOf (Reader.advance looks r receipt).2) ∧
        ((∃ fault, (Reader.advance looks r receipt).2 = .ended fault) ∨ left = coming.tail) := by
  cases looks with
  | false =>
    obtain ⟨y, hreach, hy⟩ := follows_attempt h hr
    exact ⟨y, coming.tail, hreach, hy, .inr rfl⟩
  | true =>
    obtain ⟨y, hlook, hy⟩ := follows_look h receipt.stopsWaiting
    rcases hl : r.look receipt.stopsWaiting with ⟨r', _ | _⟩
    · simp only [hl] at hy
      simp only [Reader.advance, if_true, hl]
      exact ⟨y, coming, hlook, hy, .inl ⟨none, rfl⟩⟩
    · simp only [hl, if_true] at hy
      obtain ⟨z, hattempt, hz⟩ := follows_attempt hy hr
      simp only [Reader.advance, if_true, hl]
      exact ⟨z, coming.tail, hlook.trans hattempt, hz, .inr rfl⟩

theorem advance_atEnd (looks : Bool) (r : Reader) : ∃ fault, (Reader.advance looks r Reader.atEnd).2 = .ended fault := by
  cases looks with
  | false => exact ⟨none, rfl⟩
  | true =>
    simp only [Reader.advance, if_true]
    split
    · exact ⟨none, rfl⟩
    · exact ⟨none, rfl⟩

/-- The reader that is not taken apart does what the moves do, if a stop comes only where its script has one. -/
theorem follows_run (looks : Bool) (script : List Receipt)
    (h : x.Follows r (script.map Receipt.received) (if looks then .check else .receive)) : ∃ y left,
      ReflTransGen Step x y ∧ y.Follows (Reader.run looks r script).1 left (.ended (Reader.run looks r script).2) := by
  -- On the attempts; behind the last one the end of the stream is received.
  induction script generalizing x r looks with
  | nil =>
    obtain ⟨y, left, hreach, hy, -⟩ := follows_advance looks Reader.atEnd h rfl
    obtain ⟨fault, hended⟩ := advance_atEnd looks r
    refine ⟨y, left, hreach, ?_⟩
    rcases ha : Reader.advance looks r Reader.atEnd with ⟨r', progress⟩
    rw [ha] at hy hended
    obtain rfl : progress = .ended fault := hended
    simp only [Reader.run, ha]
    exact hy
  | cons receipt script ih =>
    obtain ⟨y, left, hreach, hy, hleft⟩ := follows_advance looks receipt h rfl
    rcases ha : Reader.advance looks r receipt with ⟨r', progress⟩
    rw [ha] at hy hleft
    cases progress with
    | ended fault =>
      refine ⟨y, left, hreach, ?_⟩
      simp only [Reader.run, ha]
      exact hy
    | newRound =>
      obtain ⟨fault, hfault⟩ | rfl := hleft
      · cases hfault
      obtain ⟨z, left, hothers, hz⟩ := ih true hy
      refine ⟨z, left, hreach.trans hothers, ?_⟩
      simp only [Reader.run, ha]
      exact hz
    | sameRound =>
      obtain ⟨fault, hfault⟩ | rfl := hleft
      · cases hfault
      obtain ⟨z, left, hothers, hz⟩ := ih false hy
      refine ⟨z, left, hreach.trans hothers, ?_⟩
      simp only [Reader.run, ha]
      exact hz

theorem follows_start (e : Engine) (script : List Received) :
    (start e script).Follows (Reader.ofEngine e) script .register := by
  refine ⟨rfl, rfl, rfl, rfl, ?_⟩
  rcases hs : e.stopping with _ | _
  · simp only [start, Reader.ofEngine, hs, Bool.false_eq_true, if_false]
    rfl
  · simp only [start, Reader.ofEngine, hs, if_true]
    exact .inl rfl

/-- The same from the registration on. -/
theorem follows_attend (e : Engine) (script : List Receipt) : ∃ y left, Run e (script.map Receipt.received) y ∧
    y.Follows (Reader.attend e script).1 left (.ended (Reader.attend e script).2) := by
  have hstart := follows_start e (script.map Receipt.received)
  rcases hr : e.registrationFault? with _ | fault
  · have hnext : (start e (script.map Receipt.received)).next =
        { start e (script.map Receipt.received) with task := .check } := by
      rw [next, hstart.task]
      simp only [hstart.engine, Reader.ofEngine, hr]
    obtain ⟨y, left, hreach, hy⟩ := follows_run true script (hstart.withTask .check)
    refine ⟨y, left, (reads_next hnext).trans hreach, ?_⟩
    simp only [Reader.attend, hr]
    exact hy
  · have hnext : (start e (script.map Receipt.received)).next =
        { start e (script.map Receipt.received) with task := .ended (some fault) } := by
      rw [next, hstart.task]
      simp only [hstart.engine, Reader.ofEngine, hr]
    refine ⟨_, script.map Receipt.received, reads_next hnext, ?_⟩
    simp only [Reader.attend, hr]
    exact hstart.withTask _

end

end Watch

end ScriptLink
