import ScriptLink.Proofs.Belongings
import ScriptLink.Proofs.Custody

/-! # A session and its threads

    A session lets the loop handle an event in one go, and stops an engine in one go. Each of these is a way in which
    the moves of the threads can follow one another: the loop fails one request after the other, and nobody else moves
    meanwhile. Main statement: whatever is done with a session that was started, a service can come to the same
    engine. -/

namespace ScriptLink
open Relation

namespace Service
variable {x y : Service} {e e' : Engine} {duty later : Duty} {asked : List Request}

/-- A service between two things that a session does. No stop is under way. -/
structure Rests (x : Service) (e : Engine) (duty : Duty) (asked : List Request) : Prop where
  engine : x.engine = e
  duty : x.duty = duty
  settled : x.stage.IsSettled e.stopping
  sound : x.Sound
  asked : x.asked = asked

/-- The service can come to such a point. -/
def Comes (x : Service) (e : Engine) (duty : Duty) (asked : List Request) : Prop :=
  ∃ y, ReflTransGen Step x y ∧ y.Rests e duty asked

theorem Rests.comes (h : x.Rests e duty asked) : x.Comes e duty asked := ⟨x, .refl, h⟩

theorem Comes.head (hstep : Step x y) (h : y.Comes e duty asked) : x.Comes e duty asked := by
  obtain ⟨z, hreach, hz⟩ := h
  exact ⟨z, .head hstep hreach, hz⟩

theorem Comes.trans (h : x.Comes e duty asked) (hnext : ∀ y : Service, y.Rests e duty asked → y.Comes e' later asked) :
    x.Comes e' later asked := by
  obtain ⟨y, hreach, hy⟩ := h
  obtain ⟨z, hreach', hz⟩ := hnext y hy
  exact ⟨z, hreach.trans hreach', hz⟩

/-! ### The loop -/

/-- The next move of the loop, where it leaves stops alone. -/
theorem Rests.work (h : x.Rests e duty asked) (hwork : x.work = y) (hstage : y.stage = x.stage)
    (hstopping : y.engine.stopping = e.stopping) : Step x y ∧ y.Rests y.engine y.duty asked := by
  have hstep : Step x y := hwork ▸ .works x
  refine ⟨hstep, rfl, rfl, ?_, hstep.sound h.sound, ?_⟩
  · rw [hstage, hstopping]
    exact h.settled
  · obtain ⟨more, hheard, hfinish⟩ := h.sound.works.heard
    rw [hwork] at hheard
    rw [asked_of_finishes hheard fun event hm => by rw [hfinish event hm]; rfl]
    exact h.asked

theorem Rests.comes_work (h : x.Rests e duty asked) (hwork : x.work = y) (hstage : y.stage = x.stage)
    (hstopping : y.engine.stopping = e.stopping) : x.Comes y.engine y.duty asked :=
  .head (h.work hwork hstage hstopping).1 (h.work hwork hstage hstopping).2.comes

theorem comes_fail {requests : List Request} {failure : Failure} {onward : Onward}
    (h : x.Rests e (.fail requests failure onward) asked) :
    x.Comes { e with completed := e.completed ++ requests.map fun r => ⟨r.serial, .error failure⟩ } onward.duty
      asked := by
  obtain rfl := h.engine
  induction requests generalizing x with
  | nil =>
    have hwork : x.work = { x with duty := onward.duty } := by simp only [Service.work, h.duty]
    rw [List.map_nil, List.append_nil]
    exact h.comes_work hwork rfl rfl
  | cons r requests ih =>
    have hwork : x.work = { x.conclude r (.error failure) with duty := .fail requests failure onward } := by
      simp only [Service.work, h.duty]
    obtain ⟨hstep, hnext⟩ := h.work hwork rfl rfl
    have hrest := ih hnext
    rw [List.map_cons, ← List.singleton_append, ← List.append_assoc]
    exact .head hstep hrest

/-! ### A stop -/

/-- The moves of a stop behind the first. -/
theorem stopNext_of_flagged (hengine : x.engine = { e with stopping := true }) (hstage : x.stage = .flagged)
    (hs : e.stopping = false) : x.stopNext.stopNext.stopNext = { x with engine := e.stop, stage := .done } := by
  obtain ⟨engine, stage, duty, taken, callers, history⟩ := x
  obtain rfl : engine = _ := hengine
  obtain rfl : stage = _ := hstage
  simp only [stopNext, StopStage.move, Engine.stop, hs, Bool.false_eq_true, if_false]

theorem asked_stopNext (x : Service) : x.stopNext.asked = x.asked := by
  obtain ⟨more, hheard, hfinish⟩ := heard_stopNext x
  exact asked_of_finishes hheard fun event hm => by rw [hfinish event hm]; rfl

/-- A stop that has begun comes to its end. -/
theorem comes_of_flagged (hengine : x.engine = { e with stopping := true }) (hstage : x.stage = .flagged)
    (hs : e.stopping = false) (hduty : x.duty = duty) (hsound : x.Sound) (hasked : x.asked = asked) :
    x.Comes e.stop duty asked := by
  have hmoves := stopNext_of_flagged hengine hstage hs
  refine .head (.stops _) (.head (.stops _) (.head (.stops _) (Rests.comes ?_)))
  refine ⟨?_, ?_, ?_, ?_, ?_⟩
  · rw [hmoves]
  · rw [hmoves]
    exact hduty
  · rw [hmoves, Engine.stopping_stop]
    exact .inr rfl
  · exact (Step.stops _).sound ((Step.stops _).sound ((Step.stops _).sound hsound))
  · rw [asked_stopNext, asked_stopNext, asked_stopNext]
    exact hasked

/-- Somebody stops the engine. -/
theorem comes_stop (h : x.Rests e duty asked) : x.Comes e.stop duty asked := by
  rcases hs : e.stopping with _ | _
  · have hstage : x.stage = .none := by
      have hsettled := h.settled
      rw [hs] at hsettled
      exact hsettled
    refine .head (.stops x) (comes_of_flagged ?_ ?_ hs h.duty ((Step.stops x).sound h.sound)
      ((asked_stopNext x).trans h.asked)) <;> rw [stopNext, hstage]
    · rw [← h.engine]
      rfl
    · rfl
  · rw [Engine.stop_of_stopping hs]
    exact h.comes

/-- The loop stops the engine itself. -/
theorem comes_ownStop (h : x.Rests e .stop asked) : x.Comes e.stop .take asked := by
  rcases hs : e.stopping with _ | _
  · have hwork : x.work = { x with
        engine := { x.engine with stopping := true }, stage := .flagged, duty := .release } := by
      simp only [Service.work, h.duty, h.engine, hs, Bool.false_eq_true, if_false]
    have hasked : x.work.asked = asked := by rw [hwork]; exact h.asked
    have hreleased : x.work.Comes e.stop .release asked := comes_of_flagged (by rw [hwork, h.engine]) (by rw [hwork]) hs
      (by rw [hwork]) ((Step.works x).sound h.sound) hasked
    refine .head (.works x) (hreleased.trans fun y hy => ?_)
    have hstage : y.stage = .before ∨ y.stage = .done := by
      have hsettled := hy.settled
      rw [Engine.stopping_stop] at hsettled
      exact hsettled
    have hleave : y.work = { y with duty := .take } := by
      rcases hstage with hstage | hstage <;> simp only [Service.work, hy.duty, hstage]
    exact (hy.engine ▸ hy.comes_work hleave rfl (by rw [hy.engine]))
  · have hwork : x.work = { x with duty := .take } := by
      simp only [Service.work, h.duty, h.engine, hs, if_true]
    rw [Engine.stop_of_stopping hs]
    exact (h.engine ▸ h.comes_work hwork rfl (by rw [h.engine]))

/-! ### An event -/

/-- All that waits is failed, whatever comes then. -/
theorem comes_clear {failure : Failure} {event : Event} (onward : Onward) (h : x.Rests e (.handle event) asked)
    (hwork : x.work = clear { x with engine := e' } failure onward) (hstopping : e'.stopping = e.stopping) :
    x.Comes (e'.failPending failure) onward.duty asked := by
  obtain ⟨hstep, hclear⟩ := h.work hwork rfl hstopping
  have hfailed := comes_fail hclear
  rw [waiting, List.map_map] at hfailed
  exact .head hstep hfailed

theorem stopping_handle_message (e : Engine) (content : Host.Value) :
    (e.handle (.message content)).1.stopping = e.stopping := by
  simp only [Engine.handle]
  split
  · exact (Engine.ownsAs_answer ..).stopping
  · exact (Engine.ownsAs_unexpected ..).stopping

theorem comes_send {r : Request} {line : List UInt8} (h : x.Rests { e with pending := e.pending.insert r.id r }
    (.send r line) asked) (hgone : e.gone = none) (hline : r.line = .ok line) :
    x.Comes (e.dispatch r).1 (e.dispatch r).2.duty asked := by
  have howns := Engine.ownsAs_write { e with pending := e.pending.insert r.id r } line
  rcases hwrite : Engine.write { e with pending := e.pending.insert r.id r } line with ⟨written, _ | fault⟩ <;>
    rw [hwrite] at howns
  · have hwork : x.work = { x with engine := written, history := x.history ++ [.sent r none], duty := .take } := by
      simp only [Service.work, h.duty, h.engine, hwrite]
    rw [Engine.dispatch_sent hgone hline hwrite]
    exact h.comes_work hwork rfl howns.stopping
  · have hwork : x.work = { conclude { x with
          engine := written.forget r.id
          history := x.history ++ [.sent r (some fault)] } r
        (.error (.closed (.ofString "could not reach engine: " ++ fault.message))) with duty := .take } := by
      simp only [Service.work, h.duty, h.engine, hwrite]
    rw [Engine.dispatch_faulted hgone hline hwrite]
    exact h.comes_work hwork rfl howns.stopping

theorem comes_request {r : Request} (h : x.Rests e (.handle (.request r)) asked) :
    x.Comes (e.dispatch r).1 (e.dispatch r).2.duty asked := by
  obtain rfl := h.engine
  rcases hgone : x.engine.gone with _ | reason
  · rcases hline : r.line with reason | line
    · have hwork : x.work = { x with
          engine := { x.engine with pending := x.engine.pending.insert r.id r }
          duty := .raised (.unwritable reason) } := by
        simp only [Service.work, h.duty, handle, hgone, hline]
      rw [Engine.dispatch_unwritable hgone hline]
      exact h.comes_work hwork rfl rfl
    · have hwork : x.work = { x with
          engine := { x.engine with pending := x.engine.pending.insert r.id r }
          duty := .send r line } := by
        simp only [Service.work, h.duty, handle, hgone, hline]
      obtain ⟨hstep, hsend⟩ := h.work hwork rfl rfl
      exact .head hstep (comes_send hsend hgone hline)
  · have hwork : x.work = { x.conclude r (.error (.closed reason)) with duty := .take } := by
      simp only [Service.work, h.duty, handle, hgone]
    rw [Engine.dispatch_gone hgone]
    exact h.comes_work hwork rfl rfl

theorem comes_handle {event : Event} (h : x.Rests e (.handle event) asked) :
    x.Comes (e.handle event).1 (e.handle event).2.duty asked := by
  have hwork : x.work = x.handle event := by simp only [Service.work, h.duty]
  obtain rfl := h.engine
  cases h.sound.known_inHand event h.duty with
  | request r => exact comes_request h
  | finish => exact comes_clear .drain h hwork rfl
  | protocolError words => exact comes_clear .take h hwork rfl
  | closed reason => exact (comes_clear .stop h hwork rfl).trans fun y hy => comes_ownStop hy
  | message content => exact h.comes_work hwork rfl (stopping_handle_message x.engine _)

/-! ### The loop on its queue -/

theorem drain_cons {event : Event} {rest : List Event} (hq : e.queue = event :: rest) : e.drain =
    Engine.drain { e with
      queue := rest
      completed := e.completed ++ event.request?.toList.map fun r => ⟨r.serial, .error engineWasStopped⟩ } := by
  cases event <;> simp [Engine.drain, hq, Event.request?]

theorem drainNext_cons {event : Event} {rest : List Event} (hq : x.engine.queue = event :: rest) :
    x.drainNext.engine = { x.engine with
      queue := rest
      completed := x.engine.completed ++ event.request?.toList.map fun r => ⟨r.serial, .error engineWasStopped⟩ } ∧
    x.drainNext.stage = x.stage ∧ x.drainNext.duty = x.duty := by
  rcases hr : event.request? with _ | r <;> simp [drainNext, hq, hr, conclude, Engine.complete]

theorem comes_drain (h : x.Rests e .drain asked) : x.Comes e.drain .over asked := by
  obtain rfl := h.engine
  have hdrain : x.work = x.drainNext := by simp only [Service.work, h.duty]
  induction hq : x.engine.queue generalizing x with
  | nil =>
    have hwork : x.work = { x with duty := .over } := by simp only [hdrain, drainNext, hq]
    have hsame : x.engine.drain = x.engine := by
      simp only [Engine.drain, hq, List.filterMap_nil, List.append_nil]
      rw [← hq]
    rw [hsame]
    exact h.comes_work hwork rfl rfl
  | cons event rest ih =>
    obtain ⟨hengine, hstage, hduty⟩ := drainNext_cons hq
    obtain ⟨hstep, hnext⟩ := h.work hdrain hstage (by rw [hengine])
    rw [hduty, h.duty] at hnext
    rw [drain_cons hq, ← hengine]
    exact .head hstep (ih hnext (by simp only [Service.work, hnext.duty]) (by rw [hengine]))

theorem comes_runFor (steps : Nat) (h : x.Rests e .take asked) :
    x.Comes (e.runFor steps).1 (e.runFor steps).2.duty asked := by
  induction steps generalizing x e with
  | zero => exact h.comes
  | succ steps ih =>
    obtain rfl := h.engine
    rcases hq : x.engine.queue with _ | ⟨event, rest⟩
    · simp only [Engine.runFor, hq]
      exact h.comes
    · have hwork : x.work = { x with
          engine := { x.engine with queue := rest }, taken := x.taken ++ [event], duty := .handle event } := by
        simp only [Service.work, h.duty, hq]
      obtain ⟨hstep, htaken⟩ := h.work hwork rfl rfl
      refine .head hstep ?_
      have hhandled := comes_handle htaken
      simp only [Engine.runFor, hq]
      dsimp only at hhandled
      rcases hhandle : Engine.handle { x.engine with queue := rest } event with ⟨e', _ | _ | fault⟩ <;>
        rw [hhandle] at hhandled
      · exact hhandled.trans fun y hy => ih hy
      · exact hhandled.trans fun y hy => comes_drain hy
      · exact hhandled

/-! ### The reader -/

/-- A move of the reader, or of the process. -/
theorem Rests.comes_step (more : List Event) (h : x.Rests e duty asked) (hstep : Step x y) (hduty : y.duty = x.duty)
    (hstage : y.stage = x.stage) (hstopping : y.engine.stopping = e.stopping) (hheard : y.heard = x.heard ++ more)
    (hmore : ∀ event ∈ more, event.request? = none) : x.Comes y.engine duty asked := by
  refine .head hstep (Rests.comes ⟨rfl, hduty.trans h.duty, ?_, hstep.sound h.sound, ?_⟩)
  · rw [hstage, hstopping]
    exact h.settled
  · rw [asked_of_finishes hheard hmore]
    exact h.asked

theorem comes_closed (h : x.Rests e duty asked) (reason : Text) :
    x.Comes (e.enqueue (.closed reason)) duty asked := by
  obtain rfl := h.engine
  refine h.comes_step [.closed reason] (.loses x reason) rfl rfl rfl (List.append_assoc _ _ _).symm ?_
  intro event hm
  rw [List.mem_singleton.mp hm]
  rfl

theorem comes_lines (lines : List (List UInt8)) (h : x.Rests e duty asked) :
    x.Comes { e with queue := e.queue ++ lines.filterMap Event.ofLine? } duty asked := by
  obtain rfl := h.engine
  induction lines generalizing x with
  | nil =>
    rw [List.filterMap_nil, List.append_nil]
    exact h.comes
  | cons line lines ih =>
    have hheard : x.Comes { x.engine with queue := x.engine.queue ++ (Event.ofLine? line).toList } duty asked := by
      refine h.comes_step _ (.hears x line) rfl rfl rfl (List.append_assoc _ _ _).symm fun event hm => ?_
      rcases Event.ofLine?_cases (Option.mem_toList.mp hm) with ⟨content, rfl, -⟩ | ⟨words, rfl⟩ <;> rfl
    refine hheard.trans fun y hy => ?_
    have hrest := ih (hy.engine ▸ hy)
    rw [hy.engine] at hrest
    rw [List.filterMap_eq_flatMap_toList, List.flatMap_cons, ← List.filterMap_eq_flatMap_toList, ← List.append_assoc]
    exact hrest

theorem comes_looks (h : x.Rests e duty asked) (process : Worker) (looks : List (Option Int))
    (hp : e.process = some process) :
    x.Comes { e with process := some { process with looks := looks } } duty asked := by
  obtain rfl := h.engine
  have hcomes := h.comes_step [] (.looks x looks) rfl rfl rfl (List.append_nil _).symm (List.forall_mem_nil _)
  rw [hp] at hcomes
  exact hcomes

theorem comes_stopIf {r : Reader} (h : x.Rests r.engine duty asked) (stops : Bool) :
    x.Comes (r.stopIf stops).engine duty asked := by
  cases stops with
  | false => exact h.comes
  | true => exact comes_stop h

theorem comes_accept {r : Reader} (h : x.Rests r.engine duty asked) (received : Received) :
    x.Comes (r.accept received).1.engine duty asked := by
  unfold Reader.accept Reader.closeByFault Reader.closeUnusable
  repeat' split
  all_goals first
    | exact h.comes
    | exact comes_closed h _
    | exact comes_lines _ h

theorem comes_attempt {r : Reader} (h : x.Rests r.engine duty asked) (receipt : Receipt) :
    x.Comes (r.attempt receipt).1.engine duty asked :=
  (comes_stopIf h receipt.stops).trans fun _ hy => comes_accept
    (r := { r.stopIf receipt.stops with attempts := (r.stopIf receipt.stops).attempts + 1 }) hy receipt.received

theorem comes_look {r : Reader} (h : x.Rests r.engine duty asked) (stopsWaiting : Bool) :
    x.Comes (r.look stopsWaiting).1.engine duty asked := by
  unfold Reader.look
  split
  · exact h.comes
  · dsimp only
    split
    · exact comes_stopIf h stopsWaiting
    · rename_i process hp
      have hlooks : x.Comes { (r.stopIf stopsWaiting).engine with process := some process.afterLook } duty asked := by
        refine (comes_stopIf h stopsWaiting).trans fun y hy => ?_
        have hafter : process.afterLook = { process with looks := process.afterLook.looks } := by
          unfold Worker.afterLook
          split <;> rfl
        rw [hafter]
        exact comes_looks hy process _ hp
      split
      · exact hlooks.trans fun y hy => comes_closed hy _
      · exact hlooks

theorem comes_advance (looks : Bool) {r : Reader} (h : x.Rests r.engine duty asked) (receipt : Receipt) :
    x.Comes (Reader.advance looks r receipt).1.engine duty asked := by
  cases looks with
  | false => exact comes_attempt h receipt
  | true =>
    have hlook := comes_look h receipt.stopsWaiting
    simp only [Reader.advance, if_true]
    split
    · rename_i r' heq
      rw [heq] at hlook
      exact hlook
    · rename_i r' heq
      rw [heq] at hlook
      exact hlook.trans fun y hy => comes_attempt hy receipt

end Service

/-! ### A session -/

namespace Session
variable {s s' : Session} {x : Service}
open Service

/-- A session between two deeds, and the service that has come to the same point. -/
structure Mirrors (s : Session) (x : Service) : Prop where
  rests : x.Rests s.engine x.duty x.asked
  looping : s.looping = true ↔ x.duty = .take
  requests : x.asked.length = s.requests
  ids : ∀ r ∈ x.asked, ∃ n < s.requests, r.id = s.ids n

/-- The service can come to what the session is. -/
def Mirrored (s : Session) (x : Service) : Prop :=
  ∃ y, ReflTransGen Step x y ∧ s.Mirrors y

theorem Mirrors.mirrored (h : s.Mirrors x) : s.Mirrored x := ⟨x, .refl, h⟩

theorem Mirrored.trans (h : s.Mirrored x) (hnext : ∀ y, s.Mirrors y → s'.Mirrored y) : s'.Mirrored x := by
  obtain ⟨y, hreach, hy⟩ := h
  obtain ⟨z, hreach', hz⟩ := hnext y hy
  exact ⟨z, hreach.trans hreach', hz⟩

theorem Mirrors.comes {duty : Duty} (h : s.Mirrors x) (s' : Session) (hcomes : x.Comes s'.engine duty x.asked)
    (hlooping : s'.looping = true ↔ duty = .take) (hrequests : s'.requests = s.requests) (hids : s'.ids = s.ids) :
    s'.Mirrored x := by
  obtain ⟨y, hreach, hy⟩ := hcomes
  refine ⟨y, hreach, ?_, ?_, ?_, ?_⟩
  · rw [hy.duty, hy.asked]
    exact hy
  · rw [hy.duty]
    exact hlooping
  · rw [hy.asked, hrequests]
    exact h.requests
  · rw [hy.asked, hrequests, hids]
    exact h.ids

theorem waiting_iff_take (runEnd : Engine.RunEnd) : decide (runEnd = .waiting) = true ↔ runEnd.duty = .take := by
  cases runEnd <;> simp [Engine.RunEnd.duty]

theorem Mirrors.loop (h : s.Mirrors x) (steps : Nat) : (s.after (.loop steps)).Mirrored x := by
  simp only [after]
  split
  · rename_i hlooping
    have hrests := h.rests
    rw [h.looping.mp hlooping] at hrests
    exact h.comes _ (comes_runFor steps hrests) (waiting_iff_take _) rfl rfl
  · exact h.mirrored

theorem Mirrors.settle (h : s.Mirrors x) : s.settle.Mirrored x := h.loop s.engine.stepsLeft

theorem Mirrors.receive (h : s.Mirrors x) (receipt : Receipt) : (s.receive receipt).Mirrored x := by
  unfold Session.receive
  split
  · have hadvance := comes_advance s.looks (r := ⟨s.engine, s.unfinished, 0⟩) h.rests receipt
    refine Mirrored.trans ?_ fun y hy => hy.settle
    exact h.comes _ hadvance h.looping rfl rfl
  · exact h.mirrored

/-- A new request has an id of its own. -/
theorem Mirrors.apart (h : s.Mirrors x) (hids : Function.Injective s.ids) :
    ∀ other ∈ x.unfinished, other.id ≠ s.ids s.requests := by
  intro other hother hid
  obtain ⟨n, hn, hother⟩ := h.ids other (h.rests.sound.unfinished hother)
  exact Nat.ne_of_lt hn (hids (hother.symm.trans hid))

theorem Mirrors.request (h : s.Mirrors x) (hids : Function.Injective s.ids) (operation payload : Host.Value) :
    (s.request operation payload).2.Mirrored x := by
  unfold Session.request
  split
  · exact h.mirrored
  · rename_i hopen
    have hengine := h.rests.engine
    -- A caller begins and is admitted, and in the next move its request is in the queue.
    have hbegin : Step x (x.begin (.ask operation payload)) := .begins x _
    have hasks : Step (x.begin (.ask operation payload))
        ((x.begin (.ask operation payload)).ask x.callers.length (.ask operation payload) (s.ids s.requests)) :=
      .asks _ (by simp [begin, standing]) (h.apart hids)
    have hask : (x.begin (.ask operation payload)).ask x.callers.length (.ask operation payload) (s.ids s.requests) =
        { x.begin (.ask operation payload) with
          engine := x.engine.enqueue (.request ⟨s.requests, s.ids s.requests, operation, payload⟩)
          callers := (x.begin (.ask operation payload)).callers.set x.callers.length
            (.ask operation payload, .waits s.requests) } := by
      have hsame : (x.begin (.ask operation payload)).engine = s.engine := hengine
      rw [Service.ask, if_neg (by rw [hsame]; exact hopen)]
      rw [← h.requests]
      rfl
    generalize (x.begin (.ask operation payload)).ask x.callers.length (.ask operation payload) (s.ids s.requests) = y
      at hasks hask
    have hreach : ReflTransGen Step x y := .tail (.single hbegin) hasks
    have hasked : y.asked = x.asked ++ [⟨s.requests, s.ids s.requests, operation, payload⟩] := by
      rw [hask]
      exact asked_enqueue x _ _
    -- The session has done the same in one piece, and then the threads settle.
    have hmirrors : Mirrors { s.withEngine (s.engine.enqueue
        (.request ⟨s.requests, s.ids s.requests, operation, payload⟩)) with requests := s.requests + 1 } y := by
      refine ⟨⟨?_, rfl, ?_, hasks.sound (hbegin.sound h.rests.sound), rfl⟩, ?_, ?_, ?_⟩
      · rw [hask, hengine]
        rfl
      · rw [hask]
        exact h.rests.settled
      · rw [hask]
        exact h.looping
      · rw [hasked, List.length_append, h.requests]
        rfl
      · rw [hasked]
        intro r hm
        rcases List.mem_append.mp hm with hm | hm
        · obtain ⟨n, hn, hid⟩ := h.ids r hm
          exact ⟨n, Nat.lt_succ_of_lt hn, hid⟩
        · rw [List.mem_singleton.mp hm]
          exact ⟨s.requests, Nat.lt_succ_self _, rfl⟩
    obtain ⟨z, hreach', hz⟩ := hmirrors.settle
    exact ⟨z, hreach.trans hreach', hz⟩

theorem Mirrors.after (h : s.Mirrors x) (hids : Function.Injective s.ids) (hstarted : s.engine.started = true)
    (deed : Deed) : (s.after deed).Mirrored x := by
  cases deed with
  | start machine =>
    rw [Session.after, start_again hstarted]
    exact h.mirrored
  | stop => exact h.comes _ (comes_stop h.rests) h.looping rfl rfl
  | request operation payload => exact h.request hids operation payload
  | loop steps => exact h.loop steps
  | receive receipt => exact h.receive receipt
  | exit code =>
    have hexit := h.rests.comes_step [] (.looks x [some code]) rfl rfl (by rw [← h.rests.engine])
      (List.append_nil _).symm (List.forall_mem_nil _)
    rw [h.rests.engine] at hexit
    exact h.comes _ hexit h.looping rfl rfl

theorem ids_after (s : Session) (deed : Deed) : (s.after deed).ids = s.ids := by
  have hsettle : ∀ s : Session, s.settle.ids = s.ids := by
    intro s
    unfold settle
    split <;> rfl
  cases deed with
  | start machine =>
    simp only [after, start]
    split
    · rfl
    · exact hsettle _
  | request operation payload =>
    simp only [after, request]
    split
    · rfl
    · exact hsettle _
  | loop steps =>
    simp only [after]
    split <;> rfl
  | receive receipt =>
    simp only [after, receive]
    split
    · exact hsettle _
    · rfl
  | _ => rfl

theorem Mirrors.afterAll (h : s.Mirrors x) (hids : Function.Injective s.ids) (hstarted : s.engine.started = true)
    (deeds : List Deed) : (s.afterAll deeds).Mirrored x := by
  induction deeds generalizing s x with
  | nil => exact h.mirrored
  | cons deed deeds ih =>
    refine (h.after hids hstarted deed).trans fun y hy => ?_
    have hstarted' := (Engine.stays_of_shifts (shifts_after hstarted deed).1).started hstarted
    exact ih hy (ids_after s deed ▸ hids) hstarted'

/-- Whatever is done with a session that was started, its engine is one that a service can come to. -/
theorem exists_run_afterAll {machine : Machine} {site site' : Site} {ids : Nat → Text}
    (huntried : site.engine.Untried) (hstart : site.start machine = (.ok (), site')) (hids : Function.Injective ids)
    (deeds : List Deed) :
    ∃ x, Run site'.engine x ∧ ((idle site ids).afterAll (.start machine :: deeds)).Mirrors x := by
  have hfresh := Engine.fresh_of_start huntried hstart
  have hasked := asked_start hfresh
  have hmirrors : Mirrors ⟨site', [], true, true, true, 0, ids⟩ (Service.start site'.engine) := by
    refine ⟨⟨rfl, rfl, ?_, sound_start hfresh, rfl⟩, iff_of_true rfl rfl, ?_, ?_⟩
    · cases hs : site'.engine.stopping <;> simp [Service.start, engine, hs, StopStage.IsSettled]
    · rw [hasked]
      rfl
    · rw [hasked]
      exact List.forall_mem_nil _
  have hbegun : (idle site ids).afterAll (.start machine :: deeds) =
      afterAll ⟨site', [], true, true, true, 0, ids⟩ (.loop site'.engine.stepsLeft :: deeds) := by
    rw [afterAll_cons, afterAll_cons, after, start, idle, hstart]
    rfl
  rw [hbegun]
  exact hmirrors.afterAll hids hfresh.started _

end Session
end ScriptLink
