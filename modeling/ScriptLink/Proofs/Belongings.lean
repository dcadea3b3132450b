import Mathlib.Logic.Relation
import ScriptLink.Proofs.Starting

/-! # What becomes of what an engine owns

    An engine owns a process, a connection and a listening socket. It gets them by its one start, and the threads that
    serve it leave them alone unless they stop it. Main statement: an engine that is stopped has released all that it
    ever owned, unless it was stopped before it was started; then a process that is launched all the same is never asked
    to end, and the socket stays open, as it does where the program cannot even be named. -/

namespace ScriptLink
open Relation

namespace Worker

theorem hasEnded_ended (w : Worker) (signal : Int) : (w.ended signal).HasEnded := by
  unfold ended
  split <;> simp [HasEnded]

theorem HasEnded.afterLook {w : Worker} (h : w.HasEnded) : w.afterLook.HasEnded := by
  obtain ⟨hsome, hall⟩ := h
  unfold Worker.afterLook
  split
  · rename_i first next later hlooks
    refine ⟨List.cons_ne_nil _ _, fun look hm => hall look ?_⟩
    rw [hlooks]
    exact List.mem_cons_of_mem _ hm
  · exact ⟨hsome, hall⟩

end Worker

namespace Engine
variable {e e' : Engine}

/-- Two states of an engine that differ only in its requests, in what was written and in the log. -/
structure OwnsAs (e e' : Engine) : Prop where
  started : e'.started = e.started
  stopping : e'.stopping = e.stopping
  listening : e'.listening = e.listening
  process : e'.process = e.process
  calls : e'.calls = e.calls
  isOpen : e'.connection.map Connection.isOpen = e.connection.map Connection.isOpen

theorem OwnsAs.rfl : e.OwnsAs e := ⟨Eq.refl _, Eq.refl _, Eq.refl _, Eq.refl _, Eq.refl _, Eq.refl _⟩

/-- What can become of what a started engine owns. -/
inductive Shift : Engine → Engine → Prop
  | keeps {e e' : Engine} (owns : e.OwnsAs e') : Shift e e'
  | stops (e : Engine) : Shift e e.stop
  | looks (e : Engine) : Shift e { e with process := e.process.map Worker.afterLook }
  | exits (e : Engine) (code : Int) :
      Shift e { e with process := e.process.map fun process => { process with looks := [some code] } }

theorem shifts_keeps (h : e.OwnsAs e') : ReflTransGen Shift e e' := .single (.keeps h)

/-! ### What the threads do -/

theorem isOpen_write (c : Connection) (line : List UInt8) : (c.write line).1.isOpen = c.isOpen := by
  unfold Connection.write
  split <;> rfl

theorem ownsAs_write (e : Engine) (line : List UInt8) : e.OwnsAs (e.write line).1 := by
  unfold write
  split
  · rename_i connection hc
    refine ⟨rfl, rfl, rfl, rfl, rfl, ?_⟩
    simp [hc, isOpen_write]
  · exact .rfl

theorem ownsAs_dispatch (e : Engine) (r : Request) : e.OwnsAs (e.dispatch r).1 := by
  unfold dispatch
  split
  · exact ⟨rfl, rfl, rfl, rfl, rfl, rfl⟩
  · have hwrite : ∀ line, e.OwnsAs (write { e with pending := e.pending.insert r.id r } line).1 := fun line =>
      let h := ownsAs_write { e with pending := e.pending.insert r.id r } line
      ⟨h.started, h.stopping, h.listening, h.process, h.calls, h.isOpen⟩
    dsimp only
    split
    · exact ⟨rfl, rfl, rfl, rfl, rfl, rfl⟩
    · rename_i line _
      have h := hwrite line
      split
      · rename_i written heq
        rw [heq] at h
        exact h
      · rename_i written fault heq
        rw [heq] at h
        exact ⟨h.started, h.stopping, h.listening, h.process, h.calls, h.isOpen⟩

theorem ownsAs_answer (e : Engine) (answer : Answer) (id : Host.Value) : e.OwnsAs (e.answer answer id).1 := by
  unfold Engine.answer
  split
  · exact .rfl
  · split
    · split <;> exact ⟨rfl, rfl, rfl, rfl, rfl, rfl⟩
    · exact .rfl

theorem ownsAs_unexpected (e : Engine) (event : Event) : e.OwnsAs (e.unexpected event).1 := by
  obtain ⟨log, hlog⟩ := e.unexpected_frame event
  rw [hlog]
  exact ⟨rfl, rfl, rfl, rfl, rfl, rfl⟩

/-- Only where the other end went away does the loop stop the engine. -/
theorem shifts_handle (e : Engine) (event : Event) : ReflTransGen Shift e (e.handle event).1 := by
  cases event with
  | finish => exact shifts_keeps ⟨rfl, rfl, rfl, rfl, rfl, rfl⟩
  | closed reason =>
    refine .tail (b := _) ?_ (.stops _)
    exact shifts_keeps ⟨rfl, rfl, rfl, rfl, rfl, rfl⟩
  | request r => exact shifts_keeps (ownsAs_dispatch e r)
  | message content =>
    simp only [handle]
    split
    · exact shifts_keeps (ownsAs_answer ..)
    · exact shifts_keeps (ownsAs_unexpected ..)
  | protocolError words => exact shifts_keeps ⟨rfl, rfl, rfl, rfl, rfl, rfl⟩
  | stray value =>
    simp only [handle]
    split
    · exact shifts_keeps (ownsAs_unexpected ..)
    · exact .refl

theorem shifts_runFor (steps : Nat) (e : Engine) : ReflTransGen Shift e (e.runFor steps).1 := by
  induction steps generalizing e with
  | zero => exact .refl
  | succ steps ih =>
    rcases hq : e.queue with _ | ⟨event, rest⟩
    · simp only [runFor, hq]
      exact .refl
    · have hkeeps : e.OwnsAs { e with queue := rest } := ⟨rfl, rfl, rfl, rfl, rfl, rfl⟩
      have hhandle := ReflTransGen.head (.keeps hkeeps) (shifts_handle { e with queue := rest } event)
      simp only [runFor, hq]
      generalize handle { e with queue := rest } event = result at hhandle ⊢
      obtain ⟨e', _ | _ | fault⟩ := result
      · exact hhandle.trans (ih e')
      · exact hhandle.tail (.keeps ⟨rfl, rfl, rfl, rfl, rfl, rfl⟩)
      · exact hhandle

/-! ### What stays -/

/-- Nothing is left of what the engine owned. -/
structure HasReleased (e : Engine) : Prop where
  process : ∀ process ∈ e.process, process.HasEnded
  connection : ∀ connection ∈ e.connection, connection.isOpen = false
  listening : e.listening = false

theorem endProcess_frame (e : Engine) : e.endProcess.connection = e.connection ∧
    e.endProcess.listening = e.listening ∧ (∀ process ∈ e.endProcess.process, process.HasEnded) ∧
    e.endProcess.process.toList.length = e.process.toList.length := by
  rcases hp : e.process with _ | process
  · simp [endProcess, hp]
  · simp only [endProcess, hp]
    split <;> simp [called, logged, Worker.hasEnded_ended]

theorem closeConnection_frame (e : Engine) : e.closeConnection.process = e.process ∧
    ∀ connection ∈ e.closeConnection.connection, connection.isOpen = false := by
  rcases hc : e.connection with _ | connection <;> simp [closeConnection, hc, called]

theorem hasReleased_stop (h : e.stopping = false) : e.stop.HasReleased := by
  rw [stop, if_neg (by simp [h])]
  obtain ⟨hconnection, hlistening, hprocess, -⟩ := endProcess_frame
    { ({ e with stopping := true }.enqueue .finish).closeConnection with listening := false }
  refine ⟨hprocess, ?_, hlistening⟩
  rw [hconnection]
  exact (closeConnection_frame _).2

theorem length_process_stop (e : Engine) : e.stop.process.toList.length = e.process.toList.length := by
  unfold stop
  split
  · rfl
  · rw [(endProcess_frame _).2.2.2]
    dsimp only
    rw [(closeConnection_frame _).1]
    rfl

theorem HasReleased.shift (h : e.HasReleased) (hs : e.stopping = true) (hshift : e.Shift e') : e'.HasReleased := by
  cases hshift with
  | keeps owns =>
    refine ⟨owns.process ▸ h.process, ?_, owns.listening.trans h.listening⟩
    intro connection hc
    have hopen := owns.isOpen
    rw [Option.mem_def.mp hc, Option.map_some] at hopen
    obtain ⟨old, hold, he⟩ := Option.map_eq_some_iff.mp hopen.symm
    exact he.symm.trans (h.connection old hold)
  | stops => rwa [stop_of_stopping hs]
  | looks =>
    refine ⟨?_, h.connection, h.listening⟩
    intro process hp
    obtain ⟨old, hold, rfl⟩ := Option.map_eq_some_iff.mp hp
    exact (h.process old hold).afterLook
  | exits code =>
    refine ⟨?_, h.connection, h.listening⟩
    intro process hp
    obtain ⟨old, -, rfl⟩ := Option.map_eq_some_iff.mp hp
    simp [Worker.HasEnded]

/-- What stays whatever the threads do: that the engine was started, whether it has a process, and of an engine that is
    stopped everything that a stop would change. -/
structure Stays (e e' : Engine) : Prop where
  started : e.started = true → e'.started = true
  process : e'.process.toList.length = e.process.toList.length
  stopping : e.stopping = true → e'.stopping = true ∧ e'.calls = e.calls ∧ e'.listening = e.listening
  released : (e.stopping = true → e.HasReleased) → e'.stopping = true → e'.HasReleased

theorem Shift.stays (h : e.Shift e') : e.Stays e' := by
  have hlength : ∀ (process : Option Worker) (f : Worker → Worker),
      (process.map f).toList.length = process.toList.length := by
    rintro (_ | process) f <;> rfl
  cases h with
  | keeps owns =>
    refine ⟨fun hs => owns.started.trans hs, by rw [owns.process], ?_, ?_⟩
    · exact fun hs => ⟨owns.stopping.trans hs, owns.calls, owns.listening⟩
    · exact fun hr hs => (hr (owns.stopping.symm.trans hs)).shift (owns.stopping.symm.trans hs) (.keeps owns)
  | stops =>
    refine ⟨fun hs => (started_stop e).trans hs, length_process_stop e, ?_, ?_⟩
    · exact fun hs => ⟨stopping_stop e, by rw [stop_of_stopping hs], by rw [stop_of_stopping hs]⟩
    · intro hr _
      rcases hs : e.stopping with _ | _
      · exact hasReleased_stop hs
      · rw [stop_of_stopping hs]
        exact hr hs
  | looks =>
    exact ⟨id, hlength _ _, fun hs => ⟨hs, rfl, rfl⟩, fun hr hs => (hr hs).shift hs (.looks e)⟩
  | exits code =>
    exact ⟨id, hlength _ _, fun hs => ⟨hs, rfl, rfl⟩, fun hr hs => (hr hs).shift hs (.exits e code)⟩

theorem Stays.trans {e'' : Engine} (h : e.Stays e') (h' : e'.Stays e'') : e.Stays e'' where
  started := h'.started ∘ h.started
  process := h'.process.trans h.process
  stopping hs := by
    obtain ⟨hs', hcalls, hlistening⟩ := h.stopping hs
    obtain ⟨hs'', hcalls', hlistening'⟩ := h'.stopping hs'
    exact ⟨hs'', hcalls'.trans hcalls, hlistening'.trans hlistening⟩
  released hr := h'.released (h.released hr)

theorem stays_of_shifts (h : ReflTransGen Shift e e') : e.Stays e' := by
  induction h with
  | refl => exact ⟨id, rfl, fun hs => ⟨hs, rfl, rfl⟩, id⟩
  | tail _ hshift ih => exact ih.trans hshift.stays

end Engine

namespace Reader
variable {r : Reader}
open Engine

theorem shifts_stopIf (r : Reader) (stops : Bool) : ReflTransGen Shift r.engine (r.stopIf stops).engine := by
  cases stops with
  | false => exact .refl
  | true => exact .single (.stops _)

theorem ownsAs_accept (r : Reader) (received : Received) : r.engine.OwnsAs (r.accept received).1.engine := by
  unfold accept closeByFault closeUnusable close take enqueue Engine.enqueue
  repeat' split
  all_goals exact ⟨rfl, rfl, rfl, rfl, rfl, rfl⟩

theorem shifts_attempt (r : Reader) (receipt : Receipt) :
    ReflTransGen Shift r.engine (r.attempt receipt).1.engine :=
  (shifts_stopIf r receipt.stops).tail (.keeps (ownsAs_accept
    { r.stopIf receipt.stops with attempts := (r.stopIf receipt.stops).attempts + 1 } receipt.received))

theorem shifts_look (r : Reader) (stopsWaiting : Bool) :
    ReflTransGen Shift r.engine (r.look stopsWaiting).1.engine := by
  unfold look
  split
  · exact .refl
  · have hstop := shifts_stopIf r stopsWaiting
    have hlooks := Shift.looks (r.stopIf stopsWaiting).engine
    dsimp only
    split
    · exact hstop
    · rename_i process hprocess
      rw [hprocess] at hlooks
      split
      · exact (hstop.tail hlooks).tail (.keeps ⟨rfl, rfl, rfl, rfl, rfl, rfl⟩)
      · exact hstop.tail hlooks

theorem shifts_advance (looks : Bool) (r : Reader) (receipt : Receipt) :
    ReflTransGen Shift r.engine (advance looks r receipt).1.engine := by
  cases looks with
  | false => exact shifts_attempt r receipt
  | true =>
    have hlook := shifts_look r receipt.stopsWaiting
    simp only [advance, if_true]
    split
    · rename_i r' heq
      rw [heq] at hlook
      exact hlook
    · rename_i r' heq
      rw [heq] at hlook
      exact hlook.trans (shifts_attempt r' receipt)

end Reader

namespace Session
variable {s : Session}
open Engine

theorem shifts_settle {e : Engine} (h : ReflTransGen Shift e s.engine) :
    ReflTransGen Shift e s.settle.engine ∧ s.settle.site.launched = s.site.launched := by
  unfold settle
  split
  · exact ⟨h.trans (shifts_runFor _ _), rfl⟩
  · exact ⟨h, rfl⟩

/-- Once a start has begun, no deed brings anything new. -/
theorem shifts_after (h : s.engine.started = true) (deed : Deed) :
    ReflTransGen Shift s.engine (s.after deed).engine ∧ (s.after deed).site.launched = s.site.launched := by
  cases deed with
  | start machine =>
    rw [after, start_again h]
    exact ⟨.refl, rfl⟩
  | stop => exact ⟨.single (.stops _), rfl⟩
  | request operation payload =>
    simp only [after, request]
    split
    · exact ⟨.refl, rfl⟩
    · exact shifts_settle (.single (.keeps ⟨rfl, rfl, rfl, rfl, rfl, rfl⟩))
  | loop steps =>
    simp only [after]
    split
    · exact ⟨shifts_runFor _ _, rfl⟩
    · exact ⟨.refl, rfl⟩
  | receive receipt =>
    simp only [after, receive]
    split
    · exact shifts_settle (Reader.shifts_advance s.looks ⟨s.engine, s.unfinished, 0⟩ receipt)
    · exact ⟨.refl, rfl⟩
  | exit code => exact ⟨.single (.exits _ code), rfl⟩

theorem shifts_afterAll (h : s.engine.started = true) (deeds : List Deed) :
    ReflTransGen Shift s.engine (s.afterAll deeds).engine ∧ (s.afterAll deeds).site.launched = s.site.launched := by
  induction deeds generalizing s with
  | nil => exact ⟨.refl, rfl⟩
  | cons deed deeds ih =>
    obtain ⟨hfirst, hlaunched⟩ := shifts_after h deed
    obtain ⟨hlater, hlaunched'⟩ := ih ((stays_of_shifts hfirst).started h)
    exact ⟨hfirst.trans hlater, hlaunched'.trans hlaunched⟩

end Session

/-! ### Which comes first -/

/-- Nothing is left of what the engine owned, and it owned each process that was launched. -/
structure Site.Released (s : Site) : Prop where
  owned : s.launched.length = s.engine.process.toList.length
  engine : s.engine.HasReleased

namespace Session
variable {s : Session}
open Engine

/-- Of all starts and stops a stop comes first. -/
def StopsFirst : List Deed → Prop
  | [] | .start _ :: _ => False
  | .stop :: _ => True
  | _ :: deeds => StopsFirst deeds

theorem Deed.eq_start_or_stop_or (deed : Deed) : (∃ machine, deed = .start machine) ∨ deed = .stop ∨
    (∀ machine, deed ≠ .start machine) ∧ deed ≠ .stop := by
  cases deed with
  | start machine => exact .inl ⟨machine, rfl⟩
  | stop => exact .inr (.inl rfl)
  | _ => exact .inr (.inr ⟨fun _ => Deed.noConfusion, Deed.noConfusion⟩)

theorem stopsFirst_cons {deed : Deed} {deeds : List Deed} (hstart : ∀ machine, deed ≠ .start machine)
    (hstop : deed ≠ .stop) : StopsFirst (deed :: deeds) ↔ StopsFirst deeds := by
  cases deed with
  | start machine => exact absurd rfl (hstart machine)
  | stop => exact absurd rfl hstop
  | _ => exact Iff.rfl

/-- A session whose engine has nothing yet. -/
structure Bare (s : Session) : Prop where
  started : s.engine.started = false
  process : s.engine.process = none
  looping : s.looping = false
  reading : s.reading = false

/-- Nothing but a start or a stop changes it. -/
theorem Bare.after (h : s.Bare) {deed : Deed} (hstart : ∀ machine, deed ≠ .start machine) (hstop : deed ≠ .stop) :
    s.after deed = s := by
  cases deed with
  | start machine => exact absurd rfl (hstart machine)
  | stop => exact absurd rfl hstop
  | request operation payload => simp [Session.after, request, h.started]
  | loop steps => simp [Session.after, h.looping]
  | receive receipt => simp [Session.after, receive, h.reading]
  | exit code =>
    have hprocess := h.process
    obtain ⟨⟨options, engine, environment, launched⟩, unfinished, looks, reading, looping, requests, ids⟩ := s
    simp only [Session.engine] at hprocess
    simp only [Session.after, withEngine, Session.engine, hprocess, Option.map_none]
    rw [← hprocess]

/-- What there is after a start stays, whatever comes next. -/
theorem stays_of_start (site : Site) (ids : Nat → Text) (machine : Machine) (deeds : List Deed) :
    ∃ result site', site.Starts machine result site' ∧
      site'.engine.Stays (afterAll (idle site ids) (.start machine :: deeds)).engine ∧
      (afterAll (idle site ids) (.start machine :: deeds)).site.launched = site'.launched := by
  rcases hstart : site.start machine with ⟨result, site'⟩
  have hstarts := Site.starts_of_start hstart
  refine ⟨result, site', hstarts, ?_⟩
  have hbegun : ReflTransGen Shift site'.engine ((idle site ids).after (.start machine)).engine ∧
      ((idle site ids).after (.start machine)).site.launched = site'.launched := by
    rcases result with failure | _
    · simp only [after, start, idle, hstart]
      exact ⟨.refl, trivial⟩
    · simp only [after, start, idle, hstart]
      exact shifts_settle .refl
  obtain ⟨hfirst, hlaunched⟩ := hbegun
  obtain ⟨hlater, hlaunched'⟩ := shifts_afterAll ((stays_of_shifts hfirst).started hstarts.started) deeds
  exact ⟨stays_of_shifts (hfirst.trans hlater), hlaunched'.trans hlaunched⟩

/-- Where the first start finds the engine as it was made, all is released as soon as the engine is stopped. -/
theorem released_of_start {site : Site} {ids : Nat → Text} {machine : Machine} {deeds : List Deed}
    (hnew : site.engine = .new) (hlaunched : site.launched = [])
    (hstopping : (afterAll (idle site ids) (.start machine :: deeds)).engine.stopping = true) :
    (afterAll (idle site ids) (.start machine :: deeds)).site.Released := by
  obtain ⟨result, site', hstarts, hstays, hkept⟩ := stays_of_start site ids machine deeds
  have hprocess : site.engine.process = none := by rw [hnew]; rfl
  have hconnection : site.engine.connection = none := by rw [hnew]; rfl
  have hlive : site.begun.stopping = false := by rw [Site.begun, hnew]; rfl
  -- Nothing that is done later brings anything new, so it is enough to look at the start.
  suffices h : site'.launched.length = site'.engine.process.toList.length ∧
      (site'.engine.stopping = true → site'.engine.HasReleased) by
    refine ⟨?_, hstays.released h.2 hstopping⟩
    rw [hkept, h.1]
    exact hstays.process.symm
  cases hstarts with
  | again started => rw [hnew] at started; cases started
  | unprepared | unheard | misnamed =>
    refine ⟨by simp [Site.begun, hlaunched, hprocess], fun hs => ?_⟩
    rw [hlive] at hs
    cases hs
  | unlaunched prepares =>
    exact ⟨by simp [Site.begun, hlaunched, hprocess], fun _ =>
      ⟨by simp [Site.begun, hprocess], by simp [Site.begun, hconnection], rfl⟩⟩
  | unconnected worker prepares =>
    refine ⟨?_, fun _ => Engine.hasReleased_stop hlive⟩
    rw [Engine.length_process_stop]
    simp [hlaunched]
  | connected worker prepares =>
    refine ⟨by simp [hlaunched], fun hs => ?_⟩
    rw [hlive] at hs
    cases hs

/-- What the engine owns that was stopped too early: it never touches what its start brings. Only where the program can
    be named does a start without a process close the socket again. -/
structure Stranded (program : Text) (s : Site) : Prop where
  calls : s.engine.calls = []
  listening : s.launched ≠ [] → s.engine.listening = true
  unheard : program.nameFault? = none → s.launched = [] → s.engine.listening = false
  released : s.launched = [] → s.engine.listening = false → s.Released

theorem stranded_of_start {site : Site} {ids : Nat → Text} {machine : Machine} {deeds : List Deed}
    (hstopped : site.engine = Engine.new.stop) (hlaunched : site.launched = []) :
    Stranded site.options.program (afterAll (idle site ids) (.start machine :: deeds)).site := by
  obtain ⟨result, site', hstarts, hstays, hkept⟩ := stays_of_start site ids machine deeds
  suffices h : site'.engine.stopping = true ∧ Stranded site.options.program site' by
    obtain ⟨hstopping, hcalls, hlistening⟩ := hstays.stopping h.1
    refine ⟨hcalls.trans h.2.calls, fun hne => hlistening.trans (h.2.listening (hkept ▸ hne)),
      fun hname hnil => hlistening.trans (h.2.unheard hname (hkept ▸ hnil)), fun hnil hclosed => ?_⟩
    have hreleased := h.2.released (hkept ▸ hnil) (hlistening ▸ hclosed)
    refine ⟨?_, hstays.released (fun _ => hreleased.engine) hstopping⟩
    rw [hkept, hreleased.owned]
    exact hstays.process.symm
  have hbegun : site.begun = { Engine.new.stop with started := true } := by rw [Site.begun, hstopped]
  have hnothing : HasReleased { Engine.new.stop with started := true } :=
    let h := hasReleased_stop (e := .new) rfl
    ⟨h.process, h.connection, h.listening⟩
  cases hstarts with
  | again started => rw [hstopped] at started; cases started
  | unprepared | unheard | unlaunched =>
    rw [hbegun]
    exact ⟨rfl, rfl, fun hne => absurd hlaunched hne, fun _ _ => rfl, fun _ _ => ⟨by rw [hlaunched]; rfl, hnothing⟩⟩
  | misnamed _ program =>
    rw [hbegun]
    exact ⟨rfl, rfl, fun _ => rfl, fun hname _ => (Option.some_ne_none _ (program.symm.trans hname)).elim,
      fun _ hclosed => (Bool.noConfusion hclosed)⟩
  | unconnected | connected =>
    rw [hbegun]
    exact ⟨rfl, rfl, fun _ => rfl, fun _ hnil => absurd hnil (by simp), fun hnil _ => absurd hnil (by simp)⟩

/-- The same where the engine was stopped, and perhaps never started. -/
theorem stranded_of_stop {site : Site} {ids : Nat → Text} (hstopped : site.engine = Engine.new.stop)
    (hlaunched : site.launched = []) (deeds : List Deed) :
    Stranded site.options.program ((idle site ids).afterAll deeds).site := by
  obtain ⟨options, engine, environment, launched⟩ := site
  obtain rfl : engine = Engine.new.stop := hstopped
  obtain rfl : launched = [] := hlaunched
  have hbare : (idle ⟨options, Engine.new.stop, environment, []⟩ ids).Bare := ⟨rfl, rfl, rfl, rfl⟩
  induction deeds with
  | nil => exact ⟨rfl, fun hne => absurd rfl hne, fun _ _ => rfl, fun _ _ => ⟨rfl, hasReleased_stop (e := .new) rfl⟩⟩
  | cons deed deeds ih =>
    rcases Deed.eq_start_or_stop_or deed with ⟨machine, rfl⟩ | rfl | ⟨hstart, hstop⟩
    · exact stranded_of_start rfl rfl
    · exact ih
    · rw [afterAll_cons, hbare.after hstart hstop]
      exact ih

/-- An engine that is stopped has released whatever it owned, exactly where it launched no process and has no socket open,
    or the first start came before the first stop. Without a process there is no socket either, if the program can be
    named. Where a stop comes first, nothing is ever asked of a process that is launched, and the socket it was to
    connect to stays open. -/
theorem released_iff_not_stopsFirst {site : Site} {ids : Nat → Text} {deeds : List Deed} (hnew : site.engine = .new)
    (hlaunched : site.launched = []) (hstopping : ((idle site ids).afterAll deeds).engine.stopping = true) :
    (((idle site ids).afterAll deeds).site.Released ↔
      ((idle site ids).afterAll deeds).site.launched = [] ∧ ((idle site ids).afterAll deeds).engine.listening = false ∨
        ¬ StopsFirst deeds) ∧
    (site.options.program.nameFault? = none →
      (((idle site ids).afterAll deeds).site.Released ↔
        ((idle site ids).afterAll deeds).site.launched = [] ∨ ¬ StopsFirst deeds)) ∧
    (StopsFirst deeds → ((idle site ids).afterAll deeds).engine.calls = [] ∧
      (((idle site ids).afterAll deeds).site.launched ≠ [] →
        ((idle site ids).afterAll deeds).engine.listening = true)) := by
  have hbare : (idle site ids).Bare := by constructor <;> simp [idle, engine, hnew, Engine.new]
  induction deeds with
  | nil =>
    rw [show ((idle site ids).afterAll []).engine.stopping = site.engine.stopping from rfl, hnew] at hstopping
    cases hstopping
  | cons deed deeds ih =>
    rcases Deed.eq_start_or_stop_or deed with ⟨machine, rfl⟩ | rfl | ⟨hstart, hstop⟩
    · have hreleased := released_of_start hnew hlaunched hstopping
      exact ⟨iff_of_true hreleased (.inr id), fun _ => iff_of_true hreleased (.inr id), False.elim⟩
    · -- The stop finds nothing to release, and no later one does anything.
      have hstopped : ({ site with engine := site.engine.stop } : Site).engine = Engine.new.stop := congrArg stop hnew
      have hstranded : Stranded site.options.program ((idle site ids).afterAll (.stop :: deeds)).site :=
        stranded_of_stop hstopped hlaunched deeds
      have hnone (hreleased : ((idle site ids).afterAll (.stop :: deeds)).site.Released) :
          ((idle site ids).afterAll (.stop :: deeds)).site.launched = [] := by
        by_contra hne
        have hopen := hstranded.listening hne
        rw [hreleased.engine.listening] at hopen
        cases hopen
      refine ⟨⟨fun hreleased => .inl ⟨hnone hreleased, hreleased.engine.listening⟩, fun h => ?_⟩, fun hname =>
        ⟨fun hreleased => .inl (hnone hreleased), fun h => ?_⟩, fun _ => ⟨hstranded.calls, hstranded.listening⟩⟩
      · obtain ⟨hnil, hclosed⟩ := h.resolve_right (not_not_intro trivial)
        exact hstranded.released hnil hclosed
      · have hnil := h.resolve_right (not_not_intro trivial)
        exact hstranded.released hnil (hstranded.unheard hname hnil)
    · rw [afterAll_cons, hbare.after hstart hstop] at hstopping ⊢
      rw [stopsFirst_cons hstart hstop]
      exact ih hstopping

/-! A start and a stop, and the same two the other way round: the second time the process goes on and its connection
    stays open. -/

/-- A machine on which the process connects at once. -/
def connecting : Machine := ⟨.ok 1024, .ok ⟨[none], false⟩, .connects 0⟩

theorem started_then_stopped : ((idle prepared .ofNat).afterAll [.start connecting, .stop]).engine.stopping = true ∧
    ((idle prepared .ofNat).afterAll [.start connecting, .stop]).site.Released ∧
    ((idle prepared .ofNat).afterAll [.start connecting, .stop]).site.launched.length = 1 :=
  ⟨rfl, (released_iff_not_stopsFirst rfl rfl rfl).1.mpr (.inr id), rfl⟩

theorem stopped_then_started : ∃ s : Session, s = (idle prepared .ofNat).afterAll [.stop, .start connecting] ∧
    s.engine.stopping = true ∧ s.site.launched.length = 1 ∧ s.engine.calls = [] ∧
    s.engine.process = some ⟨[none], false⟩ ∧ s.engine.connection.map Connection.isOpen = some true ∧
    ¬ s.site.Released := by
  refine ⟨_, rfl, rfl, rfl, rfl, rfl, rfl, fun hreleased => ?_⟩
  have hopen : true = false := hreleased.engine.listening
  cases hopen

end Session
end ScriptLink
