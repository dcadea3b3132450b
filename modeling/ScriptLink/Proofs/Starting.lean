import ScriptLink.Proofs.LoopOutcome
import ScriptLink.Session

/-! # What a start leaves behind

    A start goes from step to step and fails at the first that does not go through; `Starts` has a case for each of
    them. No thread serves an engine whose start failed, so whoever uses it must be turned away. Main statement: an
    engine turns everybody away after a failed start, and the failure is one of the engine, exactly where the start came
    as far as the launch of a program that can be named, or where the engine had been stopped before. -/

namespace ScriptLink

theorem Engine.started_stop (e : Engine) : e.stop.started = e.started := by
  simp only [stop, endProcess, closeConnection, enqueue, logged, called]
  repeat' split
  all_goals rfl

namespace Site
variable {machine : Machine} {s s' : Site} {result : Except Failure Unit}

/-- A start comes as far as the program: it is the first one, and there are a directory and a socket. -/
structure Prepares (machine : Machine) (s : Site) (directory : Path) (environment : Environment) (socket : Nat) :
    Prop where
  first : s.engine.started = false
  create : s.environment.create = (.ok directory, environment)
  listen : machine.listen = .ok socket

/-- The engine whose start has begun. -/
def begun (s : Site) : Engine := { s.engine with started := true }

/-- The steps at which a start can end. -/
inductive Starts (machine : Machine) (s : Site) : Except Failure Unit → Site → Prop
  | again (started : s.engine.started = true) : Starts machine s (.error alreadyStarted) s
  | unprepared {failure : Failure} {environment : Environment} (first : s.engine.started = false)
      (create : s.environment.create = (.error failure, environment)) :
      Starts machine s (.error failure) { s with engine := s.begun, environment := environment }
  | unheard {fault : SystemFault} {directory : Path} {environment : Environment} (first : s.engine.started = false)
      (create : s.environment.create = (.ok directory, environment)) (listen : machine.listen = .error fault) :
      Starts machine s (.error (.system fault)) { s with engine := s.begun, environment := environment }
  | misnamed {fault : NameFault} {directory : Path} {environment : Environment} {socket : Nat}
      (prepares : s.Prepares machine directory environment socket)
      (program : s.options.program.nameFault? = some fault) :
      Starts machine s (.error (.program fault))
        { s with engine := { s.begun with listening := true }, environment := environment }
  | unlaunched {words : Text} {directory : Path} {environment : Environment} {socket : Nat}
      (prepares : s.Prepares machine directory environment socket) (program : s.options.program.nameFault? = none) :
      Starts machine s (.error (.engine words))
        { s with engine := { s.begun with listening := false, stopping := true }, environment := environment }
  | unconnected {words : Text} {directory : Path} {environment : Environment} {socket : Nat} (worker : Worker)
      (prepares : s.Prepares machine directory environment socket) (program : s.options.program.nameFault? = none) :
      Starts machine s (.error (.engine words))
        { s with
          engine := Engine.stop { s.begun with listening := true, process := some worker }
          environment := environment
          launched := s.launched ++ [s.command directory socket] }
  | connected {directory : Path} {environment : Environment} {socket : Nat} (worker : Worker)
      (prepares : s.Prepares machine directory environment socket) :
      Starts machine s (.ok ())
        { s with
          engine := { s.begun with listening := true, process := some worker, connection := some ⟨true, [], []⟩ }
          environment := environment
          launched := s.launched ++ [s.command directory socket] }

theorem starts_of_start (h : s.start machine = (result, s')) : s.Starts machine result s' := by
  rcases hstarted : s.engine.started with _ | _
  · simp only [start, hstarted, Bool.false_eq_true, if_false] at h
    rcases hcreate : s.environment.create with ⟨failure | directory, environment⟩
    · simp only [hcreate] at h
      obtain ⟨rfl, rfl⟩ := Prod.mk.inj h
      exact .unprepared hstarted hcreate
    rcases hlisten : machine.listen with fault | socket
    · simp only [hcreate, hlisten] at h
      obtain ⟨rfl, rfl⟩ := Prod.mk.inj h
      exact .unheard hstarted hcreate hlisten
    have hprepares : s.Prepares machine directory environment socket := ⟨hstarted, hcreate, hlisten⟩
    simp only [hcreate, hlisten, launch] at h
    rcases hname : s.options.program.nameFault? with _ | fault
    swap
    · simp only [hname] at h
      obtain ⟨rfl, rfl⟩ := Prod.mk.inj h
      exact .misnamed hprepares hname
    simp only [hname] at h
    rcases hlaunch : machine.launch with fault | worker
    · simp only [hlaunch] at h
      obtain ⟨rfl, rfl⟩ := Prod.mk.inj h
      exact .unlaunched hprepares hname
    rcases hawait : worker.await s.options.timeout machine.arrival with ⟨worker, _ | reason⟩
    · simp only [hlaunch, hawait] at h
      obtain ⟨rfl, rfl⟩ := Prod.mk.inj h
      exact .connected worker hprepares
    · simp only [hlaunch, hawait] at h
      obtain ⟨rfl, rfl⟩ := Prod.mk.inj h
      exact .unconnected worker hprepares hname
  · simp only [start, hstarted, if_true] at h
    obtain ⟨rfl, rfl⟩ := Prod.mk.inj h
    exact .again hstarted

/-- Whatever comes of it, a start has begun. -/
theorem Starts.started (h : s.Starts machine result s') : s'.engine.started = true := by
  cases h with
  | again started => exact started
  | unconnected worker => exact Engine.started_stop _
  | _ => rfl

/-- Nor does it complete anything. -/
theorem Starts.completed (h : s.Starts machine result s') : s'.engine.completed = s.engine.completed := by
  cases h with
  | unconnected worker => exact (Engine.stop_frame _).2.2.1
  | _ => rfl

/-- There are a directory and a socket, and the program can be named, so that a first start comes as far as the launch
    of the process. -/
def ReachesLaunch (machine : Machine) (s : Site) : Prop :=
  (∃ directory, s.environment.create.1 = .ok directory) ∧ (∃ socket, machine.listen = .ok socket) ∧
    s.options.program.nameFault? = none

theorem Prepares.reachesLaunch {directory : Path} {environment : Environment} {socket : Nat}
    (h : s.Prepares machine directory environment socket) (program : s.options.program.nameFault? = none) :
    s.ReachesLaunch machine :=
  ⟨⟨directory, congrArg Prod.fst h.create⟩, ⟨socket, h.listen⟩, program⟩

/-- A first start that fails stops the engine and says that it was the engine if it fails at the process; before that
    it does neither. -/
theorem Starts.fails {failure : Failure} (h : s.Starts machine (.error failure) s') (first : s.engine.started = false) :
    s.ReachesLaunch machine ∧ s'.engine.stopping = true ∧ (∃ words, failure = .engine words) ∨
      ¬ s.ReachesLaunch machine ∧ s'.engine.stopping = s.engine.stopping := by
  cases h with
  | again started => rw [first] at started; cases started
  | unprepared _ create =>
    right
    refine ⟨?_, rfl⟩
    rintro ⟨⟨directory, hdirectory⟩, -⟩
    rw [create] at hdirectory
    cases hdirectory
  | unheard _ _ listen =>
    right
    refine ⟨?_, rfl⟩
    rintro ⟨-, ⟨socket, hsocket⟩, -⟩
    rw [listen] at hsocket
    cases hsocket
  | misnamed _ program =>
    right
    refine ⟨?_, rfl⟩
    rintro ⟨-, -, hnone⟩
    rw [program] at hnone
    cases hnone
  | unlaunched prepares program => exact .inl ⟨prepares.reachesLaunch program, rfl, _, rfl⟩
  | unconnected worker prepares program => exact .inl ⟨prepares.reachesLaunch program, Engine.stopping_stop _, _, rfl⟩

end Site

/-- The engine was never started, and perhaps stopped. -/
def Engine.Untried (e : Engine) : Prop :=
  e = .new ∨ e = Engine.new.stop

namespace Session
variable {s : Session}

/-- What somebody does with an engine, or happens to it. -/
inductive Deed where
  | start (machine : Machine)
  | stop
  | request (operation payload : Host.Value)
  /-- The event loop handles at most so many events. -/
  | loop (steps : Nat)
  | receive (receipt : Receipt)
  /-- The process ends by itself. -/
  | exit (code : Int)

/-- The session after one of these. -/
def after (s : Session) : Deed → Session
  | .start machine => (s.start machine).2
  | .stop => s.withEngine s.engine.stop
  | .request operation payload => (s.request operation payload).2
  | .loop steps =>
    if s.looping then { s.withEngine (s.engine.runFor steps).1 with looping := (s.engine.runFor steps).2 = .waiting }
    else s
  | .receive receipt => s.receive receipt
  | .exit code =>
    s.withEngine { s.engine with process := s.engine.process.map fun process => { process with looks := [some code] } }

/-- The session after some of them. -/
def afterAll (s : Session) (deeds : List Deed) : Session :=
  deeds.foldl after s

theorem afterAll_cons (s : Session) (deed : Deed) (deeds : List Deed) :
    s.afterAll (deed :: deeds) = (s.after deed).afterAll deeds := rfl

theorem afterAll_close (s : Session) :
    s.afterAll [.stop, .loop s.engine.stop.stepsLeft, .receive silence] = s.close := rfl

/-- Whatever happens while a caller waits comes about by such deeds. -/
theorem exists_afterAll_happen (s : Session) (happening : Happening) :
    ∃ deeds, s.afterAll deeds = s.happen happening := by
  cases happening with
  | written bytes =>
    cases bytes with
    | nil => exact ⟨[], rfl⟩
    | cons b bytes => exact ⟨[.receive ⟨false, false, .data (b :: bytes)⟩, .receive silence], rfl⟩
  | exited code => exact ⟨[.exit code, .receive silence], rfl⟩
  | disconnected => exact ⟨[.receive ⟨false, false, .ended⟩], rfl⟩
  | closedMeanwhile => exact ⟨_, s.afterAll_close⟩

/-- The engine counts as stopped, and a request is turned away at once. -/
structure TurnsAway (s : Session) : Prop where
  closed : s.closed = true
  request : ∀ operation payload, s.request operation payload = (.error (.closed (.ofString "engine is not running")), s)

/-- An engine is started once. -/
theorem start_again (h : s.engine.started = true) (machine : Machine) :
    s.start machine = (.error Site.alreadyStarted, s) := by
  have hstarted : s.site.engine.started = true := h
  simp only [start, Site.start, hstarted, if_true]

/-- A session whose engine was started, but that no thread serves. -/
structure Unserved (s : Session) : Prop where
  started : s.engine.started = true
  looping : s.looping = false
  reading : s.reading = false

namespace Unserved

theorem settle (h : s.Unserved) : s.settle = s := by
  simp [Session.settle, h.looping]

theorem receive (h : s.Unserved) (receipt : Receipt) : s.receive receipt = s := by
  simp [Session.receive, h.reading]

/-- The same with another engine that was started. -/
theorem withEngine (h : s.Unserved) {e : Engine} (started : e.started = true) : (s.withEngine e).Unserved :=
  ⟨started, h.looping, h.reading⟩

/-- What nobody serves stays so: nothing ends a request, and a stop is not taken back. -/
theorem after (h : s.Unserved) (deed : Deed) : (s.after deed).Unserved ∧
    (s.after deed).engine.completed = s.engine.completed ∧
    (s.engine.stopping = true → (s.after deed).engine.stopping = true) := by
  cases deed with
  | start machine =>
    rw [Session.after, start_again h.started]
    exact ⟨h, rfl, id⟩
  | stop =>
    exact ⟨h.withEngine ((Engine.started_stop _).trans h.started), (Engine.stop_frame _).2.2.1,
      fun _ => Engine.stopping_stop _⟩
  | request operation payload =>
    simp only [Session.after, request]
    split
    · exact ⟨h, rfl, id⟩
    · have hasked : Unserved { s.withEngine (s.engine.enqueue
          (.request ⟨s.requests, s.ids s.requests, operation, payload⟩)) with requests := s.requests + 1 } :=
        ⟨h.started, h.looping, h.reading⟩
      rw [hasked.settle]
      exact ⟨hasked, rfl, id⟩
  | loop steps =>
    have hloop : s.after (.loop steps) = s := by simp [Session.after, h.looping]
    rw [hloop]
    exact ⟨h, rfl, id⟩
  | receive receipt =>
    rw [Session.after, h.receive]
    exact ⟨h, rfl, id⟩
  | exit code => exact ⟨h.withEngine h.started, rfl, id⟩

theorem afterAll (h : s.Unserved) (deeds : List Deed) : (s.afterAll deeds).Unserved ∧
    (s.afterAll deeds).engine.completed = s.engine.completed ∧
    (s.engine.stopping = true → (s.afterAll deeds).engine.stopping = true) := by
  induction deeds generalizing s with
  | nil => exact ⟨h, rfl, id⟩
  | cons deed deeds ih =>
    obtain ⟨hserved, hcompleted, hstopping⟩ := h.after deed
    obtain ⟨hserved', hcompleted', hstopping'⟩ := ih hserved
    exact ⟨hserved', hcompleted'.trans hcompleted, hstopping' ∘ hstopping⟩

/-- A request that is not turned away is never ended. -/
theorem request_waits (h : s.Unserved) (hlive : s.engine.stopping = false) (hcompleted : s.engine.completed = [])
    (operation payload : Host.Value) : ∃ asked, s.request operation payload = (.ok s.requests, asked) ∧
      ∀ deeds, (asked.afterAll deeds).engine.outcome? s.requests = none := by
  obtain ⟨hasked, hends, -⟩ := h.after (.request operation payload)
  refine ⟨s.after (.request operation payload), ?_, fun deeds => ?_⟩
  · simp [Session.after, request, hlive, h.started]
  · have hnone := (hasked.afterAll deeds).2.1.trans (hends.trans hcompleted)
    rw [Engine.outcome?, hnone]
    rfl

theorem turnsAway_iff (h : s.Unserved) : s.TurnsAway ↔ s.engine.stopping = true := by
  constructor
  · rintro ⟨-, hrequest⟩
    by_contra hlive
    have haccepted := hrequest (.scalar .none) (.scalar .none)
    simp [request, hlive, h.started] at haccepted
  · intro hstopping
    exact ⟨by simp [closed, Engine.stopped, hstopping], fun operation payload => by simp [request, hstopping]⟩

end Unserved

/-- A failed start. The failure is one of the engine, and the engine turns everybody away whatever is done from then on,
    exactly where the start came as far as the launch, or where the engine had been stopped before and the failure is
    one of the engine. Elsewhere a request is taken, and nothing that may be done ever ends it. -/
theorem turnsAway_after_failed_start_iff {machine : Machine} {site : Site} {ids : Nat → Text} {failure : Failure}
    (huntried : site.engine.Untried) (hfails : (idle site ids).start machine = (.error failure, s)) :
    (((∃ words, failure = .engine words) ∧ ∀ deeds, (s.afterAll deeds).TurnsAway) ↔
      site.ReachesLaunch machine ∨ site.engine.stopping = true ∧ ∃ words, failure = .engine words) ∧
    (¬ site.ReachesLaunch machine → site.engine.stopping = false → ∀ operation payload : Host.Value,
      ∃ asked, s.request operation payload = (.ok s.requests, asked) ∧
        ∀ deeds, (asked.afterAll deeds).engine.outcome? s.requests = none) := by
  rcases hstart : site.start machine with ⟨failed | _, site'⟩
  · simp only [start, idle, hstart, Prod.mk.injEq, Except.error.injEq] at hfails
    obtain ⟨rfl, rfl⟩ := hfails
    have hstarts := Site.starts_of_start hstart
    have hserved : Unserved ⟨site', [], true, false, false, 0, ids⟩ := ⟨hstarts.started, rfl, rfl⟩
    obtain ⟨hfirst, hcompleted⟩ : site.engine.started = false ∧ site.engine.completed = [] := by
      rcases huntried with hnew | hnew <;> rw [hnew] <;> exact ⟨rfl, rfl⟩
    have hturns : (∀ deeds, (afterAll ⟨site', [], true, false, false, 0, ids⟩ deeds).TurnsAway) ↔
        site'.engine.stopping = true := by
      constructor
      · intro hall
        exact hserved.turnsAway_iff.mp (hall [])
      · intro hstopping deeds
        obtain ⟨hafter, -, hkept⟩ := hserved.afterAll deeds
        exact hafter.turnsAway_iff.mpr (hkept hstopping)
    rw [hturns]
    rcases hstarts.fails hfirst with ⟨hreach, hstopping, hwords⟩ | ⟨hreach, hstopping⟩
    · exact ⟨⟨fun _ => .inl hreach, fun _ => ⟨hwords, hstopping⟩⟩, fun hnot => absurd hreach hnot⟩
    · rw [hstopping]
      refine ⟨⟨fun h => .inr h.symm, fun h => (h.resolve_left hreach).symm⟩, fun _ hlive operation payload => ?_⟩
      exact hserved.request_waits (hstopping.trans hlive) (hstarts.completed.trans hcompleted) operation payload
  · simp only [start, idle, hstart, Prod.mk.injEq, reduceCtorEq, false_and] at hfails

/-! A program that cannot be launched, and a machine that gives no socket. -/

/-- An engine whose directory is there. -/
def prepared : Site := ⟨.standard, .new, ⟨⟨[], []⟩, [], some [], 0⟩, []⟩

/-- A machine without the program. -/
def unlaunchable : Machine := ⟨.ok 1024, .error (.plain 2 (.ofString "No such file or directory")), .never 0⟩

theorem unlaunchable_turnsAway : ∃ words s, (idle prepared .ofNat).start unlaunchable = (.error (.engine words), s) ∧
    ∀ deeds, (s.afterAll deeds).TurnsAway := by
  have hstart : (idle prepared .ofNat).start unlaunchable = (.error _, _) := rfl
  obtain ⟨hiff, -⟩ := turnsAway_after_failed_start_iff (.inl rfl) hstart
  exact ⟨_, _, hstart, (hiff.mpr (.inl ⟨⟨[], rfl⟩, ⟨1024, rfl⟩, rfl⟩)).2⟩

/-- A machine without an address to wait at. -/
def socketless : Machine :=
  ⟨.error (.plain 99 (.ofString "Cannot assign requested address")), .error default, .never 0⟩

/-- The failure is not one of the engine, the engine does not count as stopped, and a request waits for good. -/
theorem socketless_waits : ∃ fault s asked, (idle prepared .ofNat).start socketless = (.error (.system fault), s) ∧
    s.closed = false ∧ s.request (.text (.ofString "ping")) (.scalar .none) = (.ok 0, asked) ∧
    ∀ deeds, (asked.afterAll deeds).engine.outcome? 0 = none := by
  have hserved : ((idle prepared .ofNat).start socketless).2.Unserved := ⟨rfl, rfl, rfl⟩
  obtain ⟨asked, hasked, hnever⟩ := hserved.request_waits rfl rfl (.text (.ofString "ping")) (.scalar .none)
  exact ⟨_, _, asked, rfl, rfl, hasked, hnever⟩

end Session
end ScriptLink
