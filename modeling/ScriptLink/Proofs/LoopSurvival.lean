import ScriptLink.Proofs.Showing

/-! # What the peer can do to the event loop

    The peer writes lines, callers put requests into the queue, and a finish stands behind them. Main statement: the
    loop comes to its end, with every request completed once, exactly where no line holds an answer under an id that is
    a list or an object, and none holds a value without an answer that is too deep for the log, which takes more than
    980 containers inside each other. Every other line is harmless, and the first of these ends the loop by a fault.

    The requests that an engine has to do with are in its care: completed, waiting or queued. A step of the loop moves
    them on and loses none, so at the end all of them are completed. -/

namespace ScriptLink

/-- What reaches the queue of an engine from outside: a request of a caller, or a line of the peer. -/
inductive Intake where
  | request (r : Request)
  | line (bytes : List UInt8)

/-- The event that is put into the queue, if any. -/
def Intake.event? : Intake → Option Event
  | .request r => some (.request r)
  | .line bytes => Event.ofLine? bytes

/-- The request that is put into the queue, if it is one. -/
def Intake.request? : Intake → Option Request
  | .request r => some r
  | .line _ => none

/-- A line that holds an answer under an id that is a list or an object. -/
def IsMisaddressed (line : List UInt8) : Prop :=
  ∃ content, Event.ofLine? line = some (.message (.ofJson content)) ∧ content.Misaddressed

/-- A line that holds a value without an answer, which is too deep for the log. -/
def IsUnloggable (line : List UInt8) : Prop :=
  ∃ content, Event.ofLine? line = some (.message (.ofJson content)) ∧ content.Unloggable

/-- What callers and the peer put into the queue: requests that can be written, messages whose answers can be told, and
    protocol errors. -/
inductive Event.Outer : Event → Prop
  | request {r : Request} (writable : r.Writable) : Outer (.request r)
  | message {content : Json} (tellable : content.Tellable) : Outer (.message (.ofJson content))
  | protocolError (words : Text) : Outer (.protocolError words)

theorem Event.fault?_ofLine? {line : List UInt8} {event : Event} {fault : LoopFault}
    (h : Event.ofLine? line = some event) (hfault : event.fault? = some fault) :
    (IsMisaddressed line ∧ ∃ typeName, fault = .unhashable typeName) ∨
      (IsUnloggable line ∧ ∃ reason, fault = .unshown reason) := by
  rcases Event.ofLine?_cases h with ⟨content, rfl, -⟩ | ⟨words, rfl⟩
  · exact (Event.fault?_cases hfault).imp (And.imp_left fun hbad => ⟨content, h, hbad⟩)
      (And.imp_left fun hdeep => ⟨content, h, hdeep⟩)
  · cases hfault

/-- A line whose event ends the loop. -/
theorem exists_fault_iff {line : List UInt8} :
    (∃ event fault, Event.ofLine? line = some event ∧ event.fault? = some fault) ↔
      IsMisaddressed line ∨ IsUnloggable line := by
  constructor
  · rintro ⟨event, fault, hevent, hfault⟩
    exact (Event.fault?_ofLine? hevent hfault).imp And.left And.left
  · rintro (⟨content, hevent, hbad⟩ | ⟨content, hevent, hdeep⟩)
    · obtain ⟨typeName, hfault⟩ := Event.fault?_of_misaddressed hbad
      exact ⟨_, _, hevent, hfault⟩
    · obtain ⟨reason, hfault⟩ := Event.fault?_of_unloggable hdeep
      exact ⟨_, _, hevent, hfault⟩

namespace Engine
variable {e e' : Engine} {event : Event}

/-- The requests in the queue of an engine, in order. -/
def queued (e : Engine) : List Request :=
  e.queue.filterMap Event.request?

/-- The serial numbers of the requests in an engine's care. -/
def care (e : Engine) : List Nat :=
  e.completed.map Completion.serial ++ (e.pending.map (·.2.serial) ++ e.queued.map Request.serial)

/-- The requests that wait and those that are to come have different ids. -/
def TellsApart (e : Engine) : Prop :=
  (e.pending.names ++ e.queued.map Request.id).Nodup

/-! ### One step -/

/-- The loop goes on after every event from outside that does not end it. -/
theorem handle_outer (e : Engine) (h : event.Outer) (hfault : event.fault? = none) :
    ∃ e', e.handle event = (e', .goOn) := by
  cases h with
  | request writable =>
    rename_i r
    obtain ⟨line, hline⟩ := Request.line_of_writable writable
    rcases hg : e.gone with _ | reason
    · rcases hwrite : write { e with pending := e.pending.insert r.id r } line with ⟨written, _ | fault⟩
      · exact ⟨_, dispatch_sent hg hline hwrite⟩
      · exact ⟨_, dispatch_faulted hg hline hwrite⟩
    · exact ⟨_, dispatch_gone hg⟩
  | message tellable =>
    obtain ⟨log, hlog⟩ := handle_message (e := e) hfault tellable
    exact ⟨_, hlog⟩
  | protocolError words => exact ⟨_, rfl⟩

theorem queued_congr (h : e'.queue = e.queue ∨ e'.queue = e.queue ++ [.finish]) : e'.queued = e.queued := by
  rcases h with h | h <;> simp [queued, h, Event.request?]

/-- A step that goes on keeps all requests in care, and those that are to come can still be told apart. -/
theorem care_handle {rest : List Event} (hq : e.queue = event :: rest) (hids : e.TellsApart)
    (h : handle { e with queue := rest } event = (e', .goOn)) : e'.care.Perm e.care ∧ e'.TellsApart := by
  have hqueued : e'.queued = rest.filterMap Event.request? := by
    have hqueue := queue_handle { e with queue := rest } event
    rw [h] at hqueue
    exact queued_congr (e := { e with queue := rest }) hqueue
  have hbefore : e.queued = event.request?.toList ++ rest.filterMap Event.request? := by
    rw [queued, hq, List.filterMap_cons]
    cases event.request? <;> rfl
  unfold TellsApart at hids ⊢
  unfold care
  rw [hqueued]
  rw [hbefore] at hids ⊢
  cases turns_handle h with
  | nothing brings pending completed =>
    rw [pending, completed]
    rw [brings] at hids ⊢
    exact ⟨List.Perm.refl _, hids⟩
  | failsAll failure brings pending completed =>
    rw [pending, completed]
    rw [brings] at hids ⊢
    refine ⟨?_, (List.nodup_append.mp hids).2.1⟩
    rw [List.map_append, List.map_map, List.append_assoc]
    exact List.Perm.refl _
  | @completes _ id r outcome brings found pending completed =>
    rw [pending, completed]
    rw [brings] at hids ⊢
    refine ⟨?_, hids.sublist ((List.filter_sublist.map Prod.fst).append_right _)⟩
    have hsplit := (Members.perm_cons_filter (List.nodup_append.mp hids).1 (Members.mem_of_find? found)).map
      fun entry : Text × Request => entry.2.serial
    rw [List.map_append, List.append_assoc]
    exact ((hsplit.symm.append_right _).append_left _)
  | @awaits r pending completed =>
    -- The request moves from the queue to those that wait, where its id is a new one.
    have hnew : r.id ∉ e.pending.names := fun hm =>
      (List.nodup_append.mp hids).2.2 _ hm _ List.mem_cons_self rfl
    have hinsert : e'.pending = e.pending ++ [(r.id, r)] := pending.trans (Members.insert_of_not_mem hnew)
    rw [hinsert, completed]
    refine ⟨?_, ?_⟩
    · rw [List.map_append, List.append_assoc]
      exact List.Perm.refl _
    · rw [Members.names, List.map_append, List.append_assoc]
      exact hids
  | @refuses r failure pending completed =>
    have hnew : r.id ∉ e.pending.names := fun hm =>
      (List.nodup_append.mp hids).2.2 _ hm _ List.mem_cons_self rfl
    -- It may have waited while it was being sent, but under an id of its own.
    have hpending : e'.pending = e.pending := by
      rcases pending with hp | hp
      · exact hp
      · exact hp.trans (Members.filter_ne_of_not_mem hnew)
    rw [hpending, completed]
    refine ⟨?_, hids.sublist ((List.sublist_cons_self _ _).append_left _)⟩
    simp only [Event.request?, Option.toList_some, List.map_append, List.map_cons, List.map_nil, List.append_assoc,
      List.cons_append, List.nil_append]
    exact List.perm_middle.symm.append_left _

theorem completed_drain_queued (e : Engine) : e.drain.completed =
    e.completed ++ e.queued.map fun r => ⟨r.serial, .error engineWasStopped⟩ := by
  rw [queued, List.map_filterMap]
  refine congrArg (e.completed ++ ·) (List.filterMap_congr fun event _ => ?_)
  cases event <;> rfl

/-- The step that ends the loop completes all that waits and all that is left in the queue. -/
theorem care_finish {rest : List Event} (hq : e.queue = .finish :: rest) :
    (drain (failPending { e with queue := rest } engineWasStopped)).completed.map Completion.serial = e.care := by
  have hqueued : e.queued = queued { e with queue := rest } := by
    rw [queued, hq]
    rfl
  rw [completed_drain_queued, care, hqueued, failPending]
  simp only [List.map_append, List.map_map, List.append_assoc]
  rfl

/-! ### A whole run -/

/-- Events from outside before a finish: the first of them that ends the loop by a fault decides. Where there is none,
    the loop comes to its end and has completed every request in its care. -/
theorem runFor_outer {before later : List Event} {steps : Nat} (hs : before.length < steps)
    (hq : e.queue = before ++ .finish :: later) (ho : ∀ event ∈ before, event.Outer) (hids : e.TellsApart) :
    (before.findSome? Event.fault? = none ∧ (e.runFor steps).2 = .ended ∧ (e.runFor steps).1.pending = [] ∧
        (e.runFor steps).1.queue = [] ∧ ((e.runFor steps).1.completed.map Completion.serial).Perm e.care) ∨
      ∃ fault, before.findSome? Event.fault? = some fault ∧ (e.runFor steps).2 = .raised fault := by
  -- A step leaves what is before the finish one event shorter; what it adds, it adds behind the finish.
  induction before generalizing e steps later with
  | nil =>
    obtain ⟨steps, rfl⟩ := Nat.exists_eq_add_one.mpr hs
    have hcare := care_finish hq
    simp only [List.nil_append] at hq
    simp only [runFor, hq, handle]
    exact .inl ⟨rfl, trivial, rfl, rfl, .of_eq hcare⟩
  | cons event before ih =>
    obtain ⟨steps, rfl⟩ := Nat.exists_eq_add_one.mpr (Nat.lt_of_le_of_lt (Nat.zero_le _) hs)
    simp only [List.cons_append] at hq
    simp only [runFor, hq]
    rcases hfault : event.fault? with _ | fault
    · obtain ⟨e', hhandle⟩ :=
        handle_outer { e with queue := before ++ .finish :: later } (ho event List.mem_cons_self) hfault
      obtain ⟨hcare, hids'⟩ := care_handle hq hids hhandle
      obtain ⟨later', hqueue⟩ : ∃ later', e'.queue = before ++ .finish :: later' := by
        have hqueue := queue_handle { e with queue := before ++ .finish :: later } event
        rw [hhandle] at hqueue
        rcases hqueue with hqueue | hqueue
        · exact ⟨later, hqueue⟩
        · exact ⟨later ++ [.finish], by rw [hqueue, List.append_assoc, List.cons_append]⟩
      simp only [hhandle, List.findSome?_cons, hfault]
      obtain ⟨hnone, hend, hpending, hempty, hperm⟩ | hraised := ih (Nat.lt_of_succ_lt_succ hs) hqueue
        (fun other hm => ho other (List.mem_cons_of_mem _ hm)) hids'
      · exact .inl ⟨hnone, hend, hpending, hempty, hperm.trans hcare⟩
      · exact .inr hraised
    · refine .inr ⟨fault, by rw [List.findSome?_cons, hfault], ?_⟩
      rw [handle_fault hfault]

end Engine

/-! ### Lines and requests -/

/-- An engine at work into whose queue these were put, and then a finish. Its requests are told apart by their ids and
    by their serial numbers. -/
structure Engine.TakesIn (e : Engine) (intakes : List Intake) : Prop where
  queue : e.queue = intakes.filterMap Intake.event? ++ [.finish]
  connection : e.connection.isSome
  writable : ∀ r, .request r ∈ intakes → r.Writable
  ids : e.TellsApart
  serials : e.care.Nodup

namespace Engine
variable {e : Engine} {intakes : List Intake}

theorem queued_of_intakes (h : e.queue = intakes.filterMap Intake.event? ++ [.finish]) :
    e.queued = intakes.filterMap Intake.request? := by
  have hfinish : [Event.finish].filterMap Event.request? = [] := rfl
  rw [queued, h, List.filterMap_append, hfinish, List.append_nil, List.filterMap_filterMap]
  refine List.filterMap_congr fun intake _ => ?_
  cases intake with
  | request r => rfl
  | line bytes =>
    rcases hevent : Event.ofLine? bytes with _ | event
    · simp only [Intake.event?, hevent, Option.bind_none, Intake.request?]
    · rcases Event.ofLine?_cases hevent with ⟨content, rfl, -⟩ | ⟨words, rfl⟩ <;>
        simp only [Intake.event?, hevent, Option.bind_some, Event.request?, Intake.request?]

theorem TakesIn.outer (h : e.TakesIn intakes) : ∀ event ∈ intakes.filterMap Intake.event?, event.Outer := by
  intro event hm
  obtain ⟨intake, hintake, hevent⟩ := List.mem_filterMap.mp hm
  cases intake with
  | request r =>
    obtain rfl := Option.some.inj hevent
    exact .request (h.writable r hintake)
  | line bytes =>
    rcases Event.ofLine?_cases hevent with ⟨content, rfl, htellable⟩ | ⟨words, rfl⟩
    · exact .message htellable
    · exact .protocolError words

/-- None of the events ends the loop just when no line is of one of the two kinds. -/
theorem findSome?_fault?_eq_none_iff : (intakes.filterMap Intake.event?).findSome? Event.fault? = none ↔
    ∀ line, .line line ∈ intakes → ¬ IsMisaddressed line ∧ ¬ IsUnloggable line := by
  rw [List.findSome?_eq_none_iff]
  constructor
  · intro h line hm
    rw [← not_or, ← exists_fault_iff]
    rintro ⟨event, fault, hevent, hfault⟩
    cases (h event (List.mem_filterMap.mpr ⟨_, hm, hevent⟩)).symm.trans hfault
  · intro h event hm
    obtain ⟨intake, hintake, hevent⟩ := List.mem_filterMap.mp hm
    rcases hfault : event.fault? with _ | fault
    · rfl
    · cases intake with
      | request r =>
        obtain rfl := Option.some.inj hevent
        cases hfault
      | line bytes => exact absurd (exists_fault_iff.mp ⟨event, fault, hevent, hfault⟩) (not_or.mpr (h bytes hintake))

/-- A fault stems from a line of the kind that it tells of. -/
theorem of_findSome?_fault? {fault : LoopFault}
    (h : (intakes.filterMap Intake.event?).findSome? Event.fault? = some fault) :
    (∃ typeName, fault = .unhashable typeName) ∨ ∃ line, .line line ∈ intakes ∧ IsUnloggable line := by
  obtain ⟨event, hm, hfault⟩ := List.exists_of_findSome?_eq_some h
  obtain ⟨intake, hintake, hevent⟩ := List.mem_filterMap.mp hm
  cases intake with
  | request r =>
    obtain rfl := Option.some.inj hevent
    cases hfault
  | line bytes =>
    rcases Event.fault?_ofLine? hevent hfault with ⟨-, htypeName⟩ | ⟨hdeep, -⟩
    · exact .inl htypeName
    · exact .inr ⟨bytes, hintake, hdeep⟩

/-- The loop comes to its end, with nothing waiting, nothing queued and every request completed once, exactly where
    none of the peer's lines holds an answer under an id that is a list or an object, or a value without an answer that
    is too deep for the log. Where one does, the first of them ends the loop by its fault. No value is too deep for the
    log that has 200 containers inside each other, or less. -/
theorem run_ends_iff_none_misaddressed (h : e.TakesIn intakes) :
    ((e.run.2 = .ended ∧ e.run.1.pending = [] ∧ e.run.1.queue = [] ∧
        ∀ r, .request r ∈ intakes → ∃ outcome, e.run.1.outcomesOf r = [outcome]) ↔
      ∀ line, .line line ∈ intakes → ¬ IsMisaddressed line ∧ ¬ IsUnloggable line) ∧
    (∀ fault, e.run.2 = .raised fault ↔ (intakes.filterMap Intake.event?).findSome? Event.fault? = some fault) ∧
    ((∃ line, .line line ∈ intakes ∧ IsMisaddressed line) → (∀ line, .line line ∈ intakes → ¬ IsUnloggable line) →
      ∃ typeName, e.run.2 = .raised (.unhashable typeName)) ∧
    ∀ line j, LineDerives 200 line j → ¬ IsUnloggable line := by
  have hsteps : (intakes.filterMap Intake.event?).length < e.stepsLeft := by
    rw [stepsLeft, h.queue, List.length_append, List.length_singleton]
    omega
  have hshallow (line : List UInt8) (j : Json) (hderives : LineDerives 200 line j) : ¬ IsUnloggable line := by
    rintro ⟨content, hevent, hdeep⟩
    have hsame : Host.Value.ofJson j = .ofJson content :=
      Event.message.inj (Option.some.inj ((hderives.ofLine?_eq (by decide)).symm.trans hevent))
    refine hderives.not_unloggable (by decide) ?_
    rwa [Json.Unloggable, hsame]
  rw [← findSome?_fault?_eq_none_iff]
  rcases runFor_outer hsteps h.queue h.outer h.ids with ⟨hnone, hend, hpending, hempty, hperm⟩ | ⟨fault, hsome, hraised⟩
  · refine ⟨iff_of_true ⟨hend, hpending, hempty, ?_⟩ hnone, fun fault => iff_of_false ?_ ?_, ?_, hshallow⟩
    · intro r hr
      have hserial : r.serial ∈ e.run.1.completed.map Completion.serial := by
        refine hperm.mem_iff.mpr (List.mem_append_right _ (List.mem_append_right _ (List.mem_map_of_mem ?_)))
        rw [queued_of_intakes h.queue]
        exact List.mem_filterMap.mpr ⟨_, hr, rfl⟩
      obtain ⟨completion, hcompletion, hsame⟩ := List.mem_map.mp hserial
      have honce := filter_serial (hperm.nodup_iff.mpr h.serials) hcompletion
      refine ⟨completion.outcome, ?_⟩
      rw [outcomesOf, ← hsame, run, honce]
      rfl
    · rw [run, hend]
      exact RunEnd.noConfusion
    · rw [hnone]
      exact (Option.some_ne_none _).symm
    · rintro ⟨line, hm, hbad⟩ -
      exact absurd hbad (findSome?_fault?_eq_none_iff.mp hnone line hm).1
  · have hrun : e.run.2 = .raised fault := hraised
    refine ⟨iff_of_false (fun hgood => ?_) (hsome ▸ Option.some_ne_none _), fun other => ?_, ?_, hshallow⟩
    · cases hrun.symm.trans hgood.1
    · rw [hrun, hsome, RunEnd.raised.injEq, Option.some.injEq]
    · rintro - hloggable
      rcases of_findSome?_fault? hsome with ⟨typeName, rfl⟩ | ⟨line, hm, hdeep⟩
      · exact ⟨typeName, hrun⟩
      · exact absurd hdeep (hloggable line hm)

/-! Blank lines, lines that are no text and answers to nobody do no harm, whereas an answer under an id that is a list
    leaves the request before it without an end. -/

theorem contentOn?_plainReply (n : Nat) : contentOn? (plainReply n).line = some (plainReply n) := by
  have hretold : (plainReply n).retold .float = plainReply n := by
    simp only [plainReply, Json.retold, Json.retoldMembers, (Text.IsGraphic.ofNat n).join_eq]
    rfl
  rw [contentOn?_line (by simp [plainReply, Json.Fits, Json.MembersFit, Json.nestingLimit]), hretold]

theorem ofLine?_plainReply (n : Nat) :
    Event.ofLine? (plainReply n).line = some (.message (.ofJson (plainReply n))) :=
  Event.ofLine?_of_contentOn? (contentOn?_plainReply n)

theorem reply?_plainReply (n : Nat) : (plainReply n).reply? = some (.ofNat n, .ok .none) := rfl

/-- A request and lines of several kinds, its answer among them. -/
def liveliness : List Intake :=
  [.line [0x20], .request (numbered 1), .line (plainReply 0).line, .line (plainReply 1).line, .line [0xFF]]

/-- An engine that takes these in. -/
def lively : Engine :=
  { Engine.new with
    queue := liveliness.filterMap Intake.event? ++ [.finish]
    connection := some ⟨true, [], []⟩ }

theorem lively_ends : lively.TakesIn liveliness ∧ lively.run.2 = .ended ∧ lively.run.1.pending = [] ∧
    ∃ outcome, lively.run.1.outcomesOf (numbered 1) = [outcome] := by
  have hblank : Event.ofLine? [0x20] = none := rfl
  have hnoText : Event.ofLine? [0xFF] = some (.protocolError (.ofString "Could not decode Node output")) := rfl
  have takesIn : lively.TakesIn liveliness := by
    refine ⟨rfl, rfl, ?_, ?_, ?_⟩
    · intro r hr
      obtain rfl : r = numbered 1 := by simpa [liveliness] using hr
      exact ⟨⟨_, rfl⟩, _, rfl⟩
    · rw [TellsApart, queued_of_intakes (e := lively) rfl]
      decide
    · rw [care, queued_of_intakes (e := lively) rfl]
      decide
  have hnone : ∀ line, .line line ∈ liveliness → ¬ IsMisaddressed line ∧ ¬ IsUnloggable line := by
    intro line hm
    rw [← not_or, ← exists_fault_iff]
    rintro ⟨event, fault, hevent, hfault⟩
    have hcases : line = [0x20] ∨ line = (plainReply 0).line ∨ line = (plainReply 1).line ∨ line = [0xFF] := by
      simpa [liveliness] using hm
    rcases hcases with rfl | rfl | rfl | rfl
    · cases hblank.symm.trans hevent
    · obtain rfl := Option.some.inj ((ofLine?_plainReply 0).symm.trans hevent)
      cases (Json.fault?_of_reply? (reply?_plainReply 0)).symm.trans hfault
    · obtain rfl := Option.some.inj ((ofLine?_plainReply 1).symm.trans hevent)
      cases (Json.fault?_of_reply? (reply?_plainReply 1)).symm.trans hfault
    · obtain rfl := Option.some.inj (hnoText.symm.trans hevent)
      cases hfault
  obtain ⟨hend, hpending, -, hall⟩ := (run_ends_iff_none_misaddressed takesIn).1.mpr hnone
  exact ⟨takesIn, hend, hpending, hall _ (by simp [liveliness])⟩

/-- An answer under an id that is a list. -/
def listedReply : Json :=
  .object [(.ofString "type", .text (.ofString "result")), (.ofString "event_id", .array []),
    (.ofString "payload", .object [(.ofString "result", .null)])]

/-- An engine that takes such an answer in behind a request. -/
def listed : Engine :=
  { Engine.new with
    queue := [Intake.request (numbered 1), .line listedReply.line].filterMap Intake.event? ++ [.finish]
    connection := some ⟨true, [], []⟩ }

theorem listed_raises : listed.TakesIn [.request (numbered 1), .line listedReply.line] ∧
    listedReply.line = Utf8.encode
      (.ofString "\x7b\"type\": \"result\", \"event_id\": [], \"payload\": \x7b\"result\": null\x7d\x7d") ∧
    listed.run.2 = .raised (.unhashable (.ofString "list")) ∧ listed.run.1.outcomesOf (numbered 1) = [] := by
  have hline : Event.ofLine? listedReply.line = some (.message (.ofJson listedReply)) :=
    Event.ofLine?_of_contentOn? (contentOn?_line (by
      simp [listedReply, Json.Fits, Json.ItemsFit, Json.MembersFit, Json.nestingLimit]))
  have hqueue : listed.queue = [.request (numbered 1), .message (.ofJson listedReply), .finish] := by
    simp [listed, Intake.event?, hline]
  have hlisted : listed = { listed with queue := [.request (numbered 1), .message (.ofJson listedReply), .finish] } := by
    rw [← hqueue]
  refine ⟨⟨rfl, rfl, ?_, ?_, ?_⟩, rfl, ?_, ?_⟩
  · intro r hr
    obtain rfl : r = numbered 1 := by simpa using hr
    exact ⟨⟨_, rfl⟩, _, rfl⟩
  · rw [TellsApart, queued_of_intakes (e := listed) rfl]
    decide
  · rw [care, queued_of_intakes (e := listed) rfl]
    decide
  · rw [hlisted]
    rfl
  · rw [hlisted]
    rfl

end Engine
end ScriptLink
