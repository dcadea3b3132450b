import ScriptLink.Proofs.LoopOutcome

/-! # One step of the event loop

    What handling one event does to the requests and to the connection, said once. `Turns` has a case for each thing
    that can become of the requests: those that wait, and the one that the event brings. Of the messages whose answers
    can be given, two kinds end the loop by a fault: an answer under an id that is itself a list or an object, which
    cannot be looked up, and a message without an answer that is too deep for the log. -/

namespace ScriptLink

/-! ### Messages that end the loop -/

/-- Whether a JSON value is a list or an object. -/
def Json.isContainer : Json → Bool
  | .array _ | .object _ => true
  | _ => false

/-- A message that holds an answer, under an id that is a list or an object. -/
def Json.Misaddressed (content : Json) : Prop :=
  ∃ type payload id, (content.at? "type").bind Json.text? = some type ∧ content.at? "payload" = some payload ∧
    (Json.outcomeOfType? type payload).isSome ∧ content.at? "event_id" = some id ∧ id.isContainer = true

theorem Host.Value.unhashable?_ofJson_eq_none {j : Json} :
    (Host.Value.ofJson j).unhashable? = Option.none ↔ j.isContainer = false := by
  cases j <;> simp [Host.Value.ofJson, Host.Value.unhashable?, Json.isContainer, Host.Value.float, Host.Value.text,
    Host.Value.none, Host.SequenceKind.isList]

theorem Answer.ofMessage?_eq_some {content : Json} {answer : Answer} {id : Host.Value} :
    Answer.ofMessage? (.ofJson content) = some (answer, id) ↔
      ∃ type parts j, (content.at? "type").bind Json.text? = some type ∧ content.at? "payload" = some (.object parts) ∧
        content.at? "event_id" = some j ∧ id = .ofJson j ∧
        Answer.ofPayload? type (Host.ofJsonMembers parts) = some answer := by
  cases content with
  | object members =>
    simp only [Answer.ofMessage?_object, Json.at?, Option.bind_eq_some_iff]
    constructor
    · rintro ⟨type, htype, j, hj, payload, hpayload, h⟩
      cases payload with
      | object parts =>
        obtain ⟨_, hfound, he⟩ := Option.map_eq_some_iff.mp h
        obtain ⟨rfl, rfl⟩ := Prod.mk.inj he
        exact ⟨type, parts, j, htype, hpayload, hj, rfl, hfound⟩
      | _ => cases h
    · rintro ⟨type, parts, j, htype, hpayload, hj, rfl, hfound⟩
      exact ⟨type, htype, j, hj, _, hpayload, by simp only [hfound, Option.map_some]⟩
  | _ =>
    simp only [Json.at?, Option.bind_none, reduceCtorEq, false_and, exists_false, iff_false]
    intro h
    cases h

theorem Json.misaddressed_iff {content : Json} : content.Misaddressed ↔
    ∃ answer id typeName, Answer.ofMessage? (.ofJson content) = some (answer, id) ∧ id.unhashable? = some typeName := by
  constructor
  · rintro ⟨type, payload, j, htype, hpayload, houtcome, hj, hcontainer⟩
    cases payload with
    | object parts =>
      rw [Json.outcomeOfType?_object, Option.isSome_map] at houtcome
      obtain ⟨answer, hanswer⟩ := Option.isSome_iff_exists.mp houtcome
      have hunhashable : (Host.Value.ofJson j).unhashable? ≠ none := by
        rw [Ne, Host.Value.unhashable?_ofJson_eq_none, hcontainer]
        exact Bool.noConfusion
      obtain ⟨typeName, htypeName⟩ := Option.ne_none_iff_exists'.mp hunhashable
      exact ⟨answer, _, typeName, Answer.ofMessage?_eq_some.mpr ⟨type, parts, j, htype, hpayload, hj, rfl, hanswer⟩,
        htypeName⟩
    | _ => simp [Json.outcomeOfType?, Json.at?] at houtcome
  · rintro ⟨answer, id, typeName, hmessage, htypeName⟩
    obtain ⟨type, parts, j, htype, hpayload, hj, rfl, hanswer⟩ := Answer.ofMessage?_eq_some.mp hmessage
    refine ⟨type, _, j, htype, hpayload, by simp [Json.outcomeOfType?_object, hanswer], hj, ?_⟩
    cases hc : j.isContainer
    · rw [Host.Value.unhashable?_ofJson_eq_none.mpr hc] at htypeName
      cases htypeName
    · rfl

instance (content : Json) : Decidable content.Misaddressed :=
  decidable_of_iff ((Answer.ofMessage? (.ofJson content)).any (fun found => found.2.unhashable?.isSome) = true) (by
    simp only [Json.misaddressed_iff, Option.any_eq_true, Prod.exists, Option.isSome_iff_exists, exists_and_left])

/-- A message under a plain id can be looked up. -/
theorem Json.HasPlainId.not_misaddressed {content : Json} (h : content.HasPlainId) : ¬ content.Misaddressed := by
  rintro ⟨-, -, id, -, -, -, hid, hcontainer⟩
  obtain ⟨harray, hobject⟩ := h id hid
  cases id with
  | array items => exact harray items rfl
  | object members => exact hobject members rfl
  | _ => cases hcontainer

/-- A message under a text can be looked up. -/
theorem Json.not_misaddressed_of_text {content : Json} {id : Text} (h : content.at? "event_id" = some (.text id)) :
    ¬ content.Misaddressed := by
  refine HasPlainId.not_misaddressed fun j hj => ?_
  obtain rfl := Option.some.inj (h.symm.trans hj)
  exact ⟨fun _ => Json.noConfusion, fun _ => Json.noConfusion⟩

theorem Json.at?_of_reply? {content : Json} {id : Text} {outcome : Outcome} (h : content.reply? = some (id, outcome)) :
    content.at? "event_id" = some (.text id) := by
  simp only [Json.reply?, Option.bind_eq_bind, Option.bind_eq_some_iff, Option.pure_def, Option.some.injEq,
    Prod.mk.injEq] at h
  obtain ⟨-, -, -, -, j, hj, name, hname, -, -, -, -, rfl, -⟩ := h
  cases j with
  | text t =>
    obtain rfl := Option.some.inj hname
    exact hj
  | _ => cases hname

/-- The fault by which a message ends the loop, whoever waits. -/
def Event.fault? : Event → Option LoopFault
  | .message content =>
    match Answer.ofMessage? content with
    | some (_, id) => id.unhashable?.map .unhashable
    | none => ((Event.message content).unshown?.filter Host.Unshown.exhausts).map .unshown
  | _ => none

section Faults
variable {content : Json}

theorem Event.fault?_of_misaddressed (h : content.Misaddressed) :
    ∃ typeName, (Event.message (.ofJson content)).fault? = some (.unhashable typeName) := by
  obtain ⟨answer, id, typeName, hm, hid⟩ := Json.misaddressed_iff.mp h
  exact ⟨typeName, by simp only [fault?, hm, hid, Option.map_some]⟩

theorem Event.fault?_of_unloggable (h : content.Unloggable) :
    ∃ reason, (Event.message (.ofJson content)).fault? = some (.unshown reason) := by
  obtain ⟨hm, reason, hshown, hexhausts⟩ := h
  exact ⟨reason, by simp only [fault?, hm, hshown, Option.filter_some, hexhausts, if_true, Option.map_some]⟩

/-- A message that ends the loop is one that cannot be looked up, or one that is too deep for the log. -/
theorem Event.fault?_cases {fault : LoopFault} (h : (Event.message (.ofJson content)).fault? = some fault) :
    (content.Misaddressed ∧ ∃ typeName, fault = .unhashable typeName) ∨
      (content.Unloggable ∧ ∃ reason, fault = .unshown reason) := by
  simp only [fault?] at h
  split at h
  · rename_i answer id hm
    obtain ⟨typeName, hid, rfl⟩ := Option.map_eq_some_iff.mp h
    exact .inl ⟨Json.misaddressed_iff.mpr ⟨answer, id, typeName, hm, hid⟩, typeName, rfl⟩
  · rename_i hm
    obtain ⟨reason, hfilter, rfl⟩ := Option.map_eq_some_iff.mp h
    obtain ⟨hshown, hexhausts⟩ := Option.filter_eq_some_iff.mp hfilter
    exact .inr ⟨⟨hm, reason, hshown, hexhausts⟩, reason, rfl⟩

theorem Event.fault?_eq_none_iff :
    (Event.message (.ofJson content)).fault? = none ↔ ¬ content.Misaddressed ∧ ¬ content.Unloggable := by
  constructor
  · intro h
    refine ⟨fun hbad => ?_, fun hdeep => ?_⟩
    · obtain ⟨_, hfault⟩ := fault?_of_misaddressed hbad
      cases h.symm.trans hfault
    · obtain ⟨_, hfault⟩ := fault?_of_unloggable hdeep
      cases h.symm.trans hfault
  · rintro ⟨hbad, hdeep⟩
    rcases hfault : (Event.message (.ofJson content)).fault? with _ | fault
    · rfl
    · rcases fault?_cases hfault with ⟨h, -⟩ | ⟨h, -⟩
      · exact absurd h hbad
      · exact absurd h hdeep

/-- A message with an answer under a text ends nothing. -/
theorem Json.fault?_of_reply? {id : Text} {outcome : Outcome} (h : content.reply? = some (id, outcome)) :
    (Event.message (.ofJson content)).fault? = none := by
  refine Event.fault?_eq_none_iff.mpr ⟨not_misaddressed_of_text (at?_of_reply? h), fun hdeep => ?_⟩
  rw [reply?_eq, hdeep.1] at h
  cases h

end Faults

/-- The request that an event brings. -/
def Event.request? : Event → Option Request
  | .request r => some r
  | _ => none

theorem Members.filter_ne_insert {α : Type} (members : Members α) (name : Text) (value : α) :
    (members.insert name value).filter (fun member => member.1 ≠ name) =
      members.filter fun member => member.1 ≠ name := by
  induction members with
  | nil => simp [insert]
  | cons member rest ih =>
    by_cases h : member.1 = name
    · simp [insert, h]
    · rw [insert, if_neg h, List.filter_cons_of_pos (by simpa using h), List.filter_cons_of_pos (by simpa using h), ih]

namespace Engine
variable {e e' : Engine} {event : Event}

/-- A write leaves alone everything but the connection. -/
theorem write_frame (e : Engine) (line : List UInt8) : (e.write line).1.pending = e.pending ∧
    (e.write line).1.completed = e.completed ∧ (e.write line).1.queue = e.queue ∧ (e.write line).1.gone = e.gone ∧
    (e.write line).1.connection = e.connection.map fun connection => (connection.write line).1 := by
  unfold write
  split
  · rename_i connection hc
    refine ⟨rfl, rfl, rfl, rfl, ?_⟩
    rw [hc]
    rfl
  · rename_i hc
    refine ⟨rfl, rfl, rfl, rfl, ?_⟩
    rw [hc]
    rfl

/-- What a message does to the requests that wait: the one that it answers, if it waits, is completed. -/
def heed (e : Engine) (content : Json) : Engine :=
  match content.reply? with
  | none => e
  | some (id, outcome) =>
    match e.pending.find? id with
    | some r => (e.forget id).complete r outcome
    | none => e

/-- A message leaves alone everything but the requests. -/
theorem heed_frame (e : Engine) (content : Json) : (e.heed content).queue = e.queue ∧
    (e.heed content).gone = e.gone ∧ (e.heed content).connection = e.connection := by
  unfold heed
  split
  · exact ⟨rfl, rfl, rfl⟩
  · split <;> exact ⟨rfl, rfl, rfl⟩

/-- A message that ends nothing is heeded. -/
theorem handle_message {content : Json} (h : (Event.message (.ofJson content)).fault? = none)
    (htellable : content.Tellable) :
    ∃ log, e.handle (.message (.ofJson content)) = ({ e.heed content with log := log }, .goOn) := by
  obtain ⟨hbad, hdeep⟩ := Event.fault?_eq_none_iff.mp h
  rcases hm : Answer.ofMessage? (.ofJson content) with _ | ⟨answer, id⟩
  · obtain ⟨log, hlog⟩ := handle_loggable hm hdeep e
    refine ⟨log, hlog.trans ?_⟩
    simp only [heed, Json.reply?_eq, hm, Option.bind_none]
  · have hhash : id.unhashable? = none := by
      rcases hid : id.unhashable? with _ | typeName
      · rfl
      · exact absurd (Json.misaddressed_iff.mpr ⟨answer, id, typeName, hm, hid⟩) hbad
    have hshown := htellable answer id hm
    refine ⟨e.log, ?_⟩
    rcases hid : id.likeText? with _ | name
    · simp [handle, hm, Engine.answer, hhash, hid, heed, Json.reply?_eq]
    · rcases hfind : e.pending.find? name with _ | r
      · simp [handle, hm, Engine.answer, hhash, hid, heed, Json.reply?_eq, hfind]
      · simp [handle, hm, Engine.answer, hhash, hid, heed, Json.reply?_eq, hfind, hshown, complete, forget]

theorem handle_fault {fault : LoopFault} (h : event.fault? = some fault) : e.handle event = (e, .raised fault) := by
  cases event with
  | message content =>
    simp only [Event.fault?] at h
    split at h
    · rename_i answer id hm
      obtain ⟨typeName, hid, rfl⟩ := Option.map_eq_some_iff.mp h
      simp only [handle, hm, Engine.answer, hid]
    · rename_i hm
      obtain ⟨reason, hfilter, rfl⟩ := Option.map_eq_some_iff.mp h
      obtain ⟨hshown, hexhausts⟩ := Option.filter_eq_some_iff.mp hfilter
      simp only [handle, hm, unexpected, hshown, hexhausts, if_true]
  | _ => cases h

/-! ### What becomes of the requests -/

/-- What handling an event makes of the requests: of those that wait, and of the one that the event brings. -/
inductive Turns (e e' : Engine) : Event → Prop
  | nothing {event : Event} (brings : event.request? = none) (pending : e'.pending = e.pending)
      (completed : e'.completed = e.completed) : Turns e e' event
  | failsAll {event : Event} (failure : Failure) (brings : event.request? = none) (pending : e'.pending = [])
      (completed : e'.completed = e.completed ++ e.pending.map fun entry => ⟨entry.2.serial, .error failure⟩) :
      Turns e e' event
  | completes {event : Event} {id : Text} {r : Request} (outcome : Outcome) (brings : event.request? = none)
      (found : e.pending.find? id = some r) (pending : e'.pending = e.pending.filter fun entry => entry.1 ≠ id)
      (completed : e'.completed = e.completed ++ [⟨r.serial, outcome⟩]) : Turns e e' event
  | awaits {r : Request} (pending : e'.pending = e.pending.insert r.id r) (completed : e'.completed = e.completed) :
      Turns e e' (.request r)
  | refuses {r : Request} (failure : Failure)
      (pending : e'.pending = e.pending ∨ e'.pending = e.pending.filter fun entry => entry.1 ≠ r.id)
      (completed : e'.completed = e.completed ++ [⟨r.serial, .error failure⟩]) : Turns e e' (.request r)

theorem dispatch_gone {r : Request} {reason : Text} (h : e.gone = some reason) :
    e.dispatch r = (e.complete r (.error (.closed reason)), .goOn) := by
  simp only [dispatch, h]

theorem dispatch_unwritable {r : Request} {reason : Unwritable} (hg : e.gone = none) (hline : r.line = .error reason) :
    e.dispatch r = ({ e with pending := e.pending.insert r.id r }, .raised (.unwritable reason)) := by
  unfold dispatch
  split
  case h_1 gone hgone => simp [hg] at hgone
  case h_2 => simp only [hline]

/-- A request whose line meets a fault fails with the words of the fault. -/
theorem dispatch_faulted {r : Request} {line : List UInt8} {fault : SystemFault} (hg : e.gone = none)
    (hline : r.line = .ok line) (hwrite : write { e with pending := e.pending.insert r.id r } line = (e', some fault)) :
    e.dispatch r = ((e'.forget r.id).complete r (.error (Incoming.unreachable ⟨fault, 0⟩)), .goOn) := by
  have hobstacle : some fault = some (Obstacle.fault ⟨fault, 0⟩) := rfl
  exact dispatch_failed hg hline (hwrite.trans (by rw [hobstacle]))

theorem turns_dispatch {r : Request} (h : e.dispatch r = (e', .goOn)) : e.Turns e' (.request r) := by
  rcases hg : e.gone with _ | reason
  · rcases hline : r.line with reason | line
    · rw [dispatch_unwritable hg hline] at h
      cases h
    · have hframe := write_frame { e with pending := e.pending.insert r.id r } line
      rcases hwrite : write { e with pending := e.pending.insert r.id r } line with ⟨written, _ | fault⟩
      · rw [dispatch_sent hg hline hwrite] at h
        obtain ⟨rfl, -⟩ := Prod.mk.inj h
        rw [hwrite] at hframe
        exact .awaits hframe.1 hframe.2.1
      · rw [dispatch_faulted hg hline hwrite] at h
        obtain ⟨rfl, -⟩ := Prod.mk.inj h
        rw [hwrite] at hframe
        refine .refuses (Incoming.unreachable ⟨fault, 0⟩) (.inr ?_) (congrArg (· ++ _) hframe.2.1)
        rw [← Members.filter_ne_insert e.pending r.id r]
        exact congrArg (List.filter _) hframe.1
  · rw [dispatch_gone hg] at h
    obtain ⟨rfl, -⟩ := Prod.mk.inj h
    exact .refuses _ (.inl rfl) rfl

theorem turns_answer {answer : Answer} {id : Host.Value} (hr : event.request? = none)
    (h : e.answer answer id = (e', .goOn)) : e.Turns e' event := by
  unfold Engine.answer at h
  split at h
  · cases h
  · split at h
    · rename_i name r hfound
      obtain ⟨name', -, hfound⟩ := Option.bind_eq_some_iff.mp hfound
      obtain ⟨r', hfind, he⟩ := Option.map_eq_some_iff.mp hfound
      obtain ⟨rfl, rfl⟩ := Prod.mk.inj he
      split at h
      · cases h
      · obtain ⟨rfl, -⟩ := Prod.mk.inj h
        exact .completes answer.outcome hr hfind rfl rfl
    · obtain ⟨rfl, -⟩ := Prod.mk.inj h
      exact .nothing hr rfl rfl

/-- An event without any use changes nothing but the log. -/
theorem turns_unexpected (hr : event.request? = none) (h : e.unexpected event = (e', .goOn)) : e.Turns e' event := by
  rcases e.unexpected_cases event with ⟨reason, -, -, hraised⟩ | ⟨-, log, hlogged⟩
  · cases hraised.symm.trans h
  · obtain ⟨rfl, -⟩ := Prod.mk.inj (hlogged.symm.trans h)
    exact .nothing hr rfl rfl

/-- Every event that the loop goes on after. -/
theorem turns_handle (h : e.handle event = (e', .goOn)) : e.Turns e' event := by
  cases event with
  | request r => exact turns_dispatch h
  | message content =>
    simp only [handle] at h
    split at h
    · exact turns_answer rfl h
    · exact turns_unexpected rfl h
  | protocolError words =>
    obtain ⟨rfl, -⟩ := Prod.mk.inj h
    exact .failsAll _ rfl rfl rfl
  | closed reason =>
    obtain ⟨rfl, -⟩ := Prod.mk.inj h
    obtain ⟨-, hpending, hcompleted, -⟩ := stop_frame (({ e.logged .info (.ofString "Node runtime went away: " ++ reason)
      with gone := some reason } : Engine).failPending (.closed reason))
    exact .failsAll (.closed reason) rfl hpending hcompleted
  | finish => cases h
  | stray value =>
    simp only [handle] at h
    split at h
    · exact turns_unexpected rfl h
    · cases h

/-! ### What becomes of the queue -/

theorem queue_dispatch (e : Engine) (r : Request) : (e.dispatch r).1.queue = e.queue := by
  rcases hg : e.gone with _ | reason
  · rcases hline : r.line with reason | line
    · rw [dispatch_unwritable hg hline]
    · have hframe := write_frame { e with pending := e.pending.insert r.id r } line
      rcases hwrite : write { e with pending := e.pending.insert r.id r } line with ⟨written, _ | fault⟩
      · rw [dispatch_sent hg hline hwrite]
        rw [hwrite] at hframe
        exact hframe.2.2.1
      · rw [dispatch_faulted hg hline hwrite]
        rw [hwrite] at hframe
        exact hframe.2.2.1
  · rw [dispatch_gone hg]
    rfl

theorem queue_answer (e : Engine) (answer : Answer) (id : Host.Value) : (e.answer answer id).1.queue = e.queue := by
  unfold Engine.answer
  split
  · rfl
  · split
    · split <;> rfl
    · rfl

theorem queue_unexpected (e : Engine) (event : Event) : (e.unexpected event).1.queue = e.queue := by
  obtain ⟨log, hlog⟩ := e.unexpected_frame event
  rw [hlog]

/-- The loop itself adds nothing to the queue but a finish. -/
theorem queue_handle (e : Engine) (event : Event) :
    (e.handle event).1.queue = e.queue ∨ (e.handle event).1.queue = e.queue ++ [.finish] := by
  cases event with
  | request r => exact .inl (queue_dispatch e r)
  | message content =>
    left
    simp only [handle]
    split
    · exact queue_answer ..
    · exact queue_unexpected ..
  | protocolError words => exact .inl rfl
  | closed reason =>
    simp only [handle]
    generalize hfailed : ({ e.logged .info (.ofString "Node runtime went away: " ++ reason) with
      gone := some reason } : Engine).failPending (.closed reason) = failed
    have hqueue : failed.queue = e.queue := by rw [← hfailed]; rfl
    cases hs : failed.stopping with
    | true => exact .inl (by rw [stop_of_stopping hs, hqueue])
    | false => exact .inr (by rw [queue_stop_of_not_stopping hs, hqueue])
  | finish => exact .inl rfl
  | stray value =>
    left
    simp only [handle]
    split
    · exact queue_unexpected ..
    · rfl

end Engine
end ScriptLink
