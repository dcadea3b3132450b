import Mathlib.Data.List.Forall2
import Mathlib.Data.List.Pairwise
import Mathlib.Logic.Relation
import ScriptLink.Proofs.LoopSurvival

/-! # Whom a reply reaches

    The peer writes each reply for one request and puts the id of that request on it. The id is all that the loop has to
    go by, and a request may get the id of an earlier one as soon as that one is completed, which a protocol error can
    bring about before its reply has come. An `Exchange` therefore keeps what the engine cannot see, namely for which
    request a message was written. Main statement: a reply ends a request that it was not written for exactly where
    that request got the id of the right one after the right one was completed, and waits when the reply is handled. -/

namespace ScriptLink

/-- A request that was put into the queue, with the serial numbers of those that were completed before. -/
structure Asked where
  request : Request
  finished : List Nat

/-- Of two requests with one id, one was completed before the other was asked. -/
def Asked.InTurn (one two : Asked) : Prop :=
  one.request.id = two.request.id → one.request.serial ∈ two.finished ∨ two.request.serial ∈ one.finished

instance : Std.Symm Asked.InTurn :=
  ⟨fun _ _ h hid => (h hid.symm).symm⟩

/-- An engine between its callers and the peer. -/
structure Exchange where
  engine : Engine
  /-- For each event in the queue the request that the peer wrote it for, if it did. -/
  origins : List (Option Request)
  /-- All requests so far, in order. -/
  asked : List Asked

/-- A message with the id of a request on it. -/
def Json.Carries (content : Json) (a : Request) : Prop :=
  content.at? "event_id" = some (.text a.id)

namespace Exchange

/-- The requests that were made, in order. -/
def requests (x : Exchange) : List Request :=
  x.asked.map Asked.request

/-- The serial numbers of the requests that are completed. -/
def finished (x : Exchange) : List Nat :=
  x.engine.completed.map Completion.serial

/-- A request got the id of another one after that was completed. -/
def Reuses (x : Exchange) (a b : Request) : Prop :=
  b.id = a.id ∧ ∃ finished, ⟨b, finished⟩ ∈ x.asked ∧ a.serial ∈ finished

/-- The exchange with an event behind the others, and the request that it answers, if it does. -/
def enqueue (x : Exchange) (event : Event) (origin : Option Request) : Exchange :=
  { x with engine := x.engine.enqueue event, origins := x.origins ++ [origin] }

/-- The exchange after a request was made. -/
def ask (x : Exchange) (r : Request) : Exchange :=
  { x.enqueue (.request r) none with asked := x.asked ++ [⟨r, x.finished⟩] }

/-- The exchange after the loop has taken an event from the queue. What the loop itself puts there has no origin. -/
def handled (x : Exchange) : Exchange :=
  match x.engine.queue with
  | [] => x
  | event :: rest =>
    let e := ({ x.engine with queue := rest }.handle event).1
    ⟨e, x.origins.tail ++ (e.queue.drop rest.length).map fun _ => none, x.asked⟩

/-- The event that is handled next ends a request. -/
def Ends (x : Exchange) (r : Request) : Prop :=
  ∃ outcome, x.handled.engine.completed = x.engine.completed ++ [⟨r.serial, outcome⟩]

/-- What can happen. A new request has an id that no request has which is not yet completed; a line with a reply to any
    request so far can come at any time, and as often as the peer likes. -/
inductive Step : Exchange → Exchange → Prop
  | ask {x : Exchange} (r : Request) (serial : r.serial = x.asked.length)
      (apart : ∀ other ∈ x.requests, other.serial ∉ x.finished → other.id ≠ r.id) : Step x (x.ask r)
  | reply {x : Exchange} (a : Request) (content : Json) {line : List UInt8} (read : contentOn? line = some content)
      (asked : a ∈ x.requests) (carries : content.Carries a) :
      Step x (x.enqueue (.message (.ofJson content)) (some a))
  /-- An undecodable line, a message that was written for no request, the end of the connection, a finish. -/
  | other {x : Exchange} (event : Event) (brings : event.request? = none) : Step x (x.enqueue event none)
  | handle {x : Exchange} {event : Event} {rest : List Event} (queue : x.engine.queue = event :: rest)
      (goesOn : ({ x.engine with queue := rest }.handle event).2 = .goOn) : Step x x.handled

/-- An exchange in which nothing has been asked and nothing is queued. -/
structure Untouched (x : Exchange) : Prop where
  queue : x.engine.queue = []
  pending : x.engine.pending = []
  completed : x.engine.completed = []
  origins : x.origins = []
  asked : x.asked = []

/-- An exchange that can come about. -/
def Reached (x : Exchange) : Prop :=
  ∃ start : Exchange, start.Untouched ∧ Relation.ReflTransGen Step start x

/-- An event stems from a request if it is a message with its id on it, which can be told as it stood on a line. -/
def Stems (requests : List Request) (event : Event) : Option Request → Prop
  | some a => a ∈ requests ∧ ∃ content : Json, event = .message (.ofJson content) ∧ content.Carries a ∧ content.Tellable
  | none => True

/-- What holds in every exchange that can come about. -/
structure Sound (x : Exchange) : Prop where
  serials : x.requests.map Request.serial = List.range x.asked.length
  care : x.engine.care.Perm (x.requests.map Request.serial)
  ids : x.engine.TellsApart
  waiting : ∀ entry ∈ x.engine.pending, entry.2 ∈ x.requests ∧ entry.1 = entry.2.id
  queued : ∀ r ∈ x.engine.queued, r ∈ x.requests
  origins : List.Forall₂ (Stems x.requests) x.engine.queue x.origins
  finished : ∀ entry ∈ x.asked, entry.finished ⊆ x.finished
  inTurn : x.asked.Pairwise Asked.InTurn

end Exchange

/-! ### What a step of the loop does to the requests that wait -/

namespace Engine
variable {e e' : Engine} {event : Event}

/-- What is completed stays completed. -/
theorem Turns.completed_subset (h : e.Turns e' event) : e.completed ⊆ e'.completed := by
  cases h with
  | nothing _ _ completed => rw [completed]; exact List.Subset.refl _
  | awaits _ completed => rw [completed]; exact List.Subset.refl _
  | failsAll _ _ _ completed => rw [completed]; exact List.subset_append_left _ _
  | completes _ _ _ _ completed => rw [completed]; exact List.subset_append_left _ _
  | refuses _ _ completed => rw [completed]; exact List.subset_append_left _ _

/-- Whatever waits did so before, or is the request that the event brings. -/
theorem Turns.mem_pending (h : e.Turns e' event) {entry : Text × Request} (hm : entry ∈ e'.pending) :
    entry ∈ e.pending ∨ ∃ r, event.request? = some r ∧ entry = (r.id, r) := by
  cases h with
  | nothing _ pending _ => exact .inl (pending ▸ hm)
  | failsAll _ _ pending _ =>
    rw [pending] at hm
    cases hm
  | completes _ _ _ pending _ =>
    rw [pending] at hm
    exact .inl (List.mem_of_mem_filter hm)
  | awaits pending _ =>
    rw [pending] at hm
    rcases Members.mem_insert hm with he | he
    · exact .inr ⟨_, rfl, he⟩
    · exact .inl he
  | refuses _ pending _ =>
    rcases pending with pending | pending
    · exact .inl (pending ▸ hm)
    · rw [pending] at hm
      exact .inl (List.mem_of_mem_filter hm)

theorem queued_enqueue (e : Engine) (event : Event) :
    (e.enqueue event).queued = e.queued ++ event.request?.toList := by
  rw [queued, enqueue, List.filterMap_append]
  congr 1

theorem care_enqueue (e : Engine) (event : Event) :
    (e.enqueue event).care = e.care ++ event.request?.toList.map Request.serial := by
  simp only [care, queued_enqueue, List.map_append, List.append_assoc]
  rfl

theorem tellsApart_enqueue (h : event.request? = none) : (e.enqueue event).TellsApart ↔ e.TellsApart := by
  rw [TellsApart, queued_enqueue, h, Option.toList_none, List.append_nil]
  rfl

/-- A message under an id ends the request that waits under it, if it holds an answer, and no other one. -/
theorem ends_heed_iff {content : Json} {a b : Request} (h : content.Carries a) :
    (∃ outcome, (e.heed content).completed = e.completed ++ [⟨b.serial, outcome⟩]) ↔
      content.reply?.isSome ∧ ∃ r, e.pending.find? a.id = some r ∧ r.serial = b.serial := by
  unfold heed
  rcases hreply : content.reply? with _ | ⟨id, outcome⟩
  · simp
  · obtain rfl : id = a.id := Json.text.inj (Option.some.inj ((Json.at?_of_reply? hreply).symm.trans h))
    dsimp only
    rcases hfind : e.pending.find? a.id with _ | r
    · simp
    · simp only [forget, complete, Option.isSome_some, true_and, Option.some.injEq, exists_eq_left']
      constructor
      · rintro ⟨_, hends⟩
        exact (Completion.mk.inj (List.cons.inj (List.append_cancel_left hends)).1).1
      · intro hserial
        exact ⟨outcome, by rw [hserial]⟩

end Engine

namespace Exchange
variable {x y : Exchange}

theorem requests_ask (x : Exchange) (r : Request) : (x.ask r).requests = x.requests ++ [r] := by
  simp only [ask, requests, List.map_append, List.map_cons, List.map_nil]

theorem handled_eq {event : Event} {rest : List Event} {e : Engine} (queue : x.engine.queue = event :: rest)
    (goesOn : { x.engine with queue := rest }.handle event = (e, .goOn)) :
    x.handled = ⟨e, x.origins.tail ++ (e.queue.drop rest.length).map fun _ => none, x.asked⟩ := by
  simp only [handled, queue, goesOn]

theorem Untouched.sound (h : x.Untouched) : x.Sound := by
  obtain ⟨queue, pending, completed, origins, asked⟩ := h
  have hcare : x.engine.care = [] := by rw [Engine.care, Engine.queued, queue, pending, completed]; rfl
  have hrequests : x.requests = [] := by rw [requests, asked]; rfl
  refine ⟨?_, ?_, ?_, ?_, ?_, ?_, ?_, ?_⟩
  · rw [hrequests, asked]
    rfl
  · rw [hcare, hrequests]
    exact List.Perm.refl _
  · rw [Engine.TellsApart, Engine.queued, queue, pending]
    exact List.nodup_nil
  · simp [pending]
  · simp [Engine.queued, queue]
  · rw [queue, origins]
    exact .nil
  · simp [asked]
  · rw [asked]
    exact .nil

namespace Sound

theorem nodup (h : x.Sound) : (x.requests.map Request.serial).Nodup :=
  h.serials ▸ List.nodup_range

/-- Requests are told apart by their serial numbers. -/
theorem eq_of_serial (h : x.Sound) {a b : Request} (ha : a ∈ x.requests) (hb : b ∈ x.requests)
    (hserial : a.serial = b.serial) : a = b :=
  List.inj_on_of_nodup_map h.nodup ha hb hserial

/-- Whatever waits or is in the queue is not completed. -/
theorem not_finished (h : x.Sound) {r : Request}
    (hr : r.serial ∈ x.engine.pending.map (·.2.serial) ++ x.engine.queued.map Request.serial) : r.serial ∉ x.finished :=
  fun hfinished => (List.nodup_append.mp (h.care.nodup_iff.mpr h.nodup)).2.2 _ hfinished _ hr rfl

theorem enqueue (h : x.Sound) {event : Event} {origin : Option Request} (brings : event.request? = none)
    (stems : Stems x.requests event origin) : (x.enqueue event origin).Sound where
  serials := h.serials
  care := by
    have hcare : (x.engine.enqueue event).care = x.engine.care := by rw [Engine.care_enqueue, brings]; simp
    exact hcare ▸ h.care
  ids := (Engine.tellsApart_enqueue brings).mpr h.ids
  waiting := h.waiting
  queued := by
    have hqueued : (x.engine.enqueue event).queued = x.engine.queued := by rw [Engine.queued_enqueue, brings]; simp
    exact hqueued ▸ h.queued
  origins := List.rel_append h.origins (.cons stems .nil)
  finished := h.finished
  inTurn := h.inTurn

theorem ask (h : x.Sound) {r : Request} (serial : r.serial = x.asked.length)
    (apart : ∀ other ∈ x.requests, other.serial ∉ x.finished → other.id ≠ r.id) : (x.ask r).Sound := by
  have hrequests := requests_ask x r
  have hqueued : (x.ask r).engine.queued = x.engine.queued ++ [r] := Engine.queued_enqueue x.engine (.request r)
  have hcare : (x.ask r).engine.care = x.engine.care ++ [r.serial] := Engine.care_enqueue x.engine (.request r)
  have hkept : ∀ other ∈ x.requests, other ∈ (x.ask r).requests := fun other ho =>
    hrequests ▸ List.mem_append_left _ ho
  refine ⟨?_, ?_, ?_, ?_, ?_, ?_, ?_, ?_⟩
  · rw [hrequests, List.map_append, h.serials, Exchange.ask, List.length_append, List.length_singleton,
      List.range_succ, ← serial]
    rfl
  · rw [hcare, hrequests, List.map_append]
    exact h.care.append_right _
  · -- A request that waits or is in the queue is not yet completed, so its id is not the new one.
    have hnew : r.id ∉ x.engine.pending.names ++ x.engine.queued.map Request.id := by
      intro hm
      rcases List.mem_append.mp hm with hm | hm
      · obtain ⟨entry, hentry, hname⟩ := List.mem_map.mp hm
        obtain ⟨hasked, hid⟩ := h.waiting entry hentry
        have hopen := h.not_finished (r := entry.2) (List.mem_append_left _ (List.mem_map_of_mem hentry))
        exact apart _ hasked hopen (hid.symm.trans hname)
      · obtain ⟨other, hother, hid⟩ := List.mem_map.mp hm
        have hopen := h.not_finished (List.mem_append_right _ (List.mem_map_of_mem hother))
        exact apart _ (h.queued other hother) hopen hid
    have hids : (x.ask r).engine.TellsApart ↔
        (x.engine.pending.names ++ x.engine.queued.map Request.id ++ [r.id]).Nodup := by
      rw [Engine.TellsApart, hqueued, List.map_append, ← List.append_assoc]
      rfl
    exact hids.mpr (List.nodup_append_comm.mp (List.nodup_cons.mpr ⟨hnew, h.ids⟩))
  · intro entry hentry
    exact (h.waiting entry hentry).imp_left (hkept _)
  · rw [hqueued]
    intro other hother
    rcases List.mem_append.mp hother with hother | hother
    · exact hkept _ (h.queued other hother)
    · obtain rfl := List.mem_singleton.mp hother
      exact hrequests ▸ List.mem_append_right _ List.mem_cons_self
  · refine List.rel_append (h.origins.imp ?_) (.cons trivial .nil)
    rintro event (_ | a) hstems
    · trivial
    · exact hstems.imp_left (hkept _)
  · intro entry hentry
    rcases List.mem_append.mp hentry with hentry | hentry
    · exact h.finished entry hentry
    · obtain rfl := List.mem_singleton.mp hentry
      exact List.Subset.refl _
  · refine List.pairwise_append.mpr ⟨h.inTurn, List.pairwise_singleton _ _, ?_⟩
    intro earlier hearlier later hlater hid
    obtain rfl := List.mem_singleton.mp hlater
    exact .inl (not_imp_not.mp (apart _ (List.mem_map_of_mem hearlier)) hid)

theorem handle (h : x.Sound) {event : Event} {rest : List Event} {e : Engine} (queue : x.engine.queue = event :: rest)
    (goesOn : { x.engine with queue := rest }.handle event = (e, .goOn)) : x.handled.Sound := by
  obtain ⟨hcare, hids⟩ := Engine.care_handle queue h.ids goesOn
  have hturns := Engine.turns_handle goesOn
  -- The loop itself puts no request into the queue.
  obtain ⟨later, hlater⟩ : ∃ later, e.queue = rest ++ later ∧ later.filterMap Event.request? = [] := by
    have hqueue := Engine.queue_handle { x.engine with queue := rest } event
    rw [goesOn] at hqueue
    rcases hqueue with hqueue | hqueue
    · exact ⟨[], by simpa using hqueue, rfl⟩
    · exact ⟨[.finish], hqueue, rfl⟩
  obtain ⟨hqueue, hnoRequest⟩ := hlater
  have hbefore : ∀ r, event.request? = some r ∨ r ∈ rest.filterMap Event.request? → r ∈ x.engine.queued := by
    intro r hr
    rw [Engine.queued, queue]
    rcases hr with hr | hr
    · exact List.mem_filterMap.mpr ⟨event, List.mem_cons_self, hr⟩
    · obtain ⟨other, hother, hr⟩ := List.mem_filterMap.mp hr
      exact List.mem_filterMap.mpr ⟨other, List.mem_cons_of_mem _ hother, hr⟩
  rw [handled_eq queue goesOn]
  refine ⟨h.serials, hcare.trans h.care, hids, ?_, ?_, ?_, ?_, h.inTurn⟩
  · intro entry hentry
    rcases hturns.mem_pending hentry with hold | ⟨r, hr, rfl⟩
    · exact h.waiting entry hold
    · exact ⟨h.queued r (hbefore r (.inl hr)), rfl⟩
  · intro r hr
    rw [Engine.queued, hqueue, List.filterMap_append, hnoRequest, List.append_nil] at hr
    exact h.queued r (hbefore r (.inr hr))
  · have horigins := h.origins
    rw [queue] at horigins
    obtain ⟨origin, origins, -, hrest, horigin⟩ := List.forall₂_cons_left_iff.mp horigins
    dsimp only
    rw [hqueue, List.drop_left, horigin]
    refine List.rel_append hrest ?_
    rw [List.forall₂_map_right_iff]
    exact List.forall₂_same.mpr fun _ _ => trivial
  · intro entry hentry n hn
    obtain ⟨completion, hcompletion, rfl⟩ := List.mem_map.mp (h.finished entry hentry hn)
    exact List.mem_map_of_mem (hturns.completed_subset hcompletion)

theorem step (h : x.Sound) (hstep : Step x y) : y.Sound := by
  cases hstep with
  | ask r serial apart => exact h.ask serial apart
  | reply a content read asked carries =>
    exact h.enqueue rfl ⟨asked, content, rfl, carries, tellable_of_contentOn? read⟩
  | other event brings => exact h.enqueue brings trivial
  | handle queue goesOn => exact h.handle queue (Prod.ext rfl goesOn)

end Sound

theorem Reached.sound (h : x.Reached) : x.Sound := by
  obtain ⟨start, huntouched, hsteps⟩ := h
  induction hsteps with
  | refl => exact huntouched.sound
  | tail _ hstep ih => exact ih.step hstep

/-- Of two requests with one id that are not the same one of them was completed before the other was asked; where the
    other still waits, it is the one that came later. -/
theorem Sound.reuses (h : x.Sound) {a b : Request} (ha : a ∈ x.requests) (hb : (a.id, b) ∈ x.engine.pending)
    (hne : b ≠ a) : x.Reuses a b := by
  obtain ⟨hasked, hid⟩ := h.waiting _ hb
  have hopen := h.not_finished (r := b) (List.mem_append_left _ (List.mem_map_of_mem (f := (·.2.serial)) hb))
  obtain ⟨earlier, hearlier, rfl⟩ := List.mem_map.mp ha
  obtain ⟨later, hlater, rfl⟩ := List.mem_map.mp hasked
  refine ⟨hid.symm, later.finished, hlater, ?_⟩
  -- The one that waits is not completed, so it was the other that had to be.
  have hdistinct : earlier ≠ later := fun heq => hne (congrArg Asked.request heq.symm)
  have heither := h.inTurn.forall hearlier hlater hdistinct hid
  exact heither.resolve_right fun hm => hopen (h.finished _ hearlier hm)

/-- What ends the loop ends no request. -/
theorem not_ends_of_fault {event : Event} {rest : List Event} {fault : LoopFault} (queue : x.engine.queue = event :: rest)
    (h : event.fault? = some fault) (r : Request) : ¬ x.Ends r := by
  rintro ⟨outcome, hcompleted⟩
  simp only [handled, queue, Engine.handle_fault h] at hcompleted
  exact List.cons_ne_nil _ _ (List.self_eq_append_right.mp hcompleted)

/-- A reply is handled without a fault, unless it holds no answer and is too deep for the log. It ends a request just
    where it holds an answer, the request waits under the id on the reply, and either the reply was written for it, or
    it got the id of the right one after that was completed. -/
theorem reply_ends_iff (h : x.Reached) {a : Request} {origins : List (Option Request)}
    (written : x.origins = some a :: origins) :
    ∃ content rest, x.engine.queue = .message (.ofJson content) :: rest ∧ content.Carries a ∧
      (¬ content.Unloggable → Step x x.handled) ∧
      ∀ b ∈ x.requests, x.Ends b ↔
        content.reply?.isSome ∧ (a.id, b) ∈ x.engine.pending ∧ (b = a ∨ x.Reuses a b) := by
  have hsound := h.sound
  have horigins := hsound.origins
  rw [written] at horigins
  obtain ⟨event, rest, ⟨ha, content, rfl, hcarries, htellable⟩, -, hqueue⟩ := List.forall₂_cons_right_iff.mp horigins
  refine ⟨content, rest, hqueue, hcarries, fun hloggable => ?_, fun b hb => ?_⟩
  · obtain ⟨log, hhandle⟩ := Engine.handle_message (e := { x.engine with queue := rest })
      (Event.fault?_eq_none_iff.mpr ⟨Json.not_misaddressed_of_text hcarries, hloggable⟩) htellable
    exact .handle hqueue (congrArg Prod.snd hhandle)
  -- A message that ends the loop ends no request, and holds no answer.
  by_cases hdeep : content.Unloggable
  · obtain ⟨reason, hfault⟩ := Event.fault?_of_unloggable hdeep
    refine iff_of_false (not_ends_of_fault hqueue hfault b) fun hanswer => ?_
    rw [Json.reply?_eq, hdeep.1] at hanswer
    cases hanswer.1
  obtain ⟨log, hhandle⟩ := Engine.handle_message (e := { x.engine with queue := rest })
    (Event.fault?_eq_none_iff.mpr ⟨Json.not_misaddressed_of_text hcarries, hdeep⟩) htellable
  have hends := Engine.ends_heed_iff (e := { x.engine with queue := rest }) (b := b) hcarries
  rw [Ends, handled_eq hqueue hhandle]
  refine hends.trans (and_congr_right fun _ => ?_)
  constructor
  · rintro ⟨r, hfind, hserial⟩
    have hr : (a.id, r) ∈ x.engine.pending := Members.mem_of_find? hfind
    obtain rfl := hsound.eq_of_serial (hsound.waiting _ hr).1 hb hserial
    exact ⟨hr, or_iff_not_imp_left.mpr fun hne => hsound.reuses ha hr hne⟩
  · rintro ⟨hr, -⟩
    exact ⟨b, Members.find?_of_mem (List.nodup_append.mp hsound.ids).1 hr, rfl⟩

/-! A request and its reply, and the same reply where it comes late: an undecodable line has failed the request, and the
    next one has got its id. -/

open Engine (numbered plainReply)

/-- An exchange with a connection before its first request. -/
def start : Exchange :=
  ⟨{ Engine.new with connection := some ⟨true, [], []⟩ }, [], []⟩

/-- The same while its first request waits for its answer. -/
def awaiting : Exchange :=
  (start.ask (numbered 0)).handled

/-- The same when that answer is in the queue. -/
def replied : Exchange :=
  awaiting.enqueue (.message (.ofJson (plainReply 0))) (some (numbered 0))

/-- A later request with the id of the first. -/
def successor : Request :=
  { numbered 1 with id := (numbered 0).id }

/-- The first request was failed, and the later one waits. -/
def succeeded : Exchange :=
  ((awaiting.enqueue (.protocolError (.ofString "Could not decode Node output")) none).handled.ask successor).handled

/-- The reply to the first request has come by now. -/
def belated : Exchange :=
  succeeded.enqueue (.message (.ofJson (plainReply 0))) (some (numbered 0))

theorem reached_awaiting : awaiting.Reached := by
  refine ⟨start, ⟨rfl, rfl, rfl, rfl, rfl⟩, .tail (.single (.ask (numbered 0) rfl ?_)) (.handle rfl rfl)⟩
  simp [start, requests]

theorem replied_ends : replied.Reached ∧ replied.origins = [some (numbered 0)] ∧ replied.Ends (numbered 0) := by
  obtain ⟨origin, huntouched, hsteps⟩ := reached_awaiting
  have hreached : replied.Reached :=
    ⟨origin, huntouched, hsteps.tail
      (.reply (numbered 0) (plainReply 0) (Engine.contentOn?_plainReply 0) (List.mem_singleton.mpr rfl) rfl)⟩
  have horigins : replied.origins = [some (numbered 0)] := rfl
  obtain ⟨content, rest, hqueue, -, -, hends⟩ := reply_ends_iff hreached horigins
  have hanswer : content.reply?.isSome := by
    have hsame : Host.Value.ofJson (plainReply 0) = .ofJson content :=
      Event.message.inj (List.cons.inj hqueue).1
    rw [Json.reply?_eq, ← hsame, ← Json.reply?_eq]
    rfl
  exact ⟨hreached, horigins, (hends _ (List.mem_singleton.mpr rfl)).mpr ⟨hanswer, List.mem_singleton.mpr rfl, .inl rfl⟩⟩

theorem belated_ends_successor : belated.Reached ∧ belated.origins = [some (numbered 0)] ∧ successor ≠ numbered 0 ∧
    belated.Ends successor := by
  obtain ⟨origin, huntouched, hsteps⟩ := reached_awaiting
  refine ⟨⟨origin, huntouched, ?_⟩, rfl, ?_, ?_⟩
  · refine ((((hsteps.tail (.other _ rfl)).tail (.handle rfl rfl)).tail (.ask successor rfl ?_)).tail
      (.handle rfl rfl)).tail (.reply (numbered 0) (plainReply 0) (Engine.contentOn?_plainReply 0) ?_ rfl)
    · -- The only other request is completed by now.
      intro other hother hopen
      obtain rfl : other = numbered 0 := List.mem_singleton.mp hother
      exact absurd (List.mem_singleton.mpr rfl) hopen
    · exact List.mem_cons_self
  · intro h
    cases congrArg Request.serial h
  · exact ⟨_, rfl⟩

end Exchange
end ScriptLink
