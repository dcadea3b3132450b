import ScriptLink.Proofs.Addressee
import ScriptLink.Proofs.Service

/-! # In whose hands a request is

    A request that was put into the queue is there, or waits, or is in the hands of the loop, or is completed, and it is
    only one of these. The moves keep this. Main statement: the serial numbers of the requests of a service are those of
    its completed and its unfinished ones, each once. -/

namespace ScriptLink
open Relation

/-- An engine as a start leaves it. -/
structure Engine.Fresh (e : Engine) : Prop where
  started : e.started = true
  queue : e.queue = if e.stopping then [.finish] else []
  gone : e.gone = none
  pending : e.pending = []
  completed : e.completed = []
  connection : e.connection = some ⟨true, [], []⟩
  process : ∃ worker, e.process = some worker
  calls : e.calls = []

theorem Engine.fresh_of_start {machine : Machine} {site site' : Site} (huntried : site.engine.Untried)
    (hstart : site.start machine = (.ok (), site')) : site'.engine.Fresh := by
  cases Site.starts_of_start hstart with
  | connected worker prepares => rcases huntried with hnew | hnew <;> constructor <;> simp [Site.begun, hnew, Engine.new,
      Engine.stop, Engine.endProcess, Engine.closeConnection, Engine.enqueue]

namespace Service
variable {x y : Service} {e : Engine}

/-! ### What a move does to the queue and to the requests -/

/-- One request more has an end, or none. -/
def Settles (x y : Service) : Prop :=
  y.unfinished = x.unfinished ∧ y.engine.completed = x.engine.completed ∨
    ∃ r outcome, x.unfinished.Perm (r :: y.unfinished) ∧
      y.engine.completed = x.engine.completed ++ [⟨r.serial, outcome⟩]

theorem heard_move (stage : StopStage) (e : Engine) :
    ∃ more, (stage.move e).1.queue = e.queue ++ more ∧ ∀ event ∈ more, event = .finish := by
  cases stage with
  | flagged => exact ⟨[.finish], rfl, fun event hm => List.mem_singleton.mp hm⟩
  | told => exact ⟨[], (Engine.queue_closeConnection e).trans (List.append_nil _).symm, List.forall_mem_nil _⟩
  | closed => exact ⟨[], (Engine.queue_endProcess e).trans (List.append_nil _).symm, List.forall_mem_nil _⟩
  | _ => exact ⟨[], (List.append_nil _).symm, List.forall_mem_nil _⟩

theorem heard_stopNext (x : Service) :
    ∃ more, x.stopNext.heard = x.heard ++ more ∧ ∀ event ∈ more, event = .finish := by
  obtain ⟨more, hmore, hfinish⟩ := heard_move x.stage x.engine
  refine ⟨more, ?_, hfinish⟩
  rw [heard, heard, List.append_assoc, ← hmore]
  rfl

/-- The loop puts nothing into the queue but a finish. -/
theorem Works.heard (h : x.Works y) : ∃ more, y.heard = x.heard ++ more ∧ ∀ event ∈ more, event = .finish := by
  cases h with
  | releases => exact heard_stopNext x
  | takes duty queue | drains duty queue | drainsRequest duty queue =>
    refine ⟨[], ?_, List.forall_mem_nil _⟩
    simp [Service.heard, queue, conclude, Engine.complete]
  | _ => exact ⟨[], (List.append_nil _).symm, List.forall_mem_nil _⟩

theorem queued_of_finishes {e e' : Engine} {more : List Event} (h : e'.queue = e.queue ++ more)
    (hfinish : ∀ event ∈ more, event = .finish) : e'.queued = e.queued := by
  have hnone : more.filterMap Event.request? = [] := List.filterMap_eq_nil_iff.mpr fun event hm => by
    rw [hfinish event hm]
    rfl
  rw [Engine.queued, h, List.filterMap_append, hnone, List.append_nil]
  rfl

theorem queued_of_cons {e : Engine} {event : Event} {rest : List Event} (h : e.queue = event :: rest) :
    e.queued = event.request?.toList ++ Engine.queued { e with queue := rest } := by
  rw [Engine.queued, h, List.filterMap_cons]
  cases event.request? <;> rfl

theorem settles_stopNext (x : Service) : x.Settles x.stopNext := by
  obtain ⟨more, hmore, hfinish⟩ := heard_move x.stage x.engine
  obtain ⟨-, -, hpending, hcompleted⟩ := x.stage.move_frame x.engine
  refine .inl ⟨?_, hcompleted⟩
  simp only [unfinished, waiting, stopNext, hpending, queued_of_finishes hmore hfinish]

/-- The requests that the loop knows of are told apart by their ids, and it knows the one that it sends. -/
structure TellsApart (x : Service) : Prop where
  ids : (x.unfinished.map Request.id).Nodup
  names : ∀ entry ∈ x.engine.pending, entry.1 = entry.2.id
  sends : ∀ r line, x.duty = .send r line → (r.id, r) ∈ x.engine.pending

namespace TellsApart

theorem names_eq (h : x.TellsApart) : x.engine.pending.names = x.waiting.map Request.id := by
  rw [Members.names, waiting, List.map_map]
  exact List.map_congr_left h.names

theorem nodup_names (h : x.TellsApart) : x.engine.pending.names.Nodup := by
  have hids := h.ids
  rw [unfinished, List.map_append, ← h.names_eq] at hids
  exact (List.nodup_append.mp hids).1

/-- A request that waits can be taken out in front. -/
theorem perm_forget (h : x.TellsApart) {id : Text} {r : Request} (hm : (id, r) ∈ x.engine.pending) :
    x.waiting.Perm (r :: (x.engine.forget id).pending.map Prod.snd) :=
  (Members.perm_cons_filter h.nodup_names hm).map Prod.snd

theorem mem_waiting_of_send (h : x.TellsApart) {r : Request} {line : List UInt8} (hduty : x.duty = .send r line) :
    r ∈ x.waiting :=
  List.mem_map.mpr ⟨_, h.sends r line hduty, rfl⟩

/-- A request that the loop has just taken up does not wait yet. -/
theorem not_mem_names (h : x.TellsApart) {r : Request} (hduty : x.duty = .handle (.request r)) :
    r.id ∉ x.engine.pending.names := by
  have hids := h.ids
  rw [unfinished, hduty, List.map_append, ← h.names_eq] at hids
  intro hm
  exact (List.nodup_append.mp hids).2.2 _ hm _ List.mem_cons_self rfl

end TellsApart

theorem Works.settles (h : x.Works y) (hx : x.TellsApart) : x.Settles y := by
  cases h with
  | rests => exact .inl ⟨rfl, rfl⟩
  | releases => exact settles_stopNext x
  | takes duty queue =>
    refine .inl ⟨?_, rfl⟩
    rw [unfinished, unfinished, duty, queued_of_cons queue]
    rfl
  | awaits duty | chokes duty =>
    refine .inl ⟨?_, rfl⟩
    simp only [unfinished, waiting, duty, Duty.requests, Members.insert_of_not_mem (hx.not_mem_names duty),
      List.map_append, List.append_assoc]
    rfl
  | passesOver log duty | raises duty | sends connection duty | leaves duty | flags duty | hasReleased duty
  | ends duty =>
    refine .inl ⟨?_, rfl⟩
    rw [unfinished, unfinished, duty]
    rfl
  | replies log duty reply found =>
    refine .inr ⟨_, _, ?_, rfl⟩
    rw [unfinished, unfinished, duty]
    exact (hx.perm_forget (Members.mem_of_find? found)).append_right _
  | clears log duty clears =>
    refine .inl ⟨?_, rfl⟩
    rw [unfinished, unfinished, duty]
    cases clears <;> rfl
  | turnsAway duty | concludes duty =>
    -- The loop had the request in hand, behind those that wait.
    refine .inr ⟨_, _, ?_, rfl⟩
    rw [unfinished, unfinished, duty]
    exact List.perm_middle
  | goesOn duty =>
    refine .inl ⟨?_, rfl⟩
    rename_i failure onward
    rw [unfinished, unfinished, duty]
    cases onward <;> rfl
  | drops connection fault duty =>
    refine .inr ⟨_, _, ?_, rfl⟩
    rw [unfinished, unfinished, duty]
    exact (hx.perm_forget (hx.sends _ _ duty)).append_right _
  | drains duty queue brings =>
    refine .inl ⟨?_, rfl⟩
    rw [unfinished, unfinished, duty, queued_of_cons queue, brings]
    rfl
  | drainsRequest duty queue =>
    refine .inr ⟨_, _, ?_, rfl⟩
    rw [unfinished, unfinished, duty, queued_of_cons queue]
    exact List.perm_middle

/-! ### What all moves keep -/

/-- What holds of a service that can come about. -/
structure Sound (x : Service) : Prop where
  apart : x.TellsApart
  known : ∀ event ∈ x.heard, event.Known
  inHand : ∀ event, x.duty = .handle event → ∃ earlier, x.taken = earlier ++ [event]
  serials : x.asked.map Request.serial = List.range x.asked.length
  care : (x.unfinished.map Request.serial ++ x.engine.completed.map Completion.serial).Perm
    (x.asked.map Request.serial)
  unfinished : x.unfinished ⊆ x.asked

theorem asked_of_heard {more : List Event} (h : y.heard = x.heard ++ more) :
    y.asked = x.asked ++ more.filterMap Event.request? := by
  rw [asked, h, List.filterMap_append]
  rfl

theorem asked_of_finishes {more : List Event} (h : y.heard = x.heard ++ more)
    (hfinish : ∀ event ∈ more, event.request? = none) : y.asked = x.asked := by
  rw [asked_of_heard h, List.filterMap_eq_nil_iff.mpr hfinish, List.append_nil]

theorem heard_enqueue (x : Service) (event : Event) (callers : List (Inquiry × Standing)) :
    heard { x with engine := x.engine.enqueue event, callers := callers } = x.heard ++ [event] :=
  (List.append_assoc _ _ _).symm

theorem asked_enqueue (x : Service) (r : Request) (callers : List (Inquiry × Standing)) :
    asked { x with engine := x.engine.enqueue (.request r), callers := callers } = x.asked ++ [r] :=
  asked_of_heard (heard_enqueue x (.request r) callers)

/-- Whatever completes at most one request keeps the account of them. -/
theorem Sound.settle (h : x.Sound) (more : List Event) (hsettles : x.Settles y) (hheard : y.heard = x.heard ++ more)
    (hmore : ∀ event ∈ more, event.Known ∧ event.request? = none)
    (names : ∀ entry ∈ y.engine.pending, entry.1 = entry.2.id)
    (sends : ∀ r line, y.duty = .send r line → (r.id, r) ∈ y.engine.pending)
    (inHand : ∀ event, y.duty = .handle event → ∃ earlier, y.taken = earlier ++ [event]) : y.Sound := by
  have hasked : y.asked = x.asked := asked_of_finishes hheard fun event hm => (hmore event hm).2
  have hknown : ∀ event ∈ y.heard, event.Known := by
    intro event hm
    rw [hheard] at hm
    rcases List.mem_append.mp hm with hm | hm
    · exact h.known event hm
    · exact (hmore event hm).1
  rcases hsettles with ⟨hunfinished, hcompleted⟩ | ⟨r, outcome, hperm, hcompleted⟩
  · refine ⟨⟨hunfinished ▸ h.apart.ids, names, sends⟩, hknown, inHand, hasked ▸ h.serials, ?_, ?_⟩
    · rw [hunfinished, hcompleted, hasked]
      exact h.care
    · rw [hunfinished, hasked]
      exact h.unfinished
  · refine ⟨⟨?_, names, sends⟩, hknown, inHand, hasked ▸ h.serials, ?_, ?_⟩
    · exact ((hperm.map Request.id).nodup_iff.mp h.apart.ids).of_cons
    · rw [hasked, hcompleted, List.map_append]
      refine List.Perm.trans ?_ h.care
      refine List.Perm.trans ?_ ((hperm.map Request.serial).symm.append_right _)
      rw [List.map_cons, ← List.append_assoc]
      exact List.perm_append_singleton _ _
    · rw [hasked]
      exact fun other hm => h.unfinished (hperm.mem_iff.mpr (List.mem_cons_of_mem _ hm))

theorem Works.sound (h : x.Works y) (hx : x.Sound) : y.Sound := by
  obtain ⟨more, hheard, hfinish⟩ := h.heard
  refine hx.settle more (h.settles hx.apart) hheard (fun event hm => ?_) ?_ ?_ ?_
  · rw [hfinish event hm]
    exact ⟨.finish, rfl⟩
  · cases h with
    | awaits duty | chokes duty =>
      intro entry hm
      rcases Members.mem_insert hm with rfl | hm
      · rfl
      · exact hx.apart.names entry hm
    | replies | drops => exact fun entry hm => hx.apart.names entry (List.mem_of_mem_filter hm)
    | clears => exact List.forall_mem_nil _
    | releases =>
      rw [stopNext, (x.stage.move_frame x.engine).2.2.1]
      exact hx.apart.names
    | _ => exact hx.apart.names
  · cases h with
    | awaits duty =>
      rintro r line ⟨⟩
      rw [Members.insert_of_not_mem (hx.apart.not_mem_names duty)]
      exact List.mem_append_right _ List.mem_cons_self
    | rests => exact hx.apart.sends
    | drains duty | drainsRequest duty | releases duty =>
      intro r line hsend
      exact Duty.noConfusion (duty.symm.trans hsend)
    | @goesOn failure onward => cases onward <;> rintro r line ⟨⟩
    | _ => rintro r line ⟨⟩
  · cases h with
    | takes =>
      rintro event ⟨⟩
      exact ⟨_, rfl⟩
    | rests => exact hx.inHand
    | drains duty | drainsRequest duty | releases duty =>
      intro event hhandle
      exact Duty.noConfusion (duty.symm.trans hhandle)
    | @goesOn failure onward => cases onward <;> rintro event ⟨⟩
    | _ => rintro event ⟨⟩

theorem Sound.known_inHand (h : x.Sound) (event : Event) (hduty : x.duty = .handle event) : event.Known := by
  obtain ⟨earlier, htaken⟩ := h.inHand event hduty
  refine h.known event (List.mem_append_left _ ?_)
  rw [htaken]
  exact List.mem_append_right _ List.mem_cons_self

theorem Sound.works (h : x.Sound) : x.Works x.work :=
  works_work h.known_inHand

/-- What the reader puts into the queue. -/
theorem Sound.enqueue {more : List Event} (h : x.Sound) (hmore : ∀ event ∈ more, event.Known ∧ event.request? = none) :
    Sound { x with engine := { x.engine with queue := x.engine.queue ++ more } } := by
  have hnone : more.filterMap Event.request? = [] := List.filterMap_eq_nil_iff.mpr fun event hm => (hmore event hm).2
  have hqueued : Engine.queued { x.engine with queue := x.engine.queue ++ more } = x.engine.queued := by
    rw [Engine.queued, List.filterMap_append, hnone, List.append_nil]
    rfl
  refine h.settle more (.inl ⟨?_, rfl⟩) (List.append_assoc _ _ _).symm hmore h.apart.names h.apart.sends h.inHand
  rw [Service.unfinished, hqueued]
  rfl

/-- What a caller puts into the queue. -/
theorem Sound.enqueueRequest (h : x.Sound) {r : Request} (callers : List (Inquiry × Standing))
    (hserial : r.serial = x.asked.length) (hapart : ∀ other ∈ x.unfinished, other.id ≠ r.id) :
    Sound { x with engine := x.engine.enqueue (.request r), callers := callers } := by
  have hasked := asked_enqueue x r callers
  have hunfinished : Service.unfinished { x with engine := x.engine.enqueue (.request r), callers := callers } =
      x.unfinished ++ [r] := by
    rw [Service.unfinished, Service.unfinished, List.append_assoc, List.append_assoc]
    exact congrArg (fun queued => x.waiting ++ (x.duty.requests ++ queued)) (Engine.queued_enqueue x.engine (.request r))
  refine ⟨⟨?_, h.apart.names, h.apart.sends⟩, ?_, h.inHand, ?_, ?_, ?_⟩
  · have hnew : r.id ∉ x.unfinished.map Request.id := by
      intro hm
      obtain ⟨other, hother, hid⟩ := List.mem_map.mp hm
      exact hapart other hother hid
    rw [hunfinished, List.map_append]
    exact List.nodup_append_comm.mp (List.nodup_cons.mpr ⟨hnew, h.apart.ids⟩)
  · intro event hm
    rw [heard_enqueue] at hm
    rcases List.mem_append.mp hm with hm | hm
    · exact h.known event hm
    · rw [List.mem_singleton.mp hm]
      exact .request r
  · rw [hasked, List.map_append, h.serials, List.length_append, List.length_singleton, List.range_succ, ← hserial]
    rfl
  · rw [hasked, hunfinished, List.map_append, List.map_append]
    refine List.Perm.trans ?_ (h.care.append_right _)
    rw [List.append_assoc, List.append_assoc]
    exact List.perm_append_comm.append_left _
  · rw [hasked, hunfinished]
    exact List.append_subset.mpr ⟨List.subset_append_of_subset_left _ h.unfinished, List.subset_append_right _ _⟩

theorem Asks.sound {k : Nat} {inquiry : Inquiry} {id : Text} (h : x.Asks k inquiry id y) (hx : x.Sound)
    (hapart : ∀ other ∈ x.unfinished, other.id ≠ id) : y.Sound := by
  cases h with
  | turnsAway =>
    exact hx.settle [] (.inl ⟨rfl, rfl⟩) (List.append_nil _).symm (List.forall_mem_nil _) hx.apart.names
      hx.apart.sends hx.inHand
  | puts live request =>
    obtain ⟨hserial, hid⟩ := Inquiry.request?_eq request
    exact hx.enqueueRequest _ hserial (hid ▸ hapart)
  | rests => exact hx

theorem Step.sound (h : Step x y) (hx : x.Sound) : y.Sound := by
  cases h with
  | works => exact hx.works.sound hx
  | stops =>
    obtain ⟨more, hheard, hfinish⟩ := heard_stopNext x
    refine hx.settle more (settles_stopNext x) hheard (fun event hm => ?_) ?_ ?_ hx.inHand
    · rw [hfinish event hm]
      exact ⟨.finish, rfl⟩
    · rw [stopNext, (x.stage.move_frame x.engine).2.2.1]
      exact hx.apart.names
    · rw [stopNext, (x.stage.move_frame x.engine).2.2.1]
      exact hx.apart.sends
  | begins inquiry =>
    exact hx.settle [] (.inl ⟨rfl, rfl⟩) (List.append_nil _).symm (List.forall_mem_nil _) hx.apart.names
      hx.apart.sends hx.inHand
  | asks id admitted apart => exact (asks_ask ..).sound hx apart
  | hears line =>
    refine hx.enqueue fun event hm => ?_
    rcases Event.ofLine?_cases (Option.mem_toList.mp hm) with ⟨content, rfl, htellable⟩ | ⟨words, rfl⟩
    · exact ⟨.message content htellable, rfl⟩
    · exact ⟨.protocolError words, rfl⟩
  | loses reason =>
    refine hx.enqueue fun event hm => ?_
    obtain rfl := List.mem_singleton.mp hm
    exact ⟨.closed reason, rfl⟩
  | looks | meets =>
    exact hx.settle [] (.inl ⟨rfl, rfl⟩) (List.append_nil _).symm (List.forall_mem_nil _) hx.apart.names
      hx.apart.sends hx.inHand

theorem finish_of_fresh (h : e.Fresh) {event : Event} (hm : event ∈ e.queue) :
    event = .finish ∧ e.stopping = true := by
  rw [h.queue] at hm
  split at hm
  · exact ⟨List.mem_singleton.mp hm, ‹_›⟩
  · cases hm

theorem asked_start (h : e.Fresh) : (start e).asked = [] :=
  List.filterMap_eq_nil_iff.mpr fun event hm => by
    rw [(finish_of_fresh h hm).1]
    rfl

theorem sound_start (h : e.Fresh) : (start e).Sound := by
  have hasked := asked_start h
  have hunfinished : (start e).unfinished = [] := by
    rw [unfinished, waiting, start, h.pending]
    exact hasked
  refine ⟨⟨?_, ?_, fun r line => Duty.noConfusion⟩, ?_, fun event => Duty.noConfusion, ?_, ?_, ?_⟩
  · rw [hunfinished]
    exact List.nodup_nil
  · rw [start, h.pending]
    exact List.forall_mem_nil _
  · intro event hm
    rw [(finish_of_fresh h hm).1]
    exact .finish
  · rw [hasked]
    rfl
  · rw [hasked, hunfinished, start, h.completed]
    exact List.Perm.refl _
  · rw [hunfinished]
    exact List.nil_subset _

theorem Sound.reach (hx : x.Sound) (h : ReflTransGen Step x y) : y.Sound := by
  induction h with
  | refl => exact hx
  | tail _ hstep ih => exact hstep.sound ih

theorem Run.sound (he : e.Fresh) (h : Run e x) : x.Sound :=
  (sound_start he).reach h

end Service
end ScriptLink
