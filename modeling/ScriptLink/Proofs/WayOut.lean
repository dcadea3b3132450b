import ScriptLink.Proofs.LastWord
import ScriptLink.Proofs.Teardown

/-! # The way out of the loop

    Once a stop has told the loop to finish, the finish stands in the queue with no request behind it, or the loop has
    taken it. Main statement: from then on every move of the loop comes nearer to the end, and no other move leads away
    from it. -/

namespace ScriptLink

/-- The loop has taken a finish. -/
def Duty.isEnding : Duty → Bool
  | .handle .finish | .fail _ _ .drain | .drain | .over => true
  | _ => false

/-- The loop is about to stop the engine itself. -/
def Duty.Leaving : Duty → Prop
  | .fail _ _ .stop | .stop => True
  | _ => False

/-- The loop has failed all that waited when it took the finish. -/
def Duty.Done : Duty → Prop
  | .drain | .over => True
  | _ => False

/-- The loop serves an event that is no finish, and is not about to stop the engine. -/
def Duty.Serving : Duty → Prop
  | .take | .handle (.request _) | .handle (.message _) | .handle (.protocolError _) | .handle (.closed _) | .send _ _
  | .fail _ _ .take | .release => True
  | _ => False

namespace Duty
variable {duty : Duty}

theorem Draining.isEnding (h : duty.Draining) : duty.isEnding = true := by
  rcases duty with _ | event | _ | ⟨requests, failure, _ | _ | _⟩ | _ | _ | _ | _ | _ <;> first | exact h.elim | rfl

theorem isEnding_iff : duty.isEnding = true ↔ duty = .handle .finish ∨ duty.Draining := by
  constructor
  · intro h
    rcases duty with _ | (_ | _ | _ | _ | _ | _) | _ | ⟨requests, failure, _ | _ | _⟩ | _ | _ | _ | _ | _ <;>
      first | exact .inl rfl | exact .inr trivial | cases h
  · rintro (rfl | h)
    · rfl
    · exact h.isEnding

theorem Done.draining (h : duty.Done) : duty.Draining := by
  cases duty <;> first | exact h.elim | trivial

theorem Serving.not_isEnding (h : duty.Serving) : duty.isEnding = false := by
  rcases duty with _ | (_ | _ | _ | _ | _ | _) | _ | ⟨requests, failure, _ | _ | _⟩ | _ | _ | _ | _ | _ <;>
    first | exact h.elim | rfl

theorem Serving.not_leaving (h : duty.Serving) : ¬ duty.Leaving := by
  rcases duty with _ | _ | _ | ⟨requests, failure, _ | _ | _⟩ | _ | _ | _ | _ | _ <;> first | exact h.elim | exact id

theorem Serving.ne_raised (h : duty.Serving) (fault : LoopFault) : duty ≠ .raised fault := by
  rintro rfl
  exact h

end Duty

/-- A stop has told the loop to finish. -/
def StopStage.Told : StopStage → Prop
  | .none | .flagged => False
  | _ => True

theorem StopStage.Told.move {stage : StopStage} (h : stage.Told) (e : Engine) : (stage.move e).2.Told := by
  cases stage <;> first | exact h.elim | trivial

namespace Service
variable {x y : Service} {e : Engine}

/-! ### Where the finish is -/

/-- The finish of a stop, and what is about it. -/
structure Finishing (x : Service) : Prop where
  begun : x.engine.stopping = true → x.stage ≠ .none
  told : x.stage.Told → .finish ∈ x.engine.queue ∨ x.duty.isEnding = true ∨ ∃ fault, x.duty = .raised fault
  /-- No request comes behind a finish. -/
  behind : x.engine.queue.Pairwise fun earlier later => earlier = .finish → later.request? = none
  last : x.duty.isEnding = true → x.engine.queued = []
  leaving : x.engine.gone.isSome → x.engine.stopping = true ∨ x.duty.Leaving

namespace Finishing

theorem mem_or_isEnding (hx : x.Finishing) (hraised : ∀ fault, x.duty ≠ .raised fault) (htold : x.stage.Told) :
    .finish ∈ x.engine.queue ∨ x.duty.isEnding = true := by
  rcases hx.told htold with hm | hending | ⟨fault, hduty⟩
  · exact .inl hm
  · exact .inr hending
  · exact absurd hduty (hraised fault)

theorem finish_mem (hx : x.Finishing) (hserving : x.duty.Serving) (htold : x.stage.Told) :
    .finish ∈ x.engine.queue := by
  rcases hx.mem_or_isEnding hserving.ne_raised htold with hm | hending
  · exact hm
  · cases hserving.not_isEnding.symm.trans hending

/-- From one duty to another that has nothing to do with the end. -/
theorem serve (hx : x.Finishing) (hserving : x.duty.Serving) (hstage : y.stage = x.stage)
    (hstopping : y.engine.stopping = x.engine.stopping) (hgone : y.engine.gone = x.engine.gone)
    (hqueue : y.engine.queue = x.engine.queue) (hserves : y.duty.Serving ∨ ∃ fault, y.duty = .raised fault) :
    y.Finishing := by
  refine ⟨?_, ?_, ?_, ?_, ?_⟩
  · rw [hstopping, hstage]
    exact hx.begun
  · rw [hstage, hqueue]
    exact fun htold => .inl (hx.finish_mem hserving htold)
  · rw [hqueue]
    exact hx.behind
  · intro hending
    rcases hserves with hserves | ⟨fault, hraised⟩
    · cases hserves.not_isEnding.symm.trans hending
    · rw [hraised] at hending
      cases hending
  · rw [hgone, hstopping]
    exact fun h => .inl ((hx.leaving h).resolve_right hserving.not_leaving)

theorem stopNext (hx : x.Finishing) : x.stopNext.Finishing := by
  obtain ⟨hbegun, htold, hbehind, hlast, hleaving⟩ := hx
  simp only [Service.stopNext]
  cases hstage : x.stage with
  | none => exact ⟨fun _ => StopStage.noConfusion, False.elim, hbehind, hlast, fun _ => .inl rfl⟩
  | flagged =>
    refine ⟨fun _ => StopStage.noConfusion, fun _ => .inl (List.mem_append_right _ List.mem_cons_self), ?_, ?_, hleaving⟩
    · refine List.pairwise_append.mpr ⟨hbehind, List.pairwise_singleton _ _, fun _ _ later hm _ => ?_⟩
      rw [List.mem_singleton.mp hm]
      rfl
    · intro hending
      rw [StopStage.move, Engine.queued_enqueue, hlast hending]
      rfl
  | told =>
    rw [StopStage.move, Engine.closeConnection_eq]
    rw [hstage] at htold
    exact ⟨fun _ => StopStage.noConfusion, fun _ => htold trivial, hbehind, hlast, hleaving⟩
  | closed =>
    obtain ⟨log, hlog⟩ := x.engine.endProcess_eq
    rw [StopStage.move, hlog]
    rw [hstage] at htold
    exact ⟨fun _ => StopStage.noConfusion, fun _ => htold trivial, hbehind, hlast, hleaving⟩
  | before | done =>
    rw [hstage] at hbegun htold
    exact ⟨hbegun, htold, hbehind, hlast, hleaving⟩

end Finishing

theorem queued_of_behind {event : Event} {rest : List Event}
    (h : (event :: rest).Pairwise fun earlier later => earlier = .finish → later.request? = none)
    (hfinish : event = .finish) : rest.filterMap Event.request? = [] :=
  List.filterMap_eq_nil_iff.mpr fun later hm => (List.pairwise_cons.mp h).1 later hm hfinish

theorem Works.finishing (h : x.Works y) (hx : x.Finishing) : y.Finishing := by
  cases h with
  | rests => exact hx
  | releases => exact hx.stopNext
  | @takes event rest duty queue =>
    have hserving : x.duty.Serving := by rw [duty]; trivial
    have hbehind := hx.behind
    rw [queue] at hbehind
    refine ⟨hx.begun, fun htold => ?_, hbehind.of_cons, fun hending => ?_, fun hgone => ?_⟩
    · have hm := hx.finish_mem hserving htold
      rw [queue] at hm
      rcases List.mem_cons.mp hm with rfl | hm
      · exact .inr (.inl rfl)
      · exact .inl hm
    · rcases Duty.isEnding_iff.mp hending with hfinish | hdraining
      · exact queued_of_behind hbehind (Duty.handle.inj hfinish)
      · exact hdraining.elim
    · exact .inl ((hx.leaving hgone).resolve_right hserving.not_leaving)
  | turnsAway duty | awaits duty | passesOver log duty | replies log duty | sends connection duty
  | drops connection fault duty | hasReleased duty =>
    exact hx.serve (by rw [duty]; trivial) rfl rfl rfl rfl (.inl trivial)
  | chokes duty | raises duty => exact hx.serve (by rw [duty]; trivial) rfl rfl rfl rfl (.inr ⟨_, rfl⟩)
  | clears log duty clears =>
    cases clears with
    | finish =>
      have hqueued := hx.last (by rw [duty]; rfl)
      refine ⟨hx.begun, fun _ => .inr (.inl rfl), hx.behind, fun _ => hqueued, fun hgone => ?_⟩
      refine .inl ((hx.leaving hgone).resolve_right ?_)
      rw [duty]
      exact id
    | closed reason =>
      refine ⟨hx.begun, fun htold => .inl (hx.finish_mem (by rw [duty]; trivial) htold), hx.behind, ?_,
        fun _ => .inr trivial⟩
      exact Bool.noConfusion
    | protocolError words => exact hx.serve (by rw [duty]; trivial) rfl rfl rfl rfl (.inl trivial)
  | @concludes r requests failure onward duty | @goesOn failure onward duty =>
    have htold := hx.mem_or_isEnding (by rw [duty]; exact fun _ => Duty.noConfusion)
    obtain ⟨hbegun, -, hbehind, hlast, hleaving⟩ := hx
    rw [duty] at htold hlast hleaving
    cases onward <;> exact ⟨hbegun, fun h => (htold h).imp_right .inl, hbehind, hlast, hleaving⟩
  | leaves duty stopping =>
    have htold := hx.mem_or_isEnding (by rw [duty]; exact fun _ => Duty.noConfusion)
    rw [duty] at htold
    exact ⟨hx.begun, fun h => (htold h).imp_right .inl, hx.behind, Bool.noConfusion, fun _ => .inl stopping⟩
  | flags duty => exact ⟨fun _ => StopStage.noConfusion, False.elim, hx.behind, Bool.noConfusion, fun _ => .inl rfl⟩
  | drains duty queue brings =>
    have hending : x.duty.isEnding = true := by rw [duty]; rfl
    have hbehind := hx.behind
    have hlast := hx.last hending
    rw [queue] at hbehind
    rw [queued_of_cons queue] at hlast
    refine ⟨hx.begun, fun _ => .inr (.inl hending), hbehind.of_cons, fun _ => (List.append_eq_nil_iff.mp hlast).2, ?_⟩
    exact hx.leaving
  | drainsRequest duty queue =>
    have hlast := hx.last (by rw [duty]; rfl)
    rw [queued_of_cons queue] at hlast
    cases (List.append_eq_nil_iff.mp hlast).1
  | ends duty queue =>
    have hending : x.duty.isEnding = true := by rw [duty]; rfl
    refine ⟨hx.begun, fun _ => .inr (.inl rfl), hx.behind, fun _ => hx.last hending, fun hgone => ?_⟩
    refine .inl ((hx.leaving hgone).resolve_right ?_)
    rw [duty]
    exact id

theorem Beside.finishing (h : x.Beside y) (hx : x.Finishing) (hordered : x.Ordered) : y.Finishing := by
  obtain ⟨more, hqueue, hfinish, hrequests⟩ := h.queue
  refine ⟨?_, ?_, ?_, ?_, ?_⟩
  · rw [h.stopping, h.stage]
    exact hx.begun
  · rw [h.stage, hqueue, h.duty]
    exact fun htold => (hx.told htold).imp_left (List.mem_append_left _)
  · rw [hqueue]
    refine List.pairwise_append.mpr ⟨hx.behind, ?_, fun earlier hm later hlater hearlier => ?_⟩
    · exact List.pairwise_of_forall_mem_list fun earlier hm _ _ hearlier => absurd (hearlier ▸ hm) hfinish
    · exact hrequests (hordered.queued (hearlier ▸ hm)) later hlater
  · rw [h.duty]
    intro hending
    have hstopping : x.engine.stopping = true :=
      (Duty.isEnding_iff.mp hending).elim hordered.inHand hordered.draining
    rw [Engine.queued, hqueue, List.filterMap_append, List.filterMap_eq_nil_iff.mpr (hrequests hstopping),
      List.append_nil]
    exact hx.last hending
  · rw [h.gone, h.stopping, h.duty]
    exact hx.leaving

theorem Step.finishing (h : Step x y) (hx : x.Finishing) (hordered : x.Ordered) (hsound : x.Sound) : y.Finishing := by
  rcases h.threads with rfl | rfl | hbeside
  · exact hsound.works.finishing hx
  · exact hx.stopNext
  · exact hbeside.finishing hx hordered

theorem Run.finishing (he : e.Fresh) (h : Run e x) : x.Finishing := by
  induction h with
  | refl =>
    have hqueue := he.queue
    refine ⟨?_, ?_, ?_, Bool.noConfusion, ?_⟩
    · intro hs
      rw [start, show e.stopping = true from hs]
      exact StopStage.noConfusion
    · intro htold
      rcases hs : e.stopping with _ | _
      · rw [start, hs] at htold
        exact htold.elim
      · rw [hs] at hqueue
        left
        rw [start, hqueue]
        exact List.mem_cons_self
    · rw [start, hqueue]
      split
      · exact List.pairwise_singleton _ _
      · exact List.Pairwise.nil
    · rw [start, he.gone]
      exact Bool.noConfusion
  | tail hrun hstep ih => exact hstep.finishing ih (Run.ordered he hrun) (Run.sound he hrun)

/-! ### How far it is -/

end Service

/-- What is left of a stop, with the move that finds it done. -/
def StopStage.left : StopStage → Nat
  | .none | .flagged | .told => 3
  | .closed => 2
  | .before | .done => 1

/-- The moves that the loop has with one event at most, less what waits. -/
def Duty.left (stage : StopStage) : Duty → Nat
  | .handle _ => 5
  | .send _ _ => 3
  | .fail requests _ _ => requests.length + 2
  | .stop => 1
  | .release => stage.left
  | _ => 0

theorem Duty.Leaving.left_eq {duty : Duty} (h : duty.Leaving) (stage other : StopStage) :
    duty.left stage = duty.left other := by
  cases duty <;> first | exact h.elim | rfl

namespace Service
variable {x y : Service} {e : Engine}

/-- The events that the loop takes up to the finish. -/
def ahead (x : Service) : Nat :=
  if x.duty.isEnding then 0 else x.engine.queue.findIdx Event.isFinish + 1

/-- How far it is to the end of the loop. -/
def distance (x : Service) : Nat :=
  6 * x.ahead + x.engine.pending.length + x.duty.left x.stage

theorem ahead_of_serving (h : x.duty.Serving) : x.ahead = x.engine.queue.findIdx Event.isFinish + 1 := by
  rw [ahead, h.not_isEnding, if_neg Bool.false_ne_true]

/-- What is put behind the finish does not matter. -/
theorem findIdx_append {queue : List Event} (hm : .finish ∈ queue) (more : List Event) :
    (queue ++ more).findIdx Event.isFinish = queue.findIdx Event.isFinish := by
  rw [List.findIdx_append, if_pos (List.findIdx_lt_length_of_exists ⟨.finish, hm, rfl⟩)]

theorem Beside.ahead (h : x.Beside y) (hx : x.Finishing) (htold : x.stage.Told)
    (hraised : ∀ fault, x.duty ≠ .raised fault) : y.ahead = x.ahead := by
  obtain ⟨more, hqueue, -, -⟩ := h.queue
  rcases hx.mem_or_isEnding hraised htold with hm | hending
  · rw [Service.ahead, Service.ahead, hqueue, h.duty, findIdx_append hm]
  · rw [Service.ahead, Service.ahead, h.duty, hending, if_pos rfl, if_pos rfl]

/-- A stop that has told the loop puts nothing more into the queue. -/
theorem ahead_stopNext (htold : x.stage.Told) : x.stopNext.ahead = x.ahead := by
  have hqueue : x.stopNext.engine.queue = x.engine.queue := by
    simp only [stopNext]
    cases hstage : x.stage with
    | none | flagged =>
      rw [hstage] at htold
      exact htold.elim
    | told => exact Engine.queue_closeConnection _
    | closed => exact Engine.queue_endProcess _
    | before | done => rfl
  rw [ahead, ahead, hqueue]
  rfl

theorem left_move (stage : StopStage) (e : Engine) : (stage.move e).2.left ≤ stage.left := by
  cases stage <;> simp [StopStage.move, StopStage.left]

/-- Once the loop is told, a stop that is not done comes nearer to that with every move. -/
theorem left_move_lt {stage : StopStage} (htold : stage.Told) (h : stage ≠ .before ∧ stage ≠ .done) (e : Engine) :
    (stage.move e).2.left < stage.left := by
  cases stage with
  | none | flagged => exact htold.elim
  | told | closed => exact Nat.lt_succ_self _
  | before => exact absurd rfl h.1
  | done => exact absurd rfl h.2

theorem distance_stopNext (htold : x.stage.Told) : x.stopNext.distance ≤ x.distance := by
  have hpending : x.stopNext.engine.pending = x.engine.pending := (x.stage.move_frame x.engine).2.2.1
  have hleft : x.stopNext.duty.left x.stopNext.stage ≤ x.duty.left x.stage := by
    simp only [stopNext]
    cases x.duty <;> first | exact le_rfl | exact left_move _ _
  rw [distance, distance, ahead_stopNext htold, hpending]
  omega

/-- No other move leads away from the end. -/
theorem Step.distance_le (h : Step x y) (hworks : y ≠ x.work) (hx : x.Finishing) (htold : x.stage.Told)
    (hraised : ∀ fault, x.duty ≠ .raised fault) : y.distance ≤ x.distance := by
  rcases h.threads with rfl | rfl | hbeside
  · exact absurd rfl hworks
  · exact distance_stopNext htold
  · rw [distance, distance, hbeside.ahead hx htold hraised, hbeside.pending, hbeside.duty, hbeside.stage]

theorem ahead_congr (hending : y.duty.isEnding = x.duty.isEnding) (hqueue : y.engine.queue = x.engine.queue) :
    y.ahead = x.ahead := by
  rw [ahead, ahead, hending, hqueue]

theorem distance_lt (hahead : y.ahead = x.ahead) (hleft : y.engine.pending.length + y.duty.left y.stage <
    x.engine.pending.length + x.duty.left x.stage) : y.distance < x.distance := by
  rw [distance, distance, hahead]
  omega

/-- The event that is taken pays for all that the loop may do with it. -/
theorem distance_take {event : Event} {rest : List Event} (hduty : x.duty = .take)
    (hqueue : x.engine.queue = event :: rest) :
    distance { x with
      engine := { x.engine with queue := rest }
      taken := x.taken ++ [event]
      duty := .handle event } < x.distance := by
  have hserving : x.duty.Serving := by rw [hduty]; trivial
  have hfar : x.distance = 6 * (x.engine.queue.findIdx Event.isFinish + 1) + x.engine.pending.length := by
    rw [distance, ahead_of_serving hserving, hduty]
    rfl
  rw [hfar, hqueue, List.findIdx_cons]
  cases event <;> simp only [distance, ahead, Duty.left, Duty.isEnding, Event.isFinish, cond_true, cond_false, if_true,
    Bool.false_eq_true, if_false] <;> omega

theorem length_pending_forget_le (e : Engine) (id : Text) :
    (e.forget id).pending.length ≤ e.pending.length :=
  List.length_filter_le _ _

/-- Every move of the loop comes nearer to the end, and the last ones come to it. -/
theorem Works.distance_lt (h : x.Works y) (hx : x.Finishing) (htold : x.stage.Told)
    (hstopping : x.engine.stopping = true) (hsound : x.Sound) (hraised : ∀ fault, y.duty ≠ .raised fault) :
    y.duty.Done ∨ y.distance < x.distance := by
  cases h with
  | rests idle =>
    rcases idle with ⟨hduty, hqueue⟩ | hduty | ⟨fault, hduty⟩
    · -- With the finish in the queue there is always something to take.
      have hm := hx.finish_mem (by rw [hduty]; trivial) htold
      rw [hqueue] at hm
      cases hm
    · left
      rw [hduty]
      trivial
    · exact absurd hduty (hraised fault)
  | takes duty queue => exact .inr (distance_take duty queue)
  | chokes | raises => exact absurd rfl (hraised _)
  | turnsAway duty | passesOver log duty | sends connection duty | leaves duty =>
    refine .inr (Service.distance_lt (ahead_congr (by rw [duty]; rfl) rfl) ?_)
    rw [duty]
    exact Nat.add_lt_add_left (by simp [Duty.left]) _
  | awaits duty =>
    refine .inr (Service.distance_lt (ahead_congr (by rw [duty]; rfl) rfl) ?_)
    simp only [duty, Members.insert_of_not_mem (hsound.apart.not_mem_names duty), List.length_append,
      List.length_singleton, Duty.left]
    omega
  | @replies content name r outcome log duty =>
    have hpending := length_pending_forget_le x.engine name
    refine .inr (Service.distance_lt (ahead_congr (by rw [duty]; rfl) rfl) ?_)
    simp only [duty, conclude, Engine.complete, Duty.left]
    omega
  | @drops r line connection fault duty =>
    have hpending := length_pending_forget_le x.engine r.id
    refine .inr (Service.distance_lt (ahead_congr (by rw [duty]; rfl) rfl) ?_)
    simp only [duty, conclude, Engine.complete, Engine.forget, Duty.left] at hpending ⊢
    omega
  | clears log duty clears =>
    -- What waited is now in the hands of the loop.
    refine .inr (Service.distance_lt (ahead_congr ?_ rfl) ?_)
    · rw [duty]
      cases clears <;> rfl
    · simp only [duty, clear, waiting, List.length_map, List.length_nil, Duty.left]
      omega
  | @concludes r requests failure onward duty =>
    refine .inr (Service.distance_lt (ahead_congr ?_ rfl) ?_)
    · rw [duty]
      cases onward <;> rfl
    · simp only [duty, conclude, Engine.complete, Duty.left, List.length_cons]
      omega
  | @goesOn failure onward duty =>
    cases onward with
    | drain => exact .inl trivial
    | take | stop =>
      refine .inr (Service.distance_lt (ahead_congr (by rw [duty]; rfl) rfl) ?_)
      simp [duty, Onward.duty, Duty.left]
  | flags duty stopping => cases hstopping.symm.trans stopping
  | releases duty stage =>
    have hpending : x.stopNext.engine.pending = x.engine.pending := (x.stage.move_frame x.engine).2.2.1
    refine .inr (Service.distance_lt (ahead_stopNext htold) ?_)
    rw [hpending, show x.stopNext.duty = .release from duty, duty]
    exact Nat.add_lt_add_left (left_move_lt htold stage x.engine) _
  | hasReleased duty stage =>
    refine .inr (Service.distance_lt (ahead_congr (by rw [duty]; rfl) rfl) ?_)
    rw [duty]
    rcases stage with hstage | hstage <;> simp [hstage, Duty.left, StopStage.left]
  | drains duty | drainsRequest duty =>
    left
    simp only [conclude, duty]
    trivial
  | ends duty => exact .inl trivial

/-- Where the loop is about to stop the engine, it comes nearer to that. -/
theorem Works.left_lt (h : x.Works y) (hleaving : x.duty.Leaving) (hstopping : x.engine.stopping = false) :
    y.engine.stopping = true ∨ y.duty.left y.stage < x.duty.left x.stage := by
  cases h with
  | rests idle =>
    rcases idle with ⟨hduty, -⟩ | hduty | ⟨fault, hduty⟩ <;>
      · rw [hduty] at hleaving
        exact hleaving.elim
  | concludes duty =>
    right
    simp [duty, Duty.left]
  | @goesOn failure onward duty =>
    rw [duty] at hleaving
    cases onward with
    | stop =>
      right
      simp [duty, Onward.duty, Duty.left]
    | take | drain => exact hleaving.elim
  | leaves duty stopping => cases hstopping.symm.trans stopping
  | flags => exact .inl rfl
  | takes duty | turnsAway duty | awaits duty | chokes duty | passesOver log duty | raises duty | replies log duty
  | clears log duty | sends connection duty | drops connection fault duty | releases duty | hasReleased duty
  | drains duty | drainsRequest duty | ends duty =>
    rw [duty] at hleaving
    exact hleaving.elim

/-! ### What stays -/

theorem Step.work_or_duty (h : Step x y) : y = x.work ∨ y.duty = x.duty :=
  h.threads.imp_right fun h => h.elim (congrArg Service.duty) Beside.duty

theorem Works.done (h : x.Works y) (hdone : x.duty.Done) : y.duty.Done := by
  cases h with
  | rests => exact hdone
  | drains => exact hdone
  | drainsRequest => exact hdone
  | ends => trivial
  | takes duty | turnsAway duty | awaits duty | chokes duty | passesOver log duty | raises duty | replies log duty
  | clears log duty | concludes duty | goesOn duty | sends connection duty | drops connection fault duty | leaves duty
  | flags duty | releases duty | hasReleased duty =>
    rw [duty] at hdone
    exact hdone.elim

theorem Step.done (h : Step x y) (hdone : x.duty.Done) (hsound : x.Sound) : y.duty.Done := by
  rcases h.work_or_duty with rfl | hduty
  · exact hsound.works.done hdone
  · rw [hduty]
    exact hdone

theorem Works.told (h : x.Works y) (htold : x.stage.Told) (hordered : x.Ordered) : y.stage.Told := by
  cases h with
  | releases => exact htold.move x.engine
  | flags duty stopping =>
    have hstage : x.stage ≠ .none := fun hnone => by rw [hnone] at htold; exact htold
    cases (hordered.stage hstage).symm.trans stopping
  | _ => exact htold

theorem Step.told (h : Step x y) (htold : x.stage.Told) (hordered : x.Ordered) (hsound : x.Sound) : y.stage.Told := by
  rcases h.threads with rfl | rfl | hbeside
  · exact hsound.works.told htold hordered
  · exact htold.move x.engine
  · rw [hbeside.stage]
    exact htold

/-- At the end every request has its end. -/
theorem unfinished_of_done (hdone : x.duty.Done) (hx : x.Finishing) (hdecided : x.Decided) : x.unfinished = [] := by
  have hpending := hdecided.cleared (.inr hdone.draining)
  have hqueued := hx.last hdone.draining.isEnding
  rw [unfinished, waiting, hpending, hqueued]
  cases hduty : x.duty <;> rw [hduty] at hdone <;> first | exact hdone.elim | rfl

end Service
end ScriptLink
