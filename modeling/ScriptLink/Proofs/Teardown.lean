import ScriptLink.Proofs.Callers
import ScriptLink.Proofs.ClosedFailures

/-! # What a torn down engine leaves behind

    An engine counts as stopped once somebody has begun to stop it or the loop has heard that the other end went away.
    Main statements: neither is taken back; the connection and the process are asked to end once, in this order; and a
    request that ends otherwise than by a closed failure was decided, by its reply or by an undecodable line, before
    anything in the queue told of the end. -/

namespace ScriptLink
open Relation

/-! ### Flags -/

namespace Service
variable {x y : Service} {e : Engine} {worker : Worker}

/-- The engine was started, and what makes it count as stopped is not taken back. -/
structure Keeps (x y : Service) : Prop where
  started : x.engine.started = true → y.engine.started = true
  stopping : x.engine.stopping = true → y.engine.stopping = true
  gone : x.engine.gone.isSome → y.engine.gone.isSome

theorem Keeps.stopped (h : x.Keeps y) (hx : x.engine.stopped = true) : y.engine.stopped = true := by
  simp only [Engine.stopped, Bool.or_eq_true] at hx ⊢
  exact hx.imp h.stopping h.gone

theorem keeps_stopNext (x : Service) : x.Keeps x.stopNext := by
  obtain ⟨hstarted, hgone, -, -⟩ := x.stage.move_frame x.engine
  refine ⟨?_, fun h => StopStage.stopping_move fun _ => h, ?_⟩
  · rw [stopNext, hstarted]
    exact id
  · rw [stopNext, hgone]
    exact id

theorem Works.keeps (h : x.Works y) : x.Keeps y := by
  cases h with
  | releases => exact keeps_stopNext x
  | clears log duty clears => cases clears <;> first | exact ⟨id, id, id⟩ | exact ⟨id, id, fun _ => rfl⟩
  | flags => exact ⟨id, fun _ => rfl, id⟩
  | _ => exact ⟨id, id, id⟩

theorem Step.keeps (h : Step x y) (hsound : x.Sound) : x.Keeps y := by
  rcases h.threads with rfl | rfl | hbeside
  · exact hsound.works.keeps
  · exact keeps_stopNext x
  · exact ⟨hbeside.started.trans, hbeside.stopping.trans, fun hgone => hbeside.gone ▸ hgone⟩

theorem keeps_of_reach (h : ReflTransGen Step x y) (hsound : x.Sound) : x.Keeps y := by
  induction h with
  | refl => exact ⟨id, id, id⟩
  | tail hreach hstep ih =>
    have hlast := hstep.keeps (hsound.reach hreach)
    exact ⟨hlast.started ∘ ih.started, hlast.stopping ∘ ih.stopping, hlast.gone ∘ ih.gone⟩

/-! ### What is asked of the connection and the process -/

end Service

/-- What a stop has asked by now. -/
def StopStage.calls (worker : Worker) : StopStage → List Call
  | .before | .none | .flagged | .told => []
  | .closed => [.closeConnection]
  | .done => .closeConnection :: worker.endCalls

theorem StopStage.calls_prefix (stage : StopStage) (worker : Worker) :
    stage.calls worker <+: .closeConnection :: worker.endCalls := by
  cases stage with
  | done => exact List.prefix_rfl
  | closed => exact ⟨_, rfl⟩
  | _ => exact List.nil_prefix

namespace Service
variable {x y : Service} {e : Engine} {worker : Worker}

/-- The engine has a connection and its process, and a stop has asked of them what it asks by its stage. -/
structure Demands (worker : Worker) (x : Service) : Prop where
  calls : x.engine.calls = x.stage.calls worker
  connection : x.engine.connection.isSome
  process : ∃ process, x.engine.process = some process ∧ process.stubborn = worker.stubborn

theorem Demands.stopNext (hx : x.Demands worker) : x.stopNext.Demands worker := by
  obtain ⟨hcalls, hconnection, process, hprocess, hstubborn⟩ := hx
  cases hstage : x.stage with
  | before | none | flagged | done =>
    simp only [Service.stopNext, hstage, StopStage.move]
    rw [hstage] at hcalls
    exact ⟨hcalls, hconnection, process, hprocess, hstubborn⟩
  | told =>
    simp only [Service.stopNext, hstage, StopStage.move, Engine.closeConnection_eq]
    rw [hstage] at hcalls
    obtain ⟨connection, hc⟩ := Option.isSome_iff_exists.mp hconnection
    refine ⟨?_, by rw [hc]; rfl, process, hprocess, hstubborn⟩
    rw [hcalls, hc]
    rfl
  | closed =>
    obtain ⟨log, hlog⟩ := x.engine.endProcess_eq
    simp only [Service.stopNext, hstage, StopStage.move, hlog]
    rw [hstage] at hcalls
    have hend : process.endCalls = worker.endCalls := by rw [Worker.endCalls, Worker.endCalls, hstubborn]
    refine ⟨?_, hconnection, process.ended (if process.stubborn then 9 else 15), by rw [hprocess]; rfl, ?_⟩
    · rw [hcalls, hprocess, Option.toList_some, List.flatMap_singleton, hend]
      rfl
    · rw [← hstubborn, Worker.ended]
      split <;> rfl

/-- A write leaves the connection there. -/
theorem isSome_connection_write (h : e.connection.isSome) (line : List UInt8) : (e.write line).1.connection.isSome := by
  obtain ⟨connection, hc⟩ := Option.isSome_iff_exists.mp h
  simp only [Engine.write, hc, Option.isSome_some]

theorem Works.demands (h : x.Works y) (hx : x.Demands worker) (hordered : x.Ordered) : y.Demands worker := by
  cases h with
  | releases => exact hx.stopNext
  | sends connection duty written | drops connection fault duty written =>
    exact ⟨hx.calls, by rw [written]; exact isSome_connection_write hx.connection _, hx.process⟩
  | flags duty stopping =>
    have hnone : x.stage = .none := by
      by_contra hstage
      rw [hordered.stage hstage] at stopping
      cases stopping
    refine ⟨?_, hx.connection, hx.process⟩
    have hcalls := hx.calls
    rw [hnone] at hcalls
    exact hcalls
  | _ => exact ⟨hx.calls, hx.connection, hx.process⟩

theorem Step.demands (h : Step x y) (hx : x.Demands worker) (hordered : x.Ordered) (hsound : x.Sound) :
    y.Demands worker := by
  cases h with
  | works => exact hsound.works.demands hx hordered
  | stops => exact hx.stopNext
  | @asks k inquiry name =>
    have hasks := asks_ask x k inquiry name
    generalize x.ask k inquiry name = y at hasks
    cases hasks <;> exact ⟨hx.calls, hx.connection, hx.process⟩
  | looks looks =>
    obtain ⟨process, hprocess, hstubborn⟩ := hx.process
    exact ⟨hx.calls, hx.connection, { process with looks := looks }, by rw [hprocess]; rfl, hstubborn⟩
  | meets => exact ⟨hx.calls, by rw [Option.isSome_map]; exact hx.connection, hx.process⟩
  | _ => exact ⟨hx.calls, hx.connection, hx.process⟩

theorem Run.demands (he : e.Fresh) (hworker : e.process = some worker) (h : Run e x) : x.Demands worker := by
  induction h with
  | refl =>
    refine ⟨?_, by rw [start, he.connection]; rfl, worker, hworker, rfl⟩
    rw [start, he.calls]
    cases e.stopping <;> rfl
  | tail hrun hstep ih => exact hstep.demands ih (Run.ordered he hrun) (Run.sound he hrun)

end Service

/-! ### What decides a request -/

/-- The event tells of the end. -/
def Event.Closes : Event → Prop
  | .closed _ | .finish => True
  | _ => False

/-- What completes a request otherwise than by a closed failure: its reply, and any line that cannot be decoded. -/
inductive Event.Decides (r : Request) : Event → Outcome → Prop
  | reply {content : Json} {outcome : Outcome} (reply : content.reply? = some (r.id, outcome)) :
      Decides r (.message (.ofJson content)) outcome
  | protocolError (words : Text) : Decides r (.protocolError words) (.error (.engine words))

/-- In the order of the queue such an event comes behind the request, and nothing before it tells of the end. -/
def DecidedEarly (heard : List Event) (r : Request) (outcome : Outcome) : Prop :=
  ∃ before middle event after, heard = before ++ .request r :: (middle ++ event :: after) ∧ event.Decides r outcome ∧
    ∀ earlier ∈ before ++ middle, ¬ earlier.Closes

theorem DecidedEarly.mono {heard : List Event} {r : Request} {outcome : Outcome} (h : DecidedEarly heard r outcome)
    (more : List Event) : DecidedEarly (heard ++ more) r outcome := by
  obtain ⟨before, middle, event, after, rfl, hdecides, hcalm⟩ := h
  refine ⟨before, middle, event, after ++ more, ?_, hdecides, hcalm⟩
  simp only [List.append_assoc, List.cons_append]

namespace Service
variable {x y : Service} {e : Engine}

/-- How every completed request came to its outcome, and what the loop needs to know about it. -/
structure Decided (x : Service) : Prop where
  calm : ¬ x.Closing → ∀ event ∈ x.taken, event.Closes → x.duty = .handle event
  cleared : x.Closing → x.engine.pending = []
  failing : ∀ requests failure onward, x.duty = .fail requests failure onward → requests = [] ∨
    (∃ words, failure = .closed words) ∨ ∃ words earlier, failure = .engine words ∧
      x.taken = earlier ++ [.protocolError words] ∧ ∀ event ∈ earlier, ¬ event.Closes
  completed : ∀ completion ∈ x.engine.completed, ∃ r ∈ x.asked, r.serial = completion.serial ∧
    (completion.outcome.IsClosed ∨ DecidedEarly x.heard r completion.outcome)

/-- The loop has taken every request that waits or that it has in its hands. -/
theorem Sound.request_mem_taken (h : x.Sound) {r : Request} (hm : r ∈ x.waiting ++ x.duty.requests) :
    .request r ∈ x.taken := by
  have hids := h.apart.ids
  rw [Service.unfinished, ← List.append_assoc, List.map_append] at hids
  have hunfinished : r ∈ x.unfinished := by
    rw [Service.unfinished, ← List.append_assoc]
    exact List.mem_append_left _ hm
  obtain ⟨event, hevent, hr⟩ := List.mem_filterMap.mp (h.unfinished hunfinished)
  obtain rfl : event = .request r := by
    cases event <;> cases hr
    rfl
  refine (List.mem_append.mp hevent).resolve_right fun hqueue => ?_
  have hqueued : r ∈ x.engine.queued := List.mem_filterMap.mpr ⟨_, hqueue, rfl⟩
  exact (List.nodup_append.mp hids).2.2 _ (List.mem_map_of_mem hm) _ (List.mem_map_of_mem hqueued) rfl

/-- A request that the loop has taken before the event at hand, which nothing precedes that tells of the end. -/
theorem decidedEarly_of_taken {earlier : List Event} {event : Event} {r : Request} {outcome : Outcome}
    (htaken : x.taken = earlier ++ [event]) (hr : .request r ∈ x.taken) (hdecides : event.Decides r outcome)
    (hcalm : ∀ other ∈ earlier, ¬ other.Closes) : DecidedEarly x.heard r outcome := by
  have hearlier : .request r ∈ earlier := by
    rw [htaken] at hr
    refine (List.mem_append.mp hr).resolve_right fun hlast => ?_
    rw [← List.mem_singleton.mp hlast] at hdecides
    cases hdecides
  obtain ⟨before, middle, rfl⟩ := List.append_of_mem hearlier
  refine ⟨before, middle, event, x.engine.queue, ?_, hdecides, fun other hm => hcalm other ?_⟩
  · rw [heard, htaken]
    simp only [List.append_assoc, List.cons_append, List.nil_append]
  · rcases List.mem_append.mp hm with hm | hm
    · exact List.mem_append_left _ hm
    · exact List.mem_append_right _ (List.mem_cons_of_mem _ hm)

/-- While a request waits, nothing the loop has taken before the event at hand tells of the end. -/
theorem Decided.calm_of_mem (hx : x.Decided) {r : Request} (hr : r ∈ x.waiting) {earlier : List Event} {event : Event}
    (htaken : x.taken = earlier ++ [event]) (hduty : x.duty = .handle event) (hcloses : ¬ event.Closes) :
    ∀ other ∈ earlier, ¬ other.Closes := by
  intro other hm hother
  have hopen : ¬ x.Closing := by
    intro hclosing
    rw [waiting, hx.cleared hclosing] at hr
    cases hr
  have hhand := hx.calm hopen other (by rw [htaken]; exact List.mem_append_left _ hm) hother
  obtain rfl := Duty.handle.inj (hduty.symm.trans hhand)
  exact hcloses hother

theorem Works.calm (h : x.Works y) (hx : x.Decided) (hopen : ¬ y.Closing) :
    ∀ event ∈ y.taken, event.Closes → y.duty = .handle event := by
  have hopen' : ¬ x.Closing := fun hclosing => hopen (h.closing hclosing)
  have hcalm := hx.calm hopen'
  -- What the loop has in its hands does not tell of the end, or it was no event.
  have hnone : (∀ event, event.Closes → x.duty ≠ .handle event) → ∀ event ∈ x.taken, event.Closes →
      y.duty = .handle event := fun hduty event hm hcloses => absurd (hcalm event hm hcloses) (hduty event hcloses)
  cases h with
  | rests => exact hcalm
  | takes duty queue =>
    intro event hm hcloses
    rcases List.mem_append.mp hm with hm | hm
    · exact Duty.noConfusion (duty.symm.trans (hcalm event hm hcloses))
    · rw [List.mem_singleton.mp hm]
  | clears log duty clears =>
    refine hnone fun event hcloses hhand => hopen ?_
    obtain rfl := Duty.handle.inj (duty.symm.trans hhand)
    cases clears with
    | finish => exact .inr trivial
    | closed reason => exact .inl rfl
    | protocolError words => exact hcloses.elim
  | turnsAway duty | awaits duty | chokes duty | passesOver log duty | raises duty | replies log duty =>
    refine hnone fun event hcloses hhand => ?_
    rw [← Duty.handle.inj (duty.symm.trans hhand)] at hcloses
    exact hcloses
  | concludes duty | goesOn duty | sends connection duty | drops connection fault duty | leaves duty | flags duty
  | releases duty | hasReleased duty =>
    exact hnone fun event _ hhand => Duty.noConfusion (duty.symm.trans hhand)
  | drains duty | drainsRequest duty | ends duty => exact absurd (.inr (by rw [duty]; trivial)) hopen'

theorem Works.cleared (h : x.Works y) (hx : x.Decided) (hclosing : y.Closing) : y.engine.pending = [] := by
  -- Where the flags and the loop's way out are as before.
  have hsame : x.Closing → x.engine.pending = [] := hx.cleared
  cases h with
  | clears => rfl
  | awaits duty gone | chokes duty gone =>
    rcases hclosing with hgone | hdraining
    · rw [show x.engine.gone = none from gone] at hgone
      cases hgone
    · exact hdraining.elim
  | replies log duty reply found =>
    have hnone := hsame (.inl (hclosing.resolve_right id))
    rw [hnone] at found
    cases found
  | drops connection fault duty =>
    have hnone := hsame (.inl (hclosing.resolve_right id))
    simp only [conclude, Engine.complete, Engine.forget, hnone, List.filter_nil]
  | takes | turnsAway | passesOver | raises | sends | leaves | flags | hasReleased =>
    exact hsame (.inl (hclosing.resolve_right id))
  | concludes duty | goesOn duty =>
    rename_i onward
    refine hsame (hclosing.imp_right fun hdraining => ?_)
    rw [duty]
    cases onward <;> exact hdraining
  | releases duty =>
    obtain ⟨-, hgone, hpending, -⟩ := x.stage.move_frame x.engine
    rw [stopNext, hpending]
    refine hsame (hclosing.imp_left fun h => ?_)
    rw [stopNext, hgone] at h
    exact h
  | rests | drains | drainsRequest => exact hsame hclosing
  | ends duty => exact hsame (.inr (by rw [duty]; trivial))

theorem Works.failing (h : x.Works y) (hx : x.Decided) (hsound : x.Sound) (requests : List Request) (failure : Failure)
    (onward : Onward) (hduty : y.duty = .fail requests failure onward) : requests = [] ∨
    (∃ words, failure = .closed words) ∨ ∃ words earlier, failure = .engine words ∧
      y.taken = earlier ++ [.protocolError words] ∧ ∀ event ∈ earlier, ¬ event.Closes := by
  cases h with
  | rests => exact hx.failing requests failure onward hduty
  | clears log duty clears =>
    obtain ⟨rfl, rfl, rfl⟩ := Duty.fail.inj hduty
    cases clears with
    | finish => exact .inr (.inl ⟨_, rfl⟩)
    | closed reason => exact .inr (.inl ⟨_, rfl⟩)
    | protocolError words =>
      refine or_iff_not_imp_left.mpr fun hnonempty => .inr ?_
      obtain ⟨r, hr⟩ := List.exists_mem_of_ne_nil _ hnonempty
      obtain ⟨earlier, htaken⟩ := hsound.inHand _ duty
      exact ⟨words, earlier, rfl, htaken, hx.calm_of_mem hr htaken duty id⟩
  | concludes duty =>
    obtain ⟨rfl, rfl, rfl⟩ := Duty.fail.inj hduty
    exact .inr ((hx.failing _ _ _ duty).resolve_left (List.cons_ne_nil _ _))
  | @goesOn failure onward => cases onward <;> cases hduty
  | drains duty | drainsRequest duty | releases duty => exact Duty.noConfusion (duty.symm.trans hduty)
  | _ => cases hduty

/-- One completion more, or none. -/
theorem Works.completion (h : x.Works y) (hx : x.Decided) (hsound : x.Sound) :
    y.engine.completed = x.engine.completed ∨ ∃ r ∈ x.unfinished, ∃ outcome : Outcome,
      y.engine.completed = x.engine.completed ++ [⟨r.serial, outcome⟩] ∧
      (outcome.IsClosed ∨ DecidedEarly x.heard r outcome) := by
  cases h with
  | turnsAway duty =>
    refine .inr ⟨_, ?_, _, rfl, .inl ⟨_, rfl⟩⟩
    rw [unfinished, duty]
    exact List.mem_append_right _ List.mem_cons_self
  | @replies content name r outcome log duty reply found =>
    have hentry := Members.mem_of_find? found
    have hr : r ∈ x.waiting := List.mem_map.mpr ⟨_, hentry, rfl⟩
    obtain ⟨earlier, htaken⟩ := hsound.inHand _ duty
    rw [show name = r.id from hsound.apart.names _ hentry] at reply
    exact .inr ⟨r, List.mem_append_left _ hr, outcome, rfl, .inr (decidedEarly_of_taken htaken
      (hsound.request_mem_taken (List.mem_append_left _ hr)) (.reply reply) (hx.calm_of_mem hr htaken duty id))⟩
  | @concludes r requests failure onward duty =>
    have hr : r ∈ x.duty.requests := by rw [duty]; exact List.mem_cons_self
    refine .inr ⟨r, List.mem_append_right _ (List.mem_append_left _ hr), _, rfl, ?_⟩
    rcases (hx.failing _ _ _ duty).resolve_left (List.cons_ne_nil _ _) with
      ⟨words, rfl⟩ | ⟨words, earlier, rfl, htaken, hcalm⟩
    · exact .inl ⟨words, rfl⟩
    · exact .inr (decidedEarly_of_taken htaken (hsound.request_mem_taken (List.mem_append_right _ hr))
        (.protocolError words) hcalm)
  | drops connection fault duty =>
    exact .inr ⟨_, List.mem_append_left _ (hsound.apart.mem_waiting_of_send duty), _, rfl, .inl ⟨_, rfl⟩⟩
  | @drainsRequest r rest duty queue =>
    refine .inr ⟨r, ?_, _, rfl, .inl ⟨_, rfl⟩⟩
    rw [unfinished, duty, queued_of_cons queue]
    exact List.mem_append_right _ List.mem_cons_self
  | releases => exact .inl (x.stage.move_frame x.engine).2.2.2
  | _ => exact .inl rfl

theorem Works.decided (h : x.Works y) (hx : x.Decided) (hsound : x.Sound) : y.Decided := by
  refine ⟨h.calm hx, h.cleared hx, h.failing hx hsound, ?_⟩
  obtain ⟨more, hheard, -⟩ := h.heard
  have hbefore : ∀ completion ∈ x.engine.completed, ∃ r ∈ y.asked, r.serial = completion.serial ∧
      (completion.outcome.IsClosed ∨ DecidedEarly y.heard r completion.outcome) := by
    intro completion hm
    obtain ⟨r, hr, hserial, hdecided⟩ := hx.completed completion hm
    rw [h.asked, hheard]
    exact ⟨r, hr, hserial, hdecided.imp_right (·.mono more)⟩
  rcases h.completion hx hsound with hsame | ⟨r, hr, outcome, hmore, hdecided⟩
  · rw [hsame]
    exact hbefore
  · rw [hmore]
    intro completion hm
    rcases List.mem_append.mp hm with hm | hm
    · exact hbefore completion hm
    · rw [List.mem_singleton.mp hm, h.asked, hheard]
      exact ⟨r, hsound.unfinished hr, rfl, hdecided.imp_right (·.mono more)⟩

/-- What is put into the queue, and whatever else leaves the loop alone. -/
theorem Decided.grow (hx : x.Decided) (more : List Event) (hheard : y.heard = x.heard ++ more)
    (htaken : y.taken = x.taken) (hduty : y.duty = x.duty) (hgone : y.engine.gone = x.engine.gone)
    (hpending : y.engine.pending = x.engine.pending) (hcompleted : y.engine.completed = x.engine.completed) :
    y.Decided := by
  have hclosing : y.Closing ↔ x.Closing := by rw [Closing, Closing, hgone, hduty]
  refine ⟨?_, ?_, ?_, ?_⟩
  · rw [hclosing, htaken, hduty]
    exact hx.calm
  · rw [hclosing, hpending]
    exact hx.cleared
  · rw [hduty, htaken]
    exact hx.failing
  · rw [hcompleted, asked_of_heard hheard, hheard]
    intro completion hm
    obtain ⟨r, hr, hserial, hdecided⟩ := hx.completed completion hm
    exact ⟨r, List.mem_append_left _ hr, hserial, hdecided.imp_right (·.mono more)⟩

theorem Step.decided (h : Step x y) (hx : x.Decided) (hsound : x.Sound) : y.Decided := by
  rcases h.threads with rfl | rfl | hbeside
  · exact hsound.works.decided hx hsound
  · obtain ⟨more, hheard, -⟩ := heard_stopNext x
    obtain ⟨-, hgone, hpending, hcompleted⟩ := x.stage.move_frame x.engine
    exact hx.grow more hheard rfl rfl hgone hpending hcompleted
  · obtain ⟨more, hqueue, -, -⟩ := hbeside.queue
    refine hx.grow more ?_ hbeside.taken hbeside.duty hbeside.gone hbeside.pending hbeside.completed
    rw [heard, heard, hbeside.taken, hqueue, List.append_assoc]

theorem Run.decided (he : e.Fresh) (h : Run e x) : x.Decided := by
  induction h with
  | refl =>
    refine ⟨fun _ => List.forall_mem_nil _, fun _ => he.pending, fun _ _ _ => Duty.noConfusion, ?_⟩
    rw [start, he.completed]
    exact List.forall_mem_nil _
  | tail hrun hstep ih => exact hstep.decided ih (Run.sound he hrun)

end Service
end ScriptLink
