import ScriptLink.Proofs.Threads

/-! # What a closed failure tells

    Callers take a closed failure as the sign that a context is of no use any more. The loop fails requests so when it
    takes a finish, when the other end went away, when it empties the queue behind a finish, and when a send fails. Main
    statement: in every run, each closed failure but those of failed sends came when the engine counted as stopped, and
    nothing was sent behind it; so all of them are final exactly where those of the failed sends are. -/

namespace ScriptLink
open Relation

/-- The failure tells that the context is closed. -/
def Outcome.IsClosed (outcome : Outcome) : Prop := ∃ words, outcome = .error (.closed words)

theorem Json.not_isClosed_of_reply? {content : Json} {id : Text} {outcome : Outcome}
    (h : content.reply? = some (id, outcome)) : ¬ outcome.IsClosed := by
  rw [Json.reply?_eq] at h
  obtain ⟨⟨answer, value⟩, -, h⟩ := Option.bind_eq_some_iff.mp h
  obtain ⟨name, -, h⟩ := Option.map_eq_some_iff.mp h
  obtain ⟨rfl, rfl⟩ := Prod.mk.inj h
  rintro ⟨words, hwords⟩
  cases answer <;> cases hwords

/-- The note is of a line that was written. -/
def Note.IsSend : Note → Prop
  | .sent _ _ => True
  | .ended _ _ => False

/-- The loop is on its way out. -/
def Duty.Draining : Duty → Prop
  | .fail _ _ .drain | .drain | .over => True
  | _ => False

/-- The loop takes the next event, or will do nothing any more. -/
def Duty.Calm : Duty → Prop
  | .take | .raised _ => True
  | _ => False

namespace Service
variable {x y : Service} {e : Engine} {before after later : List Note} {completion : Completion} {stopped : Bool}

/-- The engine counted as stopped, and nothing was sent from then on. -/
def IsFinal (stopped : Bool) (after : List Note) : Prop :=
  stopped = true ∧ ∀ note ∈ after, ¬ note.IsSend

/-- The notes end with a send that failed. -/
def EndsInFailedSend (before : List Note) : Prop :=
  ∃ earlier r fault, before = earlier ++ [.sent r (some fault)]

/-- Every closed failure of a history is final. -/
def ClosedIsFinal (history : List Note) : Prop :=
  ∀ before completion stopped after, history = before ++ .ended completion stopped :: after →
    completion.outcome.IsClosed → IsFinal stopped after

/-- Those of failed sends are final. -/
def FailedSendsAreFinal (history : List Note) : Prop :=
  ∀ before completion stopped after, history = before ++ .ended completion stopped :: after →
    completion.outcome.IsClosed → EndsInFailedSend before → IsFinal stopped after

/-- Nothing will be sent any more. -/
def Closing (x : Service) : Prop :=
  x.engine.gone.isSome ∨ x.duty.Draining

/-! ### The history -/

/-- A closed failure is that of a failed send, or final, and then nothing will be sent any more. -/
def Telling (closing : Prop) (history : List Note) : Prop :=
  ∀ before completion stopped after, history = before ++ .ended completion stopped :: after →
    completion.outcome.IsClosed → EndsInFailedSend before ∨ closing ∧ IsFinal stopped after

/-- Where the last note was written. -/
theorem split_concat {history : List Note} {note : Note}
    (h : history ++ [note] = before ++ .ended completion stopped :: after) :
    before = history ∧ note = .ended completion stopped ∧ after = [] ∨
      ∃ middle, after = middle ++ [note] ∧ history = before ++ .ended completion stopped :: middle := by
  rcases List.eq_nil_or_concat after with rfl | ⟨middle, last, rfl⟩
  · left
    obtain ⟨hhistory, hnote⟩ := List.append_inj' h rfl
    exact ⟨hhistory.symm, List.singleton_inj.mp hnote, rfl⟩
  · right
    rw [List.concat_eq_append, ← List.cons_append, ← List.append_assoc] at h
    obtain ⟨hhistory, hnote⟩ := List.append_inj' h rfl
    exact ⟨middle, by rw [List.concat_eq_append, List.singleton_inj.mp hnote], hhistory⟩

namespace Telling
variable {closing later : Prop} {history : List Note}

theorem mono (h : Telling closing history) (hlater : closing → later) : Telling later history :=
  fun before completion stopped after hsplit hclosed => (h before completion stopped after hsplit hclosed).imp_right
    (And.imp_left hlater)

theorem ended {new : Completion} {now : Bool} (h : Telling closing history) (hlater : closing → later)
    (hnew : new.outcome.IsClosed → EndsInFailedSend history ∨ later ∧ now = true) :
    Telling later (history ++ [.ended new now]) := by
  intro before completion stopped after hsplit hclosed
  rcases split_concat hsplit with ⟨rfl, hnote, rfl⟩ | ⟨middle, rfl, hhistory⟩
  · obtain ⟨rfl, rfl⟩ := Note.ended.inj hnote
    exact (hnew hclosed).imp_right fun hfinal => ⟨hfinal.1, hfinal.2, List.forall_mem_nil _⟩
  · refine (h before completion stopped middle hhistory hclosed).imp_right ?_
    rintro ⟨hclosing, hstopped, hsilent⟩
    refine ⟨hlater hclosing, hstopped, fun note hm => ?_⟩
    rcases List.mem_append.mp hm with hm | hm
    · exact hsilent note hm
    · rw [List.mem_singleton.mp hm]
      exact id

theorem sent {r : Request} {fault : Option SystemFault} (h : Telling closing history) (hopen : ¬ closing) :
    Telling closing (history ++ [.sent r fault]) := by
  intro before completion stopped after hsplit hclosed
  rcases split_concat hsplit with ⟨-, hnote, -⟩ | ⟨middle, rfl, hhistory⟩
  · cases hnote
  · exact .inl ((h before completion stopped middle hhistory hclosed).resolve_right fun hboth => hopen hboth.1)

end Telling

/-! ### The moves -/

/-- What the loop does when, and what it has done. -/
structure Ordered (x : Service) : Prop where
  stage : x.stage ≠ .none → x.engine.stopping = true
  queued : .finish ∈ x.engine.queue → x.engine.stopping = true
  inHand : x.duty = .handle .finish → x.engine.stopping = true
  draining : x.duty.Draining → x.engine.stopping = true
  failing : ∀ requests failure onward, x.duty = .fail requests failure onward →
    (∃ words, failure = .engine words) ∨ x.Closing
  sending : ∀ r line, x.duty = .send r line → x.engine.gone = none
  telling : Telling x.Closing x.history

theorem Ordered.stopped_of_closing (h : x.Ordered) (hclosing : x.Closing) : x.engine.stopped = true := by
  rcases hclosing with hgone | hdraining
  · simp [Engine.stopped, hgone]
  · simp [Engine.stopped, h.draining hdraining]

/-- Whatever ends while nothing will be sent any more has its final end. -/
theorem Ordered.telling_ended {later : Prop} {new : Completion} (h : x.Ordered) (hlater : x.Closing → later)
    (hclosing : x.Closing) : Telling later (x.history ++ [.ended new x.engine.stopped]) :=
  h.telling.ended hlater fun _ => .inr ⟨hlater hclosing, h.stopped_of_closing hclosing⟩

/-- The loop does not come back once nothing will be sent any more. -/
theorem Works.closing (h : x.Works y) (hx : x.Closing) : y.Closing := by
  rcases hx with hgone | hdraining
  · left
    cases h with
    | clears log duty clears => cases clears <;> first | exact hgone | rfl
    | releases =>
      rw [stopNext, (x.stage.move_frame x.engine).2.1]
      exact hgone
    | _ => exact hgone
  · right
    cases h with
    | rests => exact hdraining
    | concludes duty | goesOn duty =>
      rename_i onward
      rw [duty] at hdraining
      cases onward <;> exact hdraining
    | drains | drainsRequest => exact hdraining
    | ends => trivial
    | takes duty | turnsAway duty | awaits duty | chokes duty | passesOver log duty | raises duty | replies log duty
    | clears log duty | sends connection duty | drops connection fault duty | leaves duty | flags duty | releases duty
    | hasReleased duty =>
      rw [duty] at hdraining
      exact hdraining.elim

theorem stopping_stopNext (hx : x.Ordered) : x.stopNext.engine.stopping = true :=
  StopStage.stopping_move hx.stage

theorem Ordered.stopNext (hx : x.Ordered) : x.stopNext.Ordered := by
  have hstopping := stopping_stopNext hx
  have hgone : x.stopNext.engine.gone = x.engine.gone := (x.stage.move_frame x.engine).2.1
  have hclosing : x.stopNext.Closing ↔ x.Closing := by
    rw [Closing, hgone]
    rfl
  refine ⟨fun _ => hstopping, fun _ => hstopping, fun _ => hstopping, fun _ => hstopping, ?_, ?_, ?_⟩
  · intro requests failure onward hduty
    exact (hx.failing requests failure onward hduty).imp_right hclosing.mpr
  · intro r line hduty
    exact hgone.trans (hx.sending r line hduty)
  · exact hx.telling.mono hclosing.mpr

theorem Ordered.calm (hx : x.Ordered) (hstage : y.stage = x.stage)
    (hstopping : y.engine.stopping = x.engine.stopping) (hqueue : y.engine.queue = x.engine.queue)
    (hduty : y.duty.Calm) (htelling : Telling y.Closing y.history) : y.Ordered where
  stage := by
    rw [hstage, hstopping]
    exact hx.stage
  queued := by
    rw [hqueue, hstopping]
    exact hx.queued
  inHand h := by
    rw [h] at hduty
    exact hduty.elim
  draining h := by
    cases hd : y.duty <;> rw [hd] at h hduty <;> first | exact h.elim | exact hduty.elim
  failing _ _ _ h := by
    rw [h] at hduty
    exact hduty.elim
  sending _ _ h := by
    rw [h] at hduty
    exact hduty.elim
  telling := htelling

/-- Once the engine is stopped, only what was failed or is being sent is left to look at. -/
theorem ordered_of_stopping (hs : y.engine.stopping = true)
    (hfails : ∀ requests failure onward, y.duty ≠ .fail requests failure onward) (hsends : ∀ r line, y.duty ≠ .send r line)
    (htelling : Telling y.Closing y.history) : y.Ordered where
  stage _ := hs
  queued _ := hs
  inHand _ := hs
  draining _ := hs
  failing requests failure onward h := absurd h (hfails requests failure onward)
  sending r line h := absurd h (hsends r line)
  telling := htelling

theorem Ordered.not_closing (hx : x.Ordered) {r : Request} {line : List UInt8} (hduty : x.duty = .send r line) :
    ¬ x.Closing := by
  rintro (hgone | hdraining)
  · rw [hx.sending r line hduty] at hgone
    cases hgone
  · rw [hduty] at hdraining
    exact hdraining

theorem Works.ordered (h : x.Works y) (hx : x.Ordered) : y.Ordered := by
  have hclosing := h.closing
  cases h with
  | rests => exact hx
  | releases => exact hx.stopNext
  | takes duty queue =>
    refine ⟨hx.stage, fun hm => ?_, fun hfinish => ?_, False.elim, fun _ _ _ => Duty.noConfusion,
      fun _ _ => Duty.noConfusion, hx.telling.mono hclosing⟩
    · exact hx.queued (by rw [queue]; exact List.mem_cons_of_mem _ hm)
    · exact hx.queued (by rw [queue, Duty.handle.inj hfinish]; exact List.mem_cons_self)
  | turnsAway duty gone =>
    exact hx.calm rfl rfl rfl trivial (hx.telling_ended hclosing (.inl (by rw [gone]; rfl)))
  | awaits duty gone writes =>
    refine ⟨hx.stage, hx.queued, Duty.noConfusion, False.elim, fun _ _ _ => Duty.noConfusion, fun _ _ _ => gone,
      hx.telling.mono hclosing⟩
  | chokes | passesOver | raises | leaves | hasReleased =>
    exact hx.calm rfl rfl rfl trivial (hx.telling.mono hclosing)
  | replies log duty reply found =>
    exact hx.calm rfl rfl rfl trivial
      (hx.telling.ended hclosing fun hclosed => absurd hclosed (Json.not_isClosed_of_reply? reply))
  | clears log duty clears =>
    refine ⟨hx.stage, hx.queued, Duty.noConfusion, ?_, ?_, fun _ _ => Duty.noConfusion, hx.telling.mono hclosing⟩ <;>
      cases clears
    · exact fun _ => hx.inHand duty
    · exact False.elim
    · exact False.elim
    · exact fun _ _ _ _ => .inr (.inr trivial)
    · exact fun _ _ _ _ => .inr (.inl rfl)
    · rintro _ _ _ ⟨⟩
      exact .inl ⟨_, rfl⟩
  | @concludes r requests failure onward duty =>
    -- What fails here either fails by an error of the engine, or nothing will be sent any more.
    have hdraining : x.duty.Draining ↔ (Duty.fail requests failure onward).Draining := by rw [duty]; cases onward <;> rfl
    have hfailing := hx.failing _ _ _ duty
    refine ⟨hx.stage, hx.queued, Duty.noConfusion, fun h => hx.draining (hdraining.mpr h), ?_,
      fun _ _ => Duty.noConfusion, hx.telling.ended hclosing ?_⟩
    · rintro _ _ _ ⟨⟩
      exact hfailing.imp_right hclosing
    · rintro ⟨words, hwords⟩
      obtain rfl := Except.error.inj hwords
      obtain ⟨other, hother⟩ | hx' := hfailing
      · cases hother
      · exact .inr ⟨hclosing hx', hx.stopped_of_closing hx'⟩
  | @goesOn failure onward duty =>
    cases onward with
    | take => exact hx.calm rfl rfl rfl trivial (hx.telling.mono hclosing)
    | stop =>
      exact ⟨hx.stage, hx.queued, Duty.noConfusion, False.elim, fun _ _ _ => Duty.noConfusion,
        fun _ _ => Duty.noConfusion, hx.telling.mono hclosing⟩
    | drain =>
      exact ⟨hx.stage, hx.queued, Duty.noConfusion, fun _ => hx.draining (by rw [duty]; trivial),
        fun _ _ _ => Duty.noConfusion, fun _ _ => Duty.noConfusion, hx.telling.mono hclosing⟩
  | sends connection duty =>
    exact hx.calm rfl rfl rfl trivial ((hx.telling.sent (hx.not_closing duty)).mono hclosing)
  | drops connection fault duty =>
    exact hx.calm rfl rfl rfl trivial ((hx.telling.sent (hx.not_closing duty)).ended hclosing fun _ =>
      .inl ⟨_, _, _, rfl⟩)
  | flags duty stopping =>
    exact ordered_of_stopping rfl (fun _ _ _ => Duty.noConfusion) (fun _ _ => Duty.noConfusion)
      (hx.telling.mono hclosing)
  | drains duty queue brings =>
    exact ordered_of_stopping (hx.draining (by rw [duty]; trivial)) (fun _ _ _ h => Duty.noConfusion (duty.symm.trans h))
      (fun _ _ h => Duty.noConfusion (duty.symm.trans h)) (hx.telling.mono hclosing)
  | drainsRequest duty queue =>
    have hdraining : x.duty.Draining := by rw [duty]; trivial
    exact ordered_of_stopping (hx.draining hdraining) (fun _ _ _ h => Duty.noConfusion (duty.symm.trans h))
      (fun _ _ h => Duty.noConfusion (duty.symm.trans h)) (hx.telling_ended hclosing (.inr hdraining))
  | ends duty queue =>
    exact ordered_of_stopping (hx.draining (by rw [duty]; trivial)) (fun _ _ _ => Duty.noConfusion)
      (fun _ _ => Duty.noConfusion) (hx.telling.mono hclosing)

theorem Beside.ordered (h : x.Beside y) (hx : x.Ordered) : y.Ordered := by
  obtain ⟨more, hqueue, hmore, -⟩ := h.queue
  have hclosing : y.Closing ↔ x.Closing := by rw [Closing, Closing, h.gone, h.duty]
  refine ⟨?_, ?_, ?_, ?_, ?_, ?_, ?_⟩
  · rw [h.stage, h.stopping]
    exact hx.stage
  · rw [hqueue, h.stopping]
    exact fun hm => hx.queued ((List.mem_append.mp hm).resolve_right hmore)
  · rw [h.duty, h.stopping]
    exact hx.inHand
  · rw [h.duty, h.stopping]
    exact hx.draining
  · rw [h.duty, hclosing]
    exact hx.failing
  · rw [h.duty, h.gone]
    exact hx.sending
  · rw [h.history]
    exact hx.telling.mono hclosing.mpr

theorem Step.ordered (h : Step x y) (hx : x.Ordered) (hsound : x.Sound) : y.Ordered := by
  rcases h.threads with rfl | rfl | hbeside
  · exact hsound.works.ordered hx
  · exact hx.stopNext
  · exact hbeside.ordered hx

theorem Run.ordered (he : e.Fresh) (h : Run e x) : x.Ordered := by
  induction h with
  | refl =>
    refine ⟨?_, ?_, Duty.noConfusion, False.elim, fun _ _ _ => Duty.noConfusion, fun _ _ => Duty.noConfusion, ?_⟩
    · intro hstage
      by_contra hs
      exact hstage (if_neg hs)
    · exact fun hm => (finish_of_fresh he hm).2
    · intro before completion stopped after hsplit
      cases before <;> cases hsplit
  | tail hrun hstep ih => exact hstep.ordered ih (Run.sound he hrun)

theorem closedIsFinal_of_failedSends (he : e.Fresh) (h : Run e x) (hsends : FailedSendsAreFinal x.history) :
    ClosedIsFinal x.history := by
  intro before completion stopped after hsplit hclosed
  rcases (Run.ordered he h).telling before completion stopped after hsplit hclosed with hsend | hfinal
  · exact hsends before completion stopped after hsplit hclosed hsend
  · exact hfinal.2

/-- Whatever is done with a started engine is a run of its threads. In every run a closed failure comes when the engine
    counts as stopped, and nothing is sent behind it, unless it is that of a failed send; so all closed failures tell the
    truth exactly where those of failed sends do. -/
theorem closedIsFinal_iff {machine : Machine} {site site' : Site} (huntried : site.engine.Untried)
    (hstart : site.start machine = (.ok (), site')) :
    (∀ ids, Function.Injective ids → ∀ deeds, ∃ x, Run site'.engine x ∧
      ((Session.idle site ids).afterAll (.start machine :: deeds)).Mirrors x) ∧
    ∀ x, Run site'.engine x →
      (∀ before completion stopped after, x.history = before ++ .ended completion stopped :: after →
        completion.outcome.IsClosed → ¬ EndsInFailedSend before → IsFinal stopped after) ∧
      (ClosedIsFinal x.history ↔ FailedSendsAreFinal x.history) := by
  have hfresh := Engine.fresh_of_start huntried hstart
  refine ⟨fun ids hids deeds => Session.exists_run_afterAll huntried hstart hids deeds, fun x hrun => ⟨?_, ?_, ?_⟩⟩
  · intro before completion stopped after hsplit hclosed hsend
    have htelling := (Run.ordered hfresh hrun).telling before completion stopped after hsplit hclosed
    exact (htelling.resolve_left hsend).2
  · exact fun hall before completion stopped after hsplit hclosed _ =>
      hall before completion stopped after hsplit hclosed
  · exact closedIsFinal_of_failedSends hfresh hrun

/-! A request that waits when the connection is lost, and two requests of which the first meets a full buffer: it is
    told that the context is closed, and the second is sent. -/

/-- A site with an engine that was started. -/
def connected : Site := (Session.prepared.start Session.connecting).2

/-- A request of a type that means nothing. -/
def ping : Inquiry := .ask (.text (.ofString "ping")) (.scalar .none)

/-- The service after one more caller and so many moves of the loop. -/
def serve (x : Service) (moves : Nat) : Service :=
  work^[moves] ((x.begin ping).ask x.callers.length ping (.ofNat x.callers.length))

theorem run_works (h : Run e x) (moves : Nat) : Run e (work^[moves] x) := by
  induction moves generalizing x with
  | zero => exact h
  | succ moves ih => exact ih (h.tail (.works x))

theorem run_serve (h : Run e x) (hnone : x.unfinished = []) (moves : Nat) : Run e (x.serve moves) := by
  refine run_works ((h.tail (.begins x ping)).tail (.asks _ ?_ ?_)) moves
  · simp [begin, standing, ping]
  · have hsame : (x.begin ping).unfinished = x.unfinished := rfl
    rw [hsame, hnone]
    exact List.forall_mem_nil _

/-- The service that has sent a request and then loses its connection. -/
def lost : Service :=
  let served := (start connected.engine).serve 3
  work^[3] { served with engine := served.engine.enqueue (.closed (.ofString "connection lost")) }

theorem lost_isFinal : ∃ r words, lost.history = [.sent r none, .ended ⟨0, .error (.closed words)⟩ true] ∧
    IsFinal true [] ∧ (ClosedIsFinal lost.history ↔ FailedSendsAreFinal lost.history) := by
  have hstart : Session.prepared.start Session.connecting = (.ok (), connected) := rfl
  have hrun : Run connected.engine lost := run_works ((run_serve .refl rfl 3).tail (.loses _ _)) 3
  obtain ⟨hfinal, hiff⟩ := (closedIsFinal_iff (.inl rfl) hstart).2 lost hrun
  obtain ⟨r, words, hhistory⟩ :
      ∃ r words, lost.history = [.sent r none, .ended ⟨0, .error (.closed words)⟩ true] := ⟨_, _, rfl⟩
  refine ⟨r, words, hhistory, hfinal [.sent r none] _ true [] hhistory ⟨words, rfl⟩ ?_, hiff⟩
  rintro ⟨earlier, other, fault, hsend⟩
  obtain ⟨-, hlast⟩ := List.append_inj' (List.nil_append [Note.sent r none] |>.trans hsend) rfl
  cases hlast

/-- The service whose connection takes nothing of the next line. -/
def full : Service :=
  let x := start connected.engine
  { x with engine := { x.engine with connection := x.engine.connection.map fun connection =>
    { connection with obstacles := [some ⟨.plain 11 (.ofString "Resource temporarily unavailable"), 0⟩] } } }

/-- The service that has met the full buffer with its first request and has sent its second one. -/
def blocked : Service := (full.serve 3).serve 3

theorem blocked_misleads : Run connected.engine blocked ∧ blocked.engine.stopped = false ∧
    (∃ first fault words second, blocked.history =
      [.sent first (some fault), .ended ⟨0, .error (.closed words)⟩ false, .sent second none]) ∧
    ¬ ClosedIsFinal blocked.history := by
  have hfull : Run connected.engine full := .single (.meets _ _)
  have hrun : Run connected.engine blocked := run_serve (run_serve hfull rfl 3) rfl 3
  obtain ⟨first, fault, words, second, hhistory⟩ : ∃ first fault words second, blocked.history =
      [.sent first (some fault), .ended ⟨0, .error (.closed words)⟩ false, .sent second none] := ⟨_, _, _, _, rfl⟩
  refine ⟨hrun, rfl, ⟨first, fault, words, second, hhistory⟩, fun hall => ?_⟩
  obtain ⟨hstopped, -⟩ := hall [.sent first (some fault)] _ false _ hhistory ⟨words, rfl⟩
  cases hstopped

end Service
end ScriptLink
