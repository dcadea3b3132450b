import ScriptLink.Proofs.Custody

/-! # Callers and their requests

    An inquiry that was begun is turned away, or its request is put into the queue; neither is ever taken back. Main
    statements: every request is that of a caller who waits for it, and everything written is the beginning of the line
    of a request. So an inquiry that is turned away writes nothing. -/

namespace ScriptLink
open Relation

/-- What a standing can become. -/
inductive Standing.Becomes : Standing → Standing → Prop
  | stays (standing : Standing) : Becomes standing standing
  | waits (serial : Nat) : Becomes .admitted (.waits serial)
  | fails (words : Text) : Becomes .admitted (.failed (.closed words))

theorem Standing.Becomes.trans {standing later latest : Standing} (h : standing.Becomes later)
    (hlater : later.Becomes latest) : standing.Becomes latest := by
  cases h with
  | stays => exact hlater
  | waits serial =>
    cases hlater
    exact .waits serial
  | fails words =>
    cases hlater
    exact .fails words

namespace Service
variable {x y : Service} {e : Engine} {inquiry : Inquiry} {standing : Standing} {id : Text} {k : Nat}

/-! ### One step -/

theorem Works.callers (h : x.Works y) : y.callers = x.callers := by
  cases h <;> rfl

theorem Works.asked (h : x.Works y) : y.asked = x.asked := by
  obtain ⟨more, hheard, hfinish⟩ := h.heard
  exact asked_of_finishes hheard fun event hm => by rw [hfinish event hm]; rfl

/-- An admitted caller gets a standing, and the others keep theirs. -/
theorem becomes_set {other : Inquiry} {later : Standing} {j : Nat} (hadmitted : x.callers[j]? = some (other, .admitted))
    (hlater : Standing.admitted.Becomes later) (hk : x.callers[k]? = some (inquiry, standing)) :
    ∃ later', (x.callers.set j (other, later))[k]? = some (inquiry, later') ∧ standing.Becomes later' := by
  rcases eq_or_ne j k with rfl | hne
  · obtain ⟨rfl, rfl⟩ := Prod.mk.inj (Option.some.inj (hadmitted.symm.trans hk))
    exact ⟨later, List.getElem?_set_self (List.getElem?_eq_some_iff.mp hk).1, hlater⟩
  · exact ⟨standing, (List.getElem?_set_ne hne).trans hk, .stays _⟩

theorem Step.becomes (h : Step x y) (hsound : x.Sound) (hk : x.callers[k]? = some (inquiry, standing)) :
    ∃ later, y.callers[k]? = some (inquiry, later) ∧ standing.Becomes later := by
  cases h with
  | works =>
    rw [hsound.works.callers]
    exact ⟨standing, hk, .stays _⟩
  | begins other =>
    exact ⟨standing, (List.getElem?_append_left (List.getElem?_eq_some_iff.mp hk).1).trans hk, .stays _⟩
  | @asks j other id admitted apart =>
    have hasks := asks_ask x j other id
    generalize x.ask j other id = y at hasks
    cases hasks with
    | turnsAway => exact becomes_set admitted (.fails _) hk
    | puts => exact becomes_set admitted (.waits _) hk
    | rests => exact ⟨standing, hk, .stays _⟩
  | stops | hears | loses | looks | meets => exact ⟨standing, hk, .stays _⟩

theorem becomes_of_reach (h : ReflTransGen Step x y) (hsound : x.Sound)
    (hk : x.callers[k]? = some (inquiry, standing)) :
    ∃ later, y.callers[k]? = some (inquiry, later) ∧ standing.Becomes later := by
  induction h with
  | refl => exact ⟨standing, hk, .stays _⟩
  | tail hreach hstep ih =>
    obtain ⟨later, hy, hbecomes⟩ := ih
    obtain ⟨latest, hz, hbecomes'⟩ := hstep.becomes (hsound.reach hreach) hy
    exact ⟨latest, hz, hbecomes.trans hbecomes'⟩

/-! ### What is written -/

theorem written_of_connection {e e' : Engine} (h : e'.connection.map Connection.written =
    e.connection.map Connection.written) : e'.written = e.written := by
  rw [Engine.written, Engine.written]
  cases hc : e.connection <;> cases hc' : e'.connection <;> rw [hc, hc'] at h <;> simp_all

theorem written_stopNext (x : Service) : x.stopNext.engine.written = x.engine.written := by
  simp only [stopNext]
  cases x.stage with
  | told =>
    rw [StopStage.move, Engine.closeConnection_eq]
    refine written_of_connection ?_
    simp [Option.map_map, Function.comp_def]
  | closed =>
    obtain ⟨log, hlog⟩ := x.engine.endProcess_eq
    rw [StopStage.move, hlog]
    rfl
  | _ => rfl

/-- A write passes on a beginning of the line, if there is a connection. -/
theorem written_write (e : Engine) (line : List UInt8) : (e.write line).1.written = e.written ∨
    ∃ bytes, bytes <+: line ∧ (e.write line).1.written = e.written ++ [bytes] := by
  rcases hc : e.connection with _ | connection
  · left
    simp only [Engine.write, hc]
  · right
    refine ⟨Send.passed ⟨line, connection.obstacles.head?.join⟩, ?_, ?_⟩
    · unfold Send.passed
      split
      · exact List.prefix_rfl
      · exact List.take_prefix _ _
    · simp only [Engine.write, hc, Connection.write_eq, Engine.written, Option.elim_some]

theorem Works.written (h : x.Works y) : y.engine.written = x.engine.written ∨
    ∃ r line bytes, x.duty = .send r line ∧ bytes <+: line ∧ y.engine.written = x.engine.written ++ [bytes] := by
  cases h with
  | releases => exact .inl (written_stopNext x)
  | @sends r line connection duty written | @drops r line connection fault duty written =>
    subst written
    rcases written_write x.engine line with hsame | ⟨bytes, hprefix, hmore⟩
    · exact .inl hsame
    · exact .inr ⟨r, line, bytes, duty, hprefix, hmore⟩
  | _ => exact .inl rfl

/-- Every request has a caller who waits for it, and what was written are beginnings of the lines of requests. -/
structure Owned (x : Service) : Prop where
  waits : ∀ (k : Nat) (inquiry : Inquiry) (serial : Nat), x.callers[k]? = some (inquiry, .waits serial) →
    ∃ r ∈ x.asked, r.serial = serial ∧ inquiry.request? serial r.id = some r
  asked : ∀ r ∈ x.asked, ∃ (k : Nat) (inquiry : Inquiry), x.callers[k]? = some (inquiry, .waits r.serial) ∧
    inquiry.request? r.serial r.id = some r
  turnedAway : ∀ (k : Nat) (inquiry : Inquiry) (failure : Failure), x.callers[k]? = some (inquiry, .failed failure) →
    (∃ words, failure = .closed words) ∨ ¬ inquiry.Acceptable
  sending : ∀ r line, x.duty = .send r line → r.line = .ok line
  written : ∀ bytes ∈ x.engine.written, ∃ r ∈ x.asked, ∃ line, r.line = .ok line ∧ bytes <+: line

theorem Works.sending (h : x.Works y) (hx : x.Owned) (r : Request) (line : List UInt8) (hduty : y.duty = .send r line) :
    r.line = .ok line := by
  cases h with
  | awaits duty gone writes =>
    obtain ⟨rfl, rfl⟩ := Duty.send.inj hduty
    exact writes
  | rests => exact hx.sending r line hduty
  | drains duty | drainsRequest duty | releases duty => exact Duty.noConfusion (duty.symm.trans hduty)
  | @goesOn failure onward => cases onward <;> cases hduty
  | _ => cases hduty

theorem Works.owned (h : x.Works y) (hx : x.Owned) (hsound : x.Sound) : y.Owned := by
  refine ⟨?_, ?_, ?_, h.sending hx, ?_⟩
  · rw [h.callers, h.asked]
    exact hx.waits
  · rw [h.callers, h.asked]
    exact hx.asked
  · rw [h.callers]
    exact hx.turnedAway
  · rw [h.asked]
    rcases h.written with hsame | ⟨r, line, bytes, hduty, hprefix, hmore⟩
    · rw [hsame]
      exact hx.written
    · rw [hmore]
      intro other hm
      rcases List.mem_append.mp hm with hm | hm
      · exact hx.written other hm
      · obtain rfl := List.mem_singleton.mp hm
        have hwaits := hsound.apart.mem_waiting_of_send hduty
        exact ⟨r, hsound.unfinished (List.mem_append_left _ hwaits), line, hx.sending r line hduty, hprefix⟩

/-- What changes neither callers nor requests nor what was written. -/
theorem Owned.congr (hx : x.Owned) (hcallers : y.callers = x.callers) (hasked : y.asked = x.asked)
    (hduty : y.duty = x.duty) (hwritten : y.engine.written = x.engine.written) : y.Owned := by
  refine ⟨?_, ?_, ?_, ?_, ?_⟩
  · rw [hcallers, hasked]
    exact hx.waits
  · rw [hcallers, hasked]
    exact hx.asked
  · rw [hcallers]
    exact hx.turnedAway
  · rw [hduty]
    exact hx.sending
  · rw [hasked, hwritten]
    exact hx.written

/-- An operation is turned away at the beginning only if its arguments are refused or the context is closed. -/
theorem standing_cases (x : Service) (inquiry : Inquiry) :
    (x.standing inquiry = .admitted ∧ ∀ g operation, inquiry = .perform g operation → x.engine.stopped = false) ∨
    ∃ failure, x.standing inquiry = .failed failure ∧ ((∃ words, failure = .closed words) ∨ ¬ inquiry.Acceptable) := by
  cases inquiry with
  | ask operation payload => exact .inl ⟨rfl, fun _ _ => nofun⟩
  | perform g operation =>
    rcases hpayload : operation.payload g with refusal | payload
    · refine .inr ⟨.refused refusal, by simp only [standing, hpayload], .inr ?_⟩
      rintro ⟨payload, hok⟩
      cases hpayload.symm.trans hok
    · rcases hstopped : x.engine.stopped with _ | _
      · exact .inl ⟨by simp only [standing, hpayload, hstopped, Bool.false_eq_true, if_false], fun _ _ _ => rfl⟩
      · refine .inr ⟨.closed (.ofString "context is closed"), ?_, .inl ⟨_, rfl⟩⟩
        simp only [standing, hpayload, hstopped, if_true]

/-- Where the context is closed, all of them are turned away. -/
theorem standing_of_stopped (hstopped : x.engine.stopped = true) (g : Host.Graph) (operation : Operation) :
    ∃ failure, x.standing (.perform g operation) = .failed failure ∧
      ((∃ payload, operation.payload g = .ok payload) → ∃ words, failure = .closed words) := by
  rcases x.standing_cases (.perform g operation) with ⟨-, hlive⟩ | ⟨failure, hfailed, hcases⟩
  · cases (hlive g operation rfl).symm.trans hstopped
  · exact ⟨failure, hfailed, fun hacceptable => hcases.resolve_right (not_not_intro hacceptable)⟩

theorem Owned.begin (hx : x.Owned) (inquiry : Inquiry) : (x.begin inquiry).Owned := by
  have hlast : ∀ {k : Nat} {other later}, (x.begin inquiry).callers[k]? = some (other, later) →
      x.callers[k]? = some (other, later) ∨ other = inquiry ∧ later = x.standing inquiry := by
    intro k other later hk
    rcases Nat.lt_or_ge k x.callers.length with hlt | hge
    · exact .inl ((List.getElem?_append_left hlt).symm.trans hk)
    · right
      rw [Service.begin, List.getElem?_append_right hge] at hk
      obtain ⟨rfl, rfl⟩ := Prod.mk.inj (List.mem_singleton.mp (List.mem_of_getElem? hk))
      exact ⟨rfl, rfl⟩
  refine ⟨?_, ?_, ?_, hx.sending, hx.written⟩
  · intro k other serial hk
    rcases hlast hk with hk | ⟨rfl, hwaits⟩
    · exact hx.waits k other serial hk
    · rcases x.standing_cases other with ⟨h, -⟩ | ⟨failure, h, -⟩ <;> cases h.symm.trans hwaits.symm
  · intro r hr
    obtain ⟨k, other, hk, hrequest⟩ := hx.asked r hr
    exact ⟨k, other, (List.getElem?_append_left (List.getElem?_eq_some_iff.mp hk).1).trans hk, hrequest⟩
  · intro k other failure hk
    rcases hlast hk with hk | ⟨rfl, hfailed⟩
    · exact hx.turnedAway k other failure hk
    · rcases x.standing_cases other with ⟨h, -⟩ | ⟨failure', h, hcases⟩
      · cases h.symm.trans hfailed.symm
      · obtain rfl := Standing.failed.inj (h.symm.trans hfailed.symm)
        exact hcases

/-- An admitted caller whom nobody waits for gets a standing. -/
theorem getElem?_set_cases {callers : List (Inquiry × Standing)} {j : Nat} {other inquiry : Inquiry}
    {later standing : Standing} (h : (callers.set j (other, later))[k]? = some (inquiry, standing)) :
    callers[k]? = some (inquiry, standing) ∨ k = j ∧ inquiry = other ∧ standing = later := by
  rcases eq_or_ne j k with rfl | hne
  · right
    have hlt : j < callers.length := by
      have hlt := (List.getElem?_eq_some_iff.mp h).1
      rwa [List.length_set] at hlt
    rw [List.getElem?_set_self hlt] at h
    obtain ⟨rfl, rfl⟩ := Prod.mk.inj (Option.some.inj h)
    exact ⟨rfl, rfl, rfl⟩
  · exact .inl ((List.getElem?_set_ne hne).symm.trans h)

theorem getElem?_set_waits {callers : List (Inquiry × Standing)} {j serial : Nat} {other inquiry : Inquiry}
    {later : Standing} (hadmitted : callers[j]? = some (other, .admitted))
    (hk : callers[k]? = some (inquiry, .waits serial)) :
    (callers.set j (other, later))[k]? = some (inquiry, .waits serial) := by
  rcases eq_or_ne j k with rfl | hne
  · cases hadmitted.symm.trans hk
  · exact (List.getElem?_set_ne hne).trans hk

theorem Asks.owned (h : x.Asks k inquiry id y) (hadmitted : x.callers[k]? = some (inquiry, .admitted)) (hx : x.Owned) :
    y.Owned := by
  cases h with
  | rests => exact hx
  | turnsAway closed =>
    -- No request is new, and whoever waits is not the caller that was admitted.
    refine ⟨?_, ?_, ?_, hx.sending, hx.written⟩
    · intro j other serial hj
      rcases getElem?_set_cases hj with hj | ⟨-, -, hfailed⟩
      · exact hx.waits j other serial hj
      · cases hfailed
    · intro r hr
      obtain ⟨j, other, hj, hrequest⟩ := hx.asked r hr
      exact ⟨j, other, getElem?_set_waits hadmitted hj, hrequest⟩
    · intro j other failure hj
      rcases getElem?_set_cases hj with hj | ⟨-, -, hfailed⟩
      · exact hx.turnedAway j other failure hj
      · exact .inl ⟨_, Standing.failed.inj hfailed⟩
  | @puts r live request =>
    obtain ⟨hserial, hid⟩ := Inquiry.request?_eq request
    have hrequest : inquiry.request? r.serial r.id = some r := by
      rw [hserial, hid]
      exact request
    have hasked := asked_enqueue x r (x.callers.set k (inquiry, .waits r.serial))
    refine ⟨?_, ?_, ?_, hx.sending, ?_⟩
    · rw [hasked]
      intro j other serial hj
      rcases getElem?_set_cases hj with hj | ⟨-, rfl, hwaits⟩
      · obtain ⟨r', hr', hother⟩ := hx.waits j other serial hj
        exact ⟨r', List.mem_append_left _ hr', hother⟩
      · obtain rfl := Standing.waits.inj hwaits
        exact ⟨r, List.mem_append_right _ List.mem_cons_self, rfl, hrequest⟩
    · rw [hasked]
      intro r' hr'
      rcases List.mem_append.mp hr' with hr' | hr'
      · obtain ⟨j, other, hj, hother⟩ := hx.asked r' hr'
        exact ⟨j, other, getElem?_set_waits hadmitted hj, hother⟩
      · obtain rfl := List.mem_singleton.mp hr'
        exact ⟨k, inquiry, List.getElem?_set_self (List.getElem?_eq_some_iff.mp hadmitted).1, hrequest⟩
    · intro j other failure hj
      rcases getElem?_set_cases hj with hj | ⟨-, -, hfailed⟩
      · exact hx.turnedAway j other failure hj
      · cases hfailed
    · rw [hasked]
      intro bytes hm
      obtain ⟨r', hr', hline⟩ := hx.written bytes hm
      exact ⟨r', List.mem_append_left _ hr', hline⟩

theorem Step.owned (h : Step x y) (hx : x.Owned) (hsound : x.Sound) : y.Owned := by
  cases h with
  | works => exact hsound.works.owned hx hsound
  | stops =>
    obtain ⟨more, hheard, hfinish⟩ := heard_stopNext x
    exact hx.congr rfl (asked_of_finishes hheard fun event hm => by rw [hfinish event hm]; rfl) rfl (written_stopNext x)
  | begins inquiry => exact hx.begin inquiry
  | asks id admitted apart => exact (asks_ask ..).owned admitted hx
  | hears line =>
    refine hx.congr rfl (asked_of_finishes (List.append_assoc _ _ _).symm fun event hm => ?_) rfl rfl
    rcases Event.ofLine?_cases (Option.mem_toList.mp hm) with ⟨content, rfl, -⟩ | ⟨words, rfl⟩ <;> rfl
  | loses reason =>
    refine hx.congr rfl (asked_of_finishes (List.append_assoc _ _ _).symm fun event hm => ?_) rfl rfl
    rw [List.mem_singleton.mp hm]
    rfl
  | looks => exact hx.congr rfl rfl rfl rfl
  | meets =>
    refine hx.congr rfl rfl rfl (written_of_connection ?_)
    simp [Option.map_map, Function.comp_def]

theorem Run.owned (he : e.Fresh) (h : Run e x) : x.Owned := by
  induction h with
  | refl =>
    refine ⟨fun _ _ _ => nofun, ?_, fun _ _ _ => nofun, fun _ _ => Duty.noConfusion, ?_⟩
    · rw [asked_start he]
      exact List.forall_mem_nil _
    · rw [start, Engine.written, he.connection]
      exact List.forall_mem_nil _
  | tail hrun hstep ih => exact hstep.owned ih (Run.sound he hrun)

end Service
end ScriptLink
