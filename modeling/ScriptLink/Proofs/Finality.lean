import ScriptLink.Proofs.WayOut

/-! # Closed is final

    A context is closed in many ways, and each of them must leave it closed, with nobody waiting. Some of this holds in
    every run. That an operation comes to its end is a matter of time: it does where the threads that can go on do so
    again and again. Main statement: a context that started and counts as closed stays closed, turns every operation
    away without writing a line, and brings all operations that were begun to an end. -/

namespace ScriptLink
open Relation

namespace Service
variable {x y : Service} {e : Engine} {worker : Worker} {k serial : Nat} {inquiry : Inquiry} {standing : Standing}

/-! ### At any time -/

theorem Sound.eq_of_serial (h : x.Sound) {r r' : Request} (hr : r ∈ x.asked) (hr' : r' ∈ x.asked)
    (hserial : r.serial = r'.serial) : r = r' := by
  have hnodup : (x.asked.map Request.serial).Nodup := by
    rw [h.serials]
    exact List.nodup_range
  exact List.inj_on_of_nodup_map hnodup hr hr' hserial

theorem exists_completion {outcome : Outcome} (h : e.outcome? serial = some outcome) :
    ⟨serial, outcome⟩ ∈ e.completed := by
  obtain ⟨completion, hfind, rfl⟩ := Option.map_eq_some_iff.mp h
  have hserial : completion.serial = serial := by simpa using List.find?_some hfind
  rw [← hserial]
  exact List.mem_of_find?_eq_some hfind

theorem isSome_outcome? (h : serial ∈ e.completed.map Completion.serial) : (e.outcome? serial).isSome := by
  obtain ⟨completion, hm, hserial⟩ := List.mem_map.mp h
  rw [Engine.outcome?, Option.isSome_map, List.find?_isSome]
  exact ⟨completion, hm, decide_eq_true hserial⟩

/-- What holds of a service at any time: what is closed stays so, and turns away every operation for good; whoever is
    turned away is told that the context is closed, or that the arguments are refused; whatever was written belongs to
    the request of a caller who was not turned away; the end of a request is a closed failure or was decided early; the
    engine cannot be started again; and the connection and the process are asked to end once. -/
structure Final (worker : Worker) (x : Service) : Prop where
  stays : x.engine.stopped = true → ∀ y, ReflTransGen Step x y → y.engine.stopped = true
  refuses : x.engine.stopped = true → ∀ g operation y, ReflTransGen Step (x.begin (.perform g operation)) y →
    ∃ failure, y.callers[x.callers.length]? = some (.perform g operation, .failed failure) ∧
      ((∃ payload, operation.payload g = .ok payload) → ∃ words, failure = .closed words)
  turnsAway : ∀ (k : Nat) (inquiry : Inquiry) (failure : Failure), x.callers[k]? = some (inquiry, .failed failure) →
    (∃ words, failure = .closed words) ∨ ¬ inquiry.Acceptable
  writes : ∀ bytes ∈ x.engine.written, ∃ (k : Nat) (inquiry : Inquiry) (r : Request) (line : List UInt8),
    x.callers[k]? = some (inquiry, .waits r.serial) ∧ inquiry.request? r.serial r.id = some r ∧ r.line = .ok line ∧
      bytes <+: line
  decides : ∀ (k : Nat) (inquiry : Inquiry) (serial : Nat) (outcome : Outcome),
    x.callers[k]? = some (inquiry, .waits serial) → x.engine.outcome? serial = some outcome →
    ∃ r, r.serial = serial ∧ inquiry.request? serial r.id = some r ∧
      (outcome.IsClosed ∨ DecidedEarly x.heard r outcome)
  again : ∀ (machine : Machine) (site : Site), site.engine = x.engine →
    site.start machine = (.error Site.alreadyStarted, site)
  calls : x.engine.calls <+: .closeConnection :: worker.endCalls

theorem final_of_run (he : e.Fresh) (hworker : e.process = some worker) (h : Run e x) : x.Final worker := by
  have hsound := Run.sound he h
  have howned := Run.owned he h
  refine ⟨?_, ?_, howned.turnedAway, ?_, ?_, ?_, ?_⟩
  · exact fun hstopped y hreach => (keeps_of_reach hreach hsound).stopped hstopped
  · intro hstopped g operation y hreach
    obtain ⟨failure, hstanding, hclosed⟩ := standing_of_stopped hstopped g operation
    have hbegun : (x.begin (.perform g operation)).callers[x.callers.length]? =
        some (.perform g operation, .failed failure) := by
      simp [begin, hstanding]
    obtain ⟨later, hy, hbecomes⟩ := becomes_of_reach hreach ((Step.begins x _).sound hsound) hbegun
    cases hbecomes
    exact ⟨failure, hy, hclosed⟩
  · intro bytes hm
    obtain ⟨r, hr, line, hline, hprefix⟩ := howned.written bytes hm
    obtain ⟨k, inquiry, hk, hrequest⟩ := howned.asked r hr
    exact ⟨k, inquiry, r, line, hk, hrequest, hline, hprefix⟩
  · intro k inquiry serial outcome hk houtcome
    obtain ⟨r, hr, hserial, hrequest⟩ := howned.waits k inquiry serial hk
    obtain ⟨r', hr', hserial', hdecided⟩ := (Run.decided he h).completed _ (exists_completion houtcome)
    obtain rfl := hsound.eq_of_serial hr hr' (hserial.trans hserial'.symm)
    exact ⟨r, hserial, hrequest, hdecided⟩
  · intro machine site hsite
    have hstarted : site.engine.started = true := by
      rw [hsite]
      exact (keeps_of_reach h (sound_start he)).started he.started
    simp only [Site.start, hstarted, if_true]
  · rw [(Run.demands he hworker h).calls]
    exact StopStage.calls_prefix _ _

/-! ### In the long run -/

/-- What the operation of a caller has come to. -/
def end? (x : Service) (k : Nat) : Option Outcome :=
  match x.callers[k]? with
  | some (_, .failed failure) => some (.error failure)
  | some (inquiry, .waits serial) => (x.engine.outcome? serial).map inquiry.result
  | some (_, .admitted) | none => none

/-- Somebody's request has no end yet. -/
def Busy (x : Service) : Prop :=
  ∃ (k : Nat) (inquiry : Inquiry) (serial : Nat), x.callers[k]? = some (inquiry, .waits serial) ∧
    x.engine.outcome? serial = none

/-- A course of moves in which nobody who can go on is left out for good. One operation at a time holds the context, so
    a caller that was admitted may have to wait as long as others are busy. -/
structure Fair (e : Engine) (x : Nat → Service) : Prop where
  starts : x 0 = start e
  moves : ∀ n, Step (x n) (x (n + 1)) ∨ x (n + 1) = x n
  works : ∀ n, ∃ m ≥ n, x (m + 1) = (x m).work
  /-- Whoever has begun to stop the engine tells the loop. -/
  tells : ∀ n, ∃ m ≥ n, (x m).stage ≠ .flagged
  admits : ∀ n (k : Nat) (inquiry : Inquiry), (∀ m ≥ n, (x m).callers[k]? = some (inquiry, .admitted)) →
    ∃ m ≥ n, ∀ l ≥ m, (x l).Busy

/-- Only operations on the context are asked for, and no line ends the loop: none is an answer under an id that is a list
    or an object, or too deep for the log without being an answer. -/
structure Ordinary (x : Service) : Prop where
  operations : ∀ (k : Nat) (inquiry : Inquiry) (standing : Standing), x.callers[k]? = some (inquiry, standing) →
    ∃ g operation, inquiry = .perform g operation
  lines : ∀ event ∈ x.heard, event.fault? = none

/-- What comes nearer with every move of the loop, and is not lost by any other, is reached. -/
theorem eventually_of_rank {x : Nat → Service} (phase goal : Service → Prop) (rank : Service → Nat)
    (hworks : ∀ n, ∃ m ≥ n, x (m + 1) = (x m).work)
    (hmove : ∀ n, phase (x n) → goal (x (n + 1)) ∨ phase (x (n + 1)) ∧ rank (x (n + 1)) ≤ rank (x n))
    (hwork : ∀ n, phase (x n) → x (n + 1) = (x n).work → goal (x (n + 1)) ∨ rank (x (n + 1)) < rank (x n))
    {n : Nat} (hn : phase (x n)) : ∃ m ≥ n, goal (x m) := by
  induction hrank : rank (x n) using Nat.strong_induction_on generalizing n with
  | _ bound ih =>
    subst hrank
    obtain ⟨m, hm, hnext⟩ := hworks n
    have hkept : ∀ later, (∃ l ≥ n, goal (x l)) ∨ phase (x (n + later)) ∧ rank (x (n + later)) ≤ rank (x n) := by
      intro later
      induction later with
      | zero => exact .inr ⟨hn, le_rfl⟩
      | succ later ihl =>
        rcases ihl with hgoal | ⟨hphase, hle⟩
        · exact .inl hgoal
        · rcases hmove (n + later) hphase with hgoal | ⟨hphase', hle'⟩
          · exact .inl ⟨n + later + 1, by omega, hgoal⟩
          · exact .inr ⟨hphase', hle'.trans hle⟩
    obtain ⟨later, rfl⟩ := Nat.exists_eq_add_of_le hm
    rcases hkept later with hgoal | ⟨hphase, hle⟩
    · exact hgoal
    rcases hmove (n + later) hphase with hgoal | ⟨hphase', -⟩
    · exact ⟨n + later + 1, by omega, hgoal⟩
    rcases hwork (n + later) hphase hnext with hgoal | hlt
    · exact ⟨n + later + 1, by omega, hgoal⟩
    obtain ⟨l, hl, hgoal⟩ := ih _ (hlt.trans_le hle) hphase' rfl
    exact ⟨l, by omega, hgoal⟩

namespace Fair
variable {x : Nat → Service} {n m : Nat}

theorem reach (h : Fair e x) (hle : n ≤ m) : ReflTransGen Step (x n) (x m) := by
  induction m, hle using Nat.le_induction with
  | base => exact .refl
  | succ m _ ih =>
    rcases h.moves m with hstep | hsame
    · exact ih.tail hstep
    · rw [hsame]
      exact ih

theorem run (h : Fair e x) (n : Nat) : Run e (x n) := by
  rw [Run, ← h.starts]
  exact h.reach (Nat.zero_le n)

/-- What every step keeps stays. -/
theorem keep {p : Service → Prop} (h : Fair e x) (hstep : ∀ n, Step (x n) (x (n + 1)) → p (x n) → p (x (n + 1)))
    (hn : p (x n)) (hle : n ≤ m) : p (x m) := by
  induction m, hle using Nat.le_induction with
  | base => exact hn
  | succ m _ ih =>
    rcases h.moves m with hmove | hsame
    · exact hstep m hmove ih
    · rw [hsame]
      exact ih

/-- Ordinary operations and lines do not raise anything in the loop. -/
theorem not_raised (h : Fair e x) (he : e.Fresh) (hordinary : ∀ n, (x n).Ordinary) (n : Nat) (fault : LoopFault) :
    (x n).duty ≠ .raised fault := by
  refine h.keep (p := fun y => ∀ fault, y.duty ≠ .raised fault) (fun n hstep ih => ?_) (n := 0) ?_ (Nat.zero_le n) fault
  · have hsound := Run.sound he (h.run n)
    have howned := Run.owned he (h.run n)
    rcases hstep.work_or_duty with hnext | hduty
    · rw [hnext]
      have hworks := hsound.works
      generalize (x n).work = y at hworks
      cases hworks with
      | rests => exact ih
      | @chokes r reason duty gone fails =>
        -- The request is that of an operation, so its line can be written.
        have hr : r ∈ (x n).asked := hsound.unfinished (by
          rw [unfinished, duty]
          exact List.mem_append_right _ List.mem_cons_self)
        obtain ⟨k, inquiry, hk, hrequest⟩ := howned.asked r hr
        obtain ⟨g, operation, rfl⟩ := (hordinary n).operations k inquiry _ hk
        have hacceptable : (Inquiry.perform g operation).Acceptable := by
          rcases hpayload : operation.payload g with refusal | payload
          · simp only [Inquiry.request?, hpayload] at hrequest
            cases hrequest
          · exact ⟨payload, hpayload⟩
        obtain ⟨r', hr', -, -, hwritable⟩ := hacceptable.writable r.serial r.id
        obtain rfl := Option.some.inj (hrequest.symm.trans hr')
        obtain ⟨line, hline⟩ := Request.line_of_writable hwritable
        cases hline.symm.trans fails
      | @raises content fault duty fatal =>
        obtain ⟨earlier, htaken⟩ := hsound.inHand _ duty
        have hm : Event.message (.ofJson content) ∈ (x n).taken := by
          rw [htaken]
          exact List.mem_append_right _ List.mem_cons_self
        cases ((hordinary n).lines _ (List.mem_append_left _ hm)).symm.trans fatal
      | @goesOn failure onward => cases onward <;> exact fun _ => Duty.noConfusion
      | drains duty | drainsRequest duty | releases duty =>
        exact fun fault hraised => Duty.noConfusion (duty.symm.trans hraised)
      | _ => exact fun _ => Duty.noConfusion
    · rw [hduty]
      exact ih
  · rw [h.starts]
    exact fun _ => Duty.noConfusion

theorem keeps (h : Fair e x) (he : e.Fresh) (hle : n ≤ m) : (x n).Keeps (x m) :=
  keeps_of_reach (h.reach hle) (Run.sound he (h.run n))

/-- An engine that counts as stopped is stopped by somebody in the end, if it is not yet. -/
theorem eventually_stopping (h : Fair e x) (he : e.Fresh) (hstopped : (x n).engine.stopped = true) :
    ∃ m ≥ n, (x m).engine.stopping = true := by
  rcases hlive : (x n).engine.stopping with _ | _
  · have hgone : (x n).engine.gone.isSome := by simpa [Engine.stopped, hlive] using hstopped
    refine eventually_of_rank (fun y => y.engine.gone.isSome ∧ y.engine.stopping = false)
      (fun y => y.engine.stopping = true) (fun y => y.duty.left y.stage) h.works ?_ ?_ ⟨hgone, hlive⟩
    · rintro n ⟨hgone, hlive⟩
      rcases hnext : (x (n + 1)).engine.stopping with _ | _
      · have hleaving := ((Run.finishing he (h.run n)).leaving hgone).resolve_left (by simp [hlive])
        refine .inr ⟨⟨(h.keeps he n.le_succ).gone hgone, rfl⟩, ?_⟩
        rcases h.moves n with hstep | hsame
        · rcases hstep.work_or_duty with hwork | hduty
          · rcases (Run.sound he (h.run n)).works.left_lt hleaving hlive with hstops | hlt
            · rw [← hwork, hnext] at hstops
              cases hstops
            · rw [hwork]
              exact hlt.le
          · rw [hduty, hleaving.left_eq]
        · rw [hsame]
      · exact .inl rfl
    · rintro n ⟨hgone, hlive⟩ hwork
      have hleaving := ((Run.finishing he (h.run n)).leaving hgone).resolve_left (by simp [hlive])
      rw [hwork]
      exact (Run.sound he (h.run n)).works.left_lt hleaving hlive
  · exact ⟨n, le_rfl, hlive⟩

/-- Then the loop is told. -/
theorem eventually_told (h : Fair e x) (he : e.Fresh) (hstopping : (x n).engine.stopping = true) :
    ∃ m ≥ n, (x m).stage.Told := by
  obtain ⟨m, hm, hflagged⟩ := h.tells n
  refine ⟨m, hm, ?_⟩
  have hnone := (Run.finishing he (h.run m)).begun ((h.keeps he hm).stopping hstopping)
  cases hstage : (x m).stage with
  | none => exact absurd hstage hnone
  | flagged => exact absurd hstage hflagged
  | _ => trivial

/-- And then it comes to its end. -/
theorem eventually_done (h : Fair e x) (he : e.Fresh) (hordinary : ∀ n, (x n).Ordinary) (htold : (x n).stage.Told) :
    ∃ m ≥ n, (x m).duty.Done := by
  have hstopping : ∀ n, (x n).stage.Told → (x n).engine.stopping = true := by
    intro n htold
    refine (Run.ordered he (h.run n)).stage fun hnone => ?_
    rw [hnone] at htold
    exact htold
  refine eventually_of_rank (fun y => y.stage.Told) (fun y => y.duty.Done) distance h.works ?_ ?_ htold
  · intro n htold
    have hsound := Run.sound he (h.run n)
    have hfinishing := Run.finishing he (h.run n)
    have hraised := h.not_raised he hordinary
    rcases h.moves n with hstep | hsame
    · have htold' := hstep.told htold (Run.ordered he (h.run n)) hsound
      by_cases hwork : x (n + 1) = (x n).work
      · have hraised' : ∀ fault, (x n).work.duty ≠ .raised fault := hwork ▸ hraised (n + 1)
        rw [hwork] at htold' ⊢
        exact (hsound.works.distance_lt hfinishing htold (hstopping n htold) hsound hraised').imp_right fun hlt =>
          ⟨htold', hlt.le⟩
      · exact .inr ⟨htold', hstep.distance_le hwork hfinishing htold (hraised n)⟩
    · rw [hsame]
      exact .inr ⟨htold, le_rfl⟩
  · intro n htold hwork
    have hraised : ∀ fault, (x n).work.duty ≠ .raised fault := hwork ▸ h.not_raised he hordinary (n + 1)
    have hsound := Run.sound he (h.run n)
    rw [hwork]
    exact hsound.works.distance_lt (Run.finishing he (h.run n)) htold (hstopping n htold) hsound hraised

/-- At the end nobody waits. -/
theorem outcome_of_done (h : Fair e x) (he : e.Fresh) (hdone : (x n).duty.Done)
    (hk : (x n).callers[k]? = some (inquiry, .waits serial)) : ((x n).engine.outcome? serial).isSome := by
  have hsound := Run.sound he (h.run n)
  obtain ⟨r, hr, rfl, -⟩ := (Run.owned he (h.run n)).waits k inquiry serial hk
  have hcare := hsound.care
  rw [unfinished_of_done hdone (Run.finishing he (h.run n)) (Run.decided he (h.run n)), List.map_nil, List.nil_append]
    at hcare
  exact isSome_outcome? (hcare.mem_iff.mpr (List.mem_map_of_mem hr))

/-- In a fair course every operation that was begun comes to an end once the engine counts as stopped. -/
theorem eventually_ends (h : Fair e x) (he : e.Fresh) (hordinary : ∀ n, (x n).Ordinary)
    (hstopped : (x n).engine.stopped = true) (hk : k < (x n).callers.length) : ∃ m ≥ n, ((x m).end? k).isSome := by
  obtain ⟨m₁, hm₁, hstopping⟩ := h.eventually_stopping he hstopped
  obtain ⟨m₂, hm₂, htold⟩ := h.eventually_told he hstopping
  obtain ⟨m, hm, hdone⟩ := h.eventually_done he hordinary htold
  have hstays : ∀ l ≥ m, (x l).duty.Done := fun l hl =>
    h.keep (p := fun y => y.duty.Done) (fun n hstep hdone => hstep.done hdone (Run.sound he (h.run n))) hdone hl
  obtain ⟨⟨inquiry, standing⟩, hcaller⟩ : ∃ caller, (x n).callers[k]? = some caller := ⟨_, List.getElem?_eq_getElem hk⟩
  have hlater : ∀ l ≥ n, ∃ later, (x l).callers[k]? = some (inquiry, later) ∧ standing.Becomes later := fun l hl =>
    becomes_of_reach (h.reach hl) (Run.sound he (h.run n)) hcaller
  -- Nobody is busy from then on, so nobody stays admitted.
  obtain ⟨l, hl, later, hlast, hsettled⟩ : ∃ l ≥ m, ∃ later, (x l).callers[k]? = some (inquiry, later) ∧
      later ≠ .admitted := by
    by_contra hnever
    have hadmitted : ∀ l ≥ m, (x l).callers[k]? = some (inquiry, .admitted) := by
      intro l hl
      obtain ⟨later, hlast, -⟩ := hlater l (by omega)
      by_contra hother
      refine hnever ⟨l, hl, later, hlast, ?_⟩
      rintro rfl
      exact hother hlast
    obtain ⟨l, hl, hbusy⟩ := h.admits m k inquiry hadmitted
    obtain ⟨j, other, serial, hj, hnone⟩ := hbusy l le_rfl
    have hsome := h.outcome_of_done he (hstays l hl) hj
    rw [hnone] at hsome
    cases hsome
  refine ⟨l, by omega, ?_⟩
  cases later with
  | admitted => exact absurd rfl hsettled
  | failed failure => simp only [end?, hlast, Option.isSome_some]
  | waits serial =>
    simp only [end?, hlast, Option.isSome_map]
    exact h.outcome_of_done he (hstays l hl) hlast

end Fair
end Service

/-! ### A session that was closed -/

namespace Session
variable {s : Session}

/-- A closed session stays so, whatever is done with it, and an operation on it fails at once and changes nothing. -/
structure ClosedForGood (s : Session) : Prop where
  stays : ∀ deeds, (s.afterAll deeds).closed = true
  refuses : ∀ g operation meanwhile, ∃ failure, s.perform g operation meanwhile = (some (.error failure), s) ∧
    ((∃ payload, operation.payload g = .ok payload) → ∃ words, failure = .closed words)

theorem ids_afterAll (s : Session) (deeds : List Deed) : (s.afterAll deeds).ids = s.ids := by
  induction deeds generalizing s with
  | nil => rfl
  | cons deed deeds ih => rw [afterAll_cons, ih, ids_after]

theorem closedForGood {machine : Machine} {site site' : Site} {ids : Nat → Text} (huntried : site.engine.Untried)
    (hstart : site.start machine = (.ok (), site')) (hids : Function.Injective ids) (deeds : List Deed)
    (hclosed : ((idle site ids).afterAll (.start machine :: deeds)).closed = true) :
    ((idle site ids).afterAll (.start machine :: deeds)).ClosedForGood := by
  have hfresh := Engine.fresh_of_start huntried hstart
  obtain ⟨x, hrun, hmirrors⟩ := exists_run_afterAll huntried hstart hids deeds
  have hids' := ids_afterAll (idle site ids) (.start machine :: deeds)
  generalize (idle site ids).afterAll (.start machine :: deeds) = s at hclosed hmirrors hids'
  have hstopped : x.engine.stopped = true := by
    rw [hmirrors.rests.engine]
    exact hclosed
  refine ⟨fun later => ?_, fun g operation meanwhile => ?_⟩
  · have hstarted : s.engine.started = true := by
      rw [← hmirrors.rests.engine]
      exact (Service.keeps_of_reach hrun (Service.sound_start hfresh)).started hfresh.started
    obtain ⟨y, hreach, hlater⟩ := hmirrors.afterAll (hids' ▸ hids) hstarted later
    rw [closed, ← hlater.rests.engine]
    exact (Service.keeps_of_reach hreach hmirrors.rests.sound).stopped hstopped
  · rcases hpayload : operation.payload g with refusal | payload
    · refine ⟨.refused refusal, by simp only [perform, hpayload], ?_⟩
      rintro ⟨payload, hok⟩
      cases hok
    · refine ⟨.closed (.ofString "context is closed"), ?_, fun _ => ⟨_, rfl⟩⟩
      simp only [perform, hpayload, hclosed, if_true]

end Session

namespace Service

/-- A context that started. Whatever is done with it is a run of its threads, and once it is closed it stays so and takes
    no operation. In every run what is closed stays so, an operation begun from then on writes nothing, and an end that
    is no closed failure was decided before anything told of the end; a second start changes nothing, and a stop closes
    the connection once and then asks the process to end once. And in every fair course all operations that were begun
    come to an end once the context is closed. -/
theorem closed_is_final {machine : Machine} {site site' : Site} (hnew : site.engine = .new)
    (hstart : site.start machine = (.ok (), site')) :
    (∀ ids, Function.Injective ids → ∀ deeds,
      (∃ x, Run site'.engine x ∧ ((Session.idle site ids).afterAll (.start machine :: deeds)).Mirrors x) ∧
      (((Session.idle site ids).afterAll (.start machine :: deeds)).closed = true →
        ((Session.idle site ids).afterAll (.start machine :: deeds)).ClosedForGood)) ∧
    (∃ worker, site'.engine.process = some worker ∧ ∀ x, Run site'.engine x → x.Final worker) ∧
    ∀ x : Nat → Service, Fair site'.engine x → (∀ n, (x n).Ordinary) → ∀ n, (x n).engine.stopped = true →
      ∀ k < (x n).callers.length, ∃ m ≥ n, ((x m).end? k).isSome := by
  have hfresh := Engine.fresh_of_start (.inl hnew) hstart
  refine ⟨fun ids hids deeds => ⟨?_, ?_⟩, ?_, ?_⟩
  · exact Session.exists_run_afterAll (.inl hnew) hstart hids deeds
  · exact Session.closedForGood (.inl hnew) hstart hids deeds
  · obtain ⟨worker, hworker⟩ := hfresh.process
    exact ⟨worker, hworker, fun x hrun => final_of_run hfresh hworker hrun⟩
  · intro x hfair hordinary n hstopped k hk
    exact hfair.eventually_ends hfresh hordinary hstopped hk

/-! ### Courses in which only the loop goes on at last -/

section Tail
variable {x : Nat → Service} {first : Nat}

theorem run_of_moves (hstarts : x 0 = start e) (hmoves : ∀ n, Step (x n) (x (n + 1))) (n : Nat) : Run e (x n) := by
  induction n with
  | zero =>
    rw [hstarts]
    exact .refl
  | succ n ih => exact ih.tail (hmoves n)

/-- The loop by itself brings no caller, and no event but a finish. -/
theorem tail_keeps (he : e.Fresh) (hstarts : x 0 = start e) (hmoves : ∀ n, Step (x n) (x (n + 1)))
    (htail : ∀ n ≥ first, x (n + 1) = (x n).work) (htold : (x first).stage.Told) {n : Nat} (hn : first ≤ n) :
    (x n).callers = (x first).callers ∧ (x n).stage.Told ∧
      ∀ event ∈ (x n).heard, event = .finish ∨ event ∈ (x first).heard := by
  induction n, hn using Nat.le_induction with
  | base => exact ⟨rfl, htold, fun event hm => .inr hm⟩
  | succ n hn ih =>
    obtain ⟨hcallers, htold, hquiet⟩ := ih
    have hrun := run_of_moves hstarts hmoves n
    have hsound := Run.sound he hrun
    obtain ⟨more, hheard, hfinish⟩ := hsound.works.heard
    rw [htail n hn]
    refine ⟨hsound.works.callers.trans hcallers, (Step.works _).told htold (Run.ordered he hrun) hsound,
      fun event hm => ?_⟩
    rw [hheard] at hm
    rcases List.mem_append.mp hm with hm | hm
    · exact hquiet event hm
    · exact .inl (hfinish event hm)

/-- Such a course is fair, if the loop was told to finish and every caller has a request in the queue or was turned
    away. -/
theorem fair_of_tail (he : e.Fresh) (hstarts : x 0 = start e) (hmoves : ∀ n, Step (x n) (x (n + 1)))
    (htail : ∀ n ≥ first, x (n + 1) = (x n).work) (htold : (x first).stage.Told)
    (hsettled : ∀ caller ∈ (x first).callers, caller.2 ≠ .admitted) : Fair e x where
  starts := hstarts
  moves n := .inl (hmoves n)
  works n := ⟨max n first, le_max_left _ _, htail _ (le_max_right _ _)⟩
  tells n := by
    refine ⟨max n first, le_max_left _ _, fun hflagged => ?_⟩
    have htold := (tail_keeps he hstarts hmoves htail htold (le_max_right n first)).2.1
    rw [hflagged] at htold
    exact htold
  admits n k inquiry h := by
    have hk := h (max n first) (le_max_left _ _)
    rw [(tail_keeps he hstarts hmoves htail htold (le_max_right n first)).1] at hk
    exact absurd rfl (hsettled _ (List.mem_of_getElem? hk))

end Tail

/-! An operation whose request is in the queue when the engine is stopped; then only the loop goes on. -/

/-- The global name that the operation asks for. -/
def reading : Inquiry := .perform .empty (.getProp (.scalar (.text (.ofString "x") .plain)))

/-- The request is in the queue. -/
def caught : Service := ((start connected.engine).begin reading).ask 0 reading (.ofNat 0)

/-- The engine is stopped behind the request. -/
def closing : Nat → Service
  | 0 => start connected.engine
  | 1 => (start connected.engine).begin reading
  | 2 => caught
  | 3 => caught.stopNext
  | n + 4 => work^[n] caught.stopNext.stopNext

theorem caught_asked : Step ((start connected.engine).begin reading) caught := by
  have hnone : ((start connected.engine).begin reading).unfinished = [] := rfl
  exact .asks _ rfl (by rw [hnone]; exact List.forall_mem_nil _)

theorem closing_tail (n : Nat) (h : n ≥ 4) : closing (n + 1) = (closing n).work := by
  obtain ⟨n, rfl⟩ := Nat.exists_eq_add_of_le' h
  exact Function.iterate_succ_apply' work n caught.stopNext.stopNext

theorem closing_moves (n : Nat) : Step (closing n) (closing (n + 1)) := by
  match n with
  | 0 => exact .begins _ reading
  | 1 => exact caught_asked
  | 2 => exact .stops _
  | 3 => exact .stops _
  | n + 4 =>
    rw [closing_tail _ (Nat.le_add_left 4 n)]
    exact .works _

theorem prepared_starts : Session.prepared.start Session.connecting = (.ok (), connected) := rfl

theorem connected_fresh : connected.engine.Fresh :=
  Engine.fresh_of_start (.inl rfl) prepared_starts

theorem closing_fair : Fair connected.engine closing :=
  fair_of_tail connected_fresh rfl closing_moves closing_tail trivial
    (List.forall_mem_singleton.mpr fun h => Standing.noConfusion h)

theorem ordinary_of_reading {x : Service} (hcallers : ∀ caller ∈ x.callers, caller.1 = reading)
    (hquiet : ∀ event ∈ x.heard, event = .finish ∨ ∃ r, event = .request r) : x.Ordinary := by
  refine ⟨fun k inquiry standing hk => ⟨_, _, hcallers _ (List.mem_of_getElem? hk)⟩, fun event hm => ?_⟩
  rcases hquiet event hm with rfl | ⟨r, rfl⟩ <;> rfl

theorem closing_ordinary (n : Nat) : (closing n).Ordinary := by
  have hone : ∀ standing : Standing, ∀ caller ∈ [(reading, standing)], caller.1 = reading := fun standing caller hm => by
    rw [List.mem_singleton.mp hm]
  have hrequest : ∀ r, ∀ event ∈ [Event.request r], event = .finish ∨ ∃ r, event = .request r := fun r event hm =>
    .inr ⟨r, List.mem_singleton.mp hm⟩
  match n with
  | 0 => exact ordinary_of_reading (List.forall_mem_nil _) (List.forall_mem_nil _)
  | 1 => exact ordinary_of_reading (hone .admitted) (List.forall_mem_nil _)
  | 2 => exact ordinary_of_reading (hone (.waits 0)) (hrequest _)
  | 3 => exact ordinary_of_reading (hone (.waits 0)) (hrequest _)
  | n + 4 =>
    obtain ⟨hcallers, -, hquiet⟩ :=
      tail_keeps connected_fresh rfl closing_moves closing_tail trivial (Nat.le_add_left 4 n)
    obtain ⟨r, hheard⟩ : ∃ r, (closing 4).heard = [.request r, .finish] := ⟨_, rfl⟩
    refine ordinary_of_reading (hcallers ▸ hone (.waits 0)) fun event hm => (hquiet event hm).elim .inl fun hm => ?_
    rw [hheard] at hm
    rcases List.mem_cons.mp hm with rfl | hm
    · exact .inr ⟨r, rfl⟩
    · exact .inl (List.mem_singleton.mp hm)

theorem closing_ends : Session.prepared.start Session.connecting = (.ok (), connected) ∧
    Fair connected.engine closing ∧ (closing 3).engine.stopped = true ∧ (closing 3).end? 0 = none ∧
    ∃ m ≥ 3, ((closing m).end? 0).isSome := by
  obtain ⟨-, -, hends⟩ := closed_is_final rfl prepared_starts
  exact ⟨rfl, closing_fair, rfl, rfl, hends closing closing_fair closing_ordinary 3 rfl 0 Nat.zero_lt_one⟩

/-! The same where the peer writes a line of brackets before the engine is stopped. The loop ends at it by a fault, so
    it never comes to the finish. -/

/-- What stands on the line. -/
def bracket : Event := .message (.ofJson (.nested 986))

theorem ofLine?_bracketLine : Event.ofLine? Session.bracketLine = some bracket :=
  Event.ofLine?_of_contentOn? Session.contentOn?_bracketLine

/-- The line is heard behind the request. -/
def disturbed : Service :=
  { caught with engine := { caught.engine with queue := caught.engine.queue ++ [bracket] } }

/-- The engine is stopped behind the line. -/
def stranding : Nat → Service
  | 0 => start connected.engine
  | 1 => (start connected.engine).begin reading
  | 2 => caught
  | 3 => disturbed
  | 4 => disturbed.stopNext
  | n + 5 => work^[n] disturbed.stopNext.stopNext

theorem stranding_tail (n : Nat) (h : n ≥ 5) : stranding (n + 1) = (stranding n).work := by
  obtain ⟨n, rfl⟩ := Nat.exists_eq_add_of_le' h
  exact Function.iterate_succ_apply' work n disturbed.stopNext.stopNext

theorem caught_disturbed : Step caught disturbed := by
  have hheard := Step.hears caught Session.bracketLine
  rw [ofLine?_bracketLine] at hheard
  exact hheard

theorem stranding_moves (n : Nat) : Step (stranding n) (stranding (n + 1)) := by
  match n with
  | 0 => exact .begins _ reading
  | 1 => exact caught_asked
  | 2 => exact caught_disturbed
  | 3 => exact .stops _
  | 4 => exact .stops _
  | n + 5 =>
    rw [stranding_tail _ (Nat.le_add_left 5 n)]
    exact .works _

theorem stranding_fair : Fair connected.engine stranding :=
  fair_of_tail connected_fresh rfl stranding_moves stranding_tail trivial
    (List.forall_mem_singleton.mpr fun h => Standing.noConfusion h)

/-- The loop takes the request up, sends it, and meets the line. -/
theorem duty_stranding : (stranding 9).duty = .handle bracket := rfl

theorem stranding_raised : ∃ fault, ∀ n, stranding (n + 10) = { stranding 9 with duty := .raised fault } := by
  obtain ⟨reason, hfault⟩ := Event.fault?_of_unloggable (Json.unloggable_nested (n := 986) (by decide))
  refine ⟨.unshown reason, fun n => ?_⟩
  induction n with
  | zero =>
    rw [Nat.zero_add, stranding_tail 9 (by decide)]
    simp only [work, duty_stranding]
    exact handle_of_fault hfault
  | succ n ih =>
    rw [Nat.add_right_comm, stranding_tail _ (by omega), ih]
    rfl

theorem completed_stranding (n : Nat) : (stranding n).engine.completed = [] := by
  match n with
  | 0 | 1 | 2 | 3 | 4 | 5 | 6 | 7 | 8 | 9 => rfl
  | n + 10 =>
    obtain ⟨fault, hraised⟩ := stranding_raised
    rw [hraised]
    rfl

theorem heard_stranding (n : Nat) :
    ∀ event ∈ (stranding n).heard, event = .finish ∨ (∃ r, event = .request r) ∨ event = bracket := by
  match n with
  | 0 | 1 => exact List.forall_mem_nil _
  | 2 =>
    obtain ⟨r, hheard⟩ : ∃ r, (stranding 2).heard = [.request r] := ⟨_, rfl⟩
    simp [hheard]
  | 3 =>
    obtain ⟨r, hheard⟩ : ∃ r, (stranding 3).heard = [.request r, bracket] := ⟨_, rfl⟩
    simp [hheard]
  | 4 =>
    obtain ⟨r, hheard⟩ : ∃ r, (stranding 4).heard = [.request r, bracket] := ⟨_, rfl⟩
    simp [hheard]
  | n + 5 =>
    obtain ⟨r, hheard⟩ : ∃ r, (stranding 5).heard = [.request r, bracket, .finish] := ⟨_, rfl⟩
    intro event hm
    rcases (tail_keeps connected_fresh rfl stranding_moves stranding_tail trivial (Nat.le_add_left 5 n)).2.2 event hm with
      hfinish | hm
    · exact .inl hfinish
    · rw [hheard] at hm
      simp only [List.mem_cons, List.not_mem_nil, or_false] at hm
      rcases hm with rfl | rfl | rfl
      · exact .inr (.inl ⟨r, rfl⟩)
      · exact .inr (.inr rfl)
      · exact .inl rfl

/-- No line is an answer under an id that is a list or an object, and a request waits when the engine is stopped. Yet its
    operation never comes to an end, although nobody who can go on is left out. -/
theorem deep_line_strands_operation : Session.prepared.start Session.connecting = (.ok (), connected) ∧
    Fair connected.engine stranding ∧ (∀ n, ∀ caller ∈ (stranding n).callers, caller.1 = reading) ∧
    (∀ n, ∀ content : Json, .message (.ofJson content) ∈ (stranding n).heard → ¬ content.Misaddressed) ∧
    (stranding 4).engine.stopped = true ∧ (stranding 4).callers = [(reading, .waits 0)] ∧
    ∀ n, (stranding n).end? 0 = none := by
  have hcallers (n : Nat) : (stranding n).callers = [] ∨ ∃ standing, (stranding n).callers = [(reading, standing)] ∧
      ∀ failure, standing ≠ .failed failure := by
    match n with
    | 0 => exact .inl rfl
    | 1 => exact .inr ⟨.admitted, rfl, fun _ => Standing.noConfusion⟩
    | 2 | 3 | 4 => exact .inr ⟨.waits 0, rfl, fun _ => Standing.noConfusion⟩
    | n + 5 =>
      have hkept :=
        (tail_keeps connected_fresh rfl stranding_moves stranding_tail trivial (Nat.le_add_left 5 n)).1
      exact .inr ⟨.waits 0, hkept, fun _ => Standing.noConfusion⟩
  refine ⟨rfl, stranding_fair, fun n caller hm => ?_, fun n content hm hbad => ?_, rfl, rfl, fun n => ?_⟩
  · rcases hcallers n with hnone | ⟨standing, hone, -⟩
    · rw [hnone] at hm
      cases hm
    · rw [hone] at hm
      rw [List.mem_singleton.mp hm]
  · rcases heard_stranding n _ hm with hfinish | ⟨r, hrequest⟩ | hbracket
    · cases hfinish
    · cases hrequest
    · -- What stands on the line holds no answer.
      obtain ⟨answer, id, typeName, hanswer, -⟩ := Json.misaddressed_iff.mp hbad
      have hnone := (Json.unloggable_nested (n := 986) (by decide)).1
      rw [← Event.message.inj hbracket] at hnone
      cases hnone.symm.trans hanswer
  · rcases hcallers n with hnone | ⟨standing, hone, hopen⟩
    · simp only [end?, hnone, List.getElem?_nil]
    · simp only [end?, hone, List.getElem?_cons_zero]
      cases standing with
      | failed failure => exact absurd rfl (hopen failure)
      | waits serial =>
        simp only [Engine.outcome?, completed_stranding, List.find?_nil, Option.map_none]
      | admitted => rfl

end Service
end ScriptLink
