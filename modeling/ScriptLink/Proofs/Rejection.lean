import ScriptLink.Proofs.Finality
import ScriptLink.Proofs.Renaming

/-! # Operations that are refused

    A value without an image refuses an operation before anything else happens. In a session many operations can be
    under way, so that this one leaves no trace is a matter of two sessions: the one in which it was asked for, and the
    one in which everything else was done and it was not. `Move` names what each thread does, and `LeavesOut` what is
    left of a course of moves without one caller, under other ids. Main statement: an operation that fails because it is
    refused has changed nothing, and without it all others come to the same. -/

namespace ScriptLink
open Relation

/-! ### Courses of moves -/

/-- What may happen next: the loop works, a stop goes on, a caller begins or goes on, a line or the end of the
    connection is heard, or the process and the connection are other than before. -/
inductive Move where
  | works
  | stops
  | begins (inquiry : Inquiry)
  /-- The caller at a place goes on, with an id for its request. -/
  | asks (k : Nat) (id : Text)
  | hears (line : List UInt8)
  | loses (reason : Text)
  | looks (looks : List (Option Int))
  | meets (obstacles : List (Option Obstacle))

/-- No caller moves, and no line is heard. -/
def Move.IsPlain : Move → Prop
  | .begins _ | .asks _ _ | .hears _ => False
  | _ => True

/-- The place of a caller when the one at `m` is left out. -/
def placeWithout (m k : Nat) : Nat := if k < m then k else k - 1

/-- The same moves without those of the caller that comes to the place `m`, and with other ids; `n` callers have come
    before. -/
inductive LeavesOut (ρ : Text → Text) (m : Nat) : Nat → List Move → List Move → Prop
  | done {n : Nat} : LeavesOut ρ m n [] []
  | skips {inquiry : Inquiry} {moves moves' : List Move} : LeavesOut ρ m (m + 1) moves moves' →
      LeavesOut ρ m m (.begins inquiry :: moves) moves'
  | begins {n : Nat} {inquiry : Inquiry} {moves moves' : List Move} : n ≠ m → LeavesOut ρ m (n + 1) moves moves' →
      LeavesOut ρ m n (.begins inquiry :: moves) (.begins inquiry :: moves')
  | asks {n k : Nat} {id : Text} {moves moves' : List Move} : k ≠ m → LeavesOut ρ m n moves moves' →
      LeavesOut ρ m n (.asks k id :: moves) (.asks (placeWithout m k) (ρ id) :: moves')
  /-- The peer writes the same under the new id. -/
  | hears {n : Nat} {line line' : List UInt8} {moves moves' : List Move} :
      Event.ofLine? line' = (Event.ofLine? line).map (Event.renamed ρ) → LeavesOut ρ m n moves moves' →
      LeavesOut ρ m n (.hears line :: moves) (.hears line' :: moves')
  | plain {n : Nat} {move : Move} {moves moves' : List Move} : move.IsPlain → LeavesOut ρ m n moves moves' →
      LeavesOut ρ m n (move :: moves) (move :: moves')

namespace Service
variable {x y x' : Service} {e : Engine} {ρ : Text → Text} {m k n : Nat} {inquiry : Inquiry}

/-- The service after a move, if the move is possible. -/
def next? (x : Service) : Move → Option Service
  | .works => some x.work
  | .stops => some x.stopNext
  | .begins inquiry => some (x.begin inquiry)
  | .asks k id =>
    match x.callers[k]? with
    | some (inquiry, .admitted) => if ∀ other ∈ x.unfinished, other.id ≠ id then some (x.ask k inquiry id) else none
    | _ => none
  | .hears line => some { x with engine := { x.engine with queue := x.engine.queue ++ (Event.ofLine? line).toList } }
  | .loses reason => some { x with engine := x.engine.enqueue (.closed reason) }
  | .looks looks => some { x with engine := { x.engine with
      process := x.engine.process.map fun process => { process with looks := looks } } }
  | .meets obstacles => some { x with engine := { x.engine with
      connection := x.engine.connection.map fun connection => { connection with obstacles := obstacles } } }

/-- The service after some moves, if each of them is possible in its turn. -/
def follow? (x : Service) : List Move → Option Service
  | [] => some x
  | move :: moves => (x.next? move).bind fun y => y.follow? moves

theorem next?_asks {id : Text} : x.next? (.asks k id) = some y ↔ ∃ inquiry, x.callers[k]? = some (inquiry, .admitted) ∧
    (∀ other ∈ x.unfinished, other.id ≠ id) ∧ y = x.ask k inquiry id := by
  rw [next?]
  split
  · rename_i inquiry hadmitted
    simp only [hadmitted, Option.ite_none_right_eq_some, Option.some.injEq, Prod.mk.injEq, and_true, exists_eq_left']
    exact and_congr_right fun _ => eq_comm
  · rename_i hnone
    refine iff_of_false nofun ?_
    rintro ⟨inquiry, hadmitted, -⟩
    exact hnone inquiry hadmitted

theorem step_iff_next? : Step x y ↔ ∃ move, x.next? move = some y := by
  constructor
  · intro h
    cases h with
    | works => exact ⟨.works, rfl⟩
    | stops => exact ⟨.stops, rfl⟩
    | begins inquiry => exact ⟨.begins inquiry, rfl⟩
    | @asks k inquiry id admitted apart => exact ⟨.asks k id, next?_asks.mpr ⟨inquiry, admitted, apart, rfl⟩⟩
    | hears line => exact ⟨.hears line, rfl⟩
    | loses reason => exact ⟨.loses reason, rfl⟩
    | looks looks => exact ⟨.looks looks, rfl⟩
    | meets obstacles => exact ⟨.meets obstacles, rfl⟩
  · rintro ⟨move, hmove⟩
    cases move with
    | asks k id =>
      obtain ⟨inquiry, hadmitted, hapart, rfl⟩ := next?_asks.mp hmove
      exact .asks id hadmitted hapart
    | works => exact Option.some.inj hmove ▸ .works x
    | stops => exact Option.some.inj hmove ▸ .stops x
    | begins inquiry => exact Option.some.inj hmove ▸ .begins x inquiry
    | hears line => exact Option.some.inj hmove ▸ .hears x line
    | loses reason => exact Option.some.inj hmove ▸ .loses x reason
    | looks looks => exact Option.some.inj hmove ▸ .looks x looks
    | meets obstacles => exact Option.some.inj hmove ▸ .meets x obstacles

/-- A service can come to a point just when a course of moves leads there. -/
theorem reach_iff_follow? : ReflTransGen Step x y ↔ ∃ moves, x.follow? moves = some y := by
  constructor
  · intro h
    induction h using ReflTransGen.head_induction_on with
    | refl => exact ⟨[], rfl⟩
    | head hstep _ ih =>
      obtain ⟨move, hmove⟩ := step_iff_next?.mp hstep
      obtain ⟨moves, hmoves⟩ := ih
      refine ⟨move :: moves, ?_⟩
      rw [follow?, hmove, Option.bind_some, hmoves]
  · rintro ⟨moves, hmoves⟩
    induction moves generalizing x with
    | nil =>
      obtain rfl := Option.some.inj hmoves
      exact .refl
    | cons move moves ih =>
      obtain ⟨z, hmove, hrest⟩ := Option.bind_eq_some_iff.mp hmoves
      exact .head (step_iff_next?.mpr ⟨move, hmove⟩) (ih hrest)

theorem follow?_append (before later : List Move) :
    x.follow? (before ++ later) = (x.follow? before).bind fun y => y.follow? later := by
  induction before generalizing x with
  | nil => rfl
  | cons move before ih =>
    rw [List.cons_append, follow?, follow?, Option.bind_assoc]
    exact Option.bind_congr fun y _ => ih

/-! ### One caller less -/

/-- The same without the caller at one place, under other ids. -/
structure Without (ρ : Text → Text) (m : Nat) (x y : Service) : Prop extends Service.Renamed ρ x y where
  callers : y.callers = x.callers.eraseIdx m

theorem getElem?_placeWithout {α : Type} (l : List α) (hk : k ≠ m) :
    (l.eraseIdx m)[placeWithout m k]? = l[k]? := by
  unfold placeWithout
  rcases Nat.lt_or_gt_of_ne hk with hlt | hgt
  · rw [if_pos hlt, List.getElem?_eraseIdx_of_lt hlt]
  · rw [if_neg (by omega), List.getElem?_eraseIdx_of_ge (by omega), Nat.sub_add_cancel (by omega)]

theorem set_placeWithout {α : Type} (l : List α) (a : α) (hk : k ≠ m) :
    (l.eraseIdx m).set (placeWithout m k) a = (l.set k a).eraseIdx m := by
  unfold placeWithout
  rcases Nat.lt_or_gt_of_ne hk with hlt | hgt
  · rw [if_pos hlt, List.eraseIdx_set_gt hlt]
  · rw [if_neg (by omega), List.eraseIdx_set_lt hgt]

theorem callers_work (x : Service) : x.work.callers = x.callers := by
  unfold work handle drainNext clear conclude stopNext
  repeat' split
  all_goals rfl

theorem length_next? {move : Move} (h : x.next? move = some y) :
    (∃ inquiry, move = .begins inquiry ∧ y = x.begin inquiry) ∨ y.callers.length = x.callers.length := by
  cases move with
  | begins inquiry => exact .inl ⟨inquiry, rfl, (Option.some.inj h).symm⟩
  | works =>
    obtain rfl := Option.some.inj h
    exact .inr (congrArg List.length (callers_work x))
  | asks k id =>
    obtain ⟨inquiry, -, -, rfl⟩ := next?_asks.mp h
    have hasks := asks_ask x k inquiry id
    generalize x.ask k inquiry id = y at hasks
    right
    cases hasks with
    | turnsAway | puts => exact List.length_set
    | rests => rfl
  | _ =>
    obtain rfl := Option.some.inj h
    exact .inr rfl

theorem length_begin (x : Service) (inquiry : Inquiry) : (x.begin inquiry).callers.length = x.callers.length + 1 := by
  rw [begin, List.length_append, List.length_singleton]

theorem request?_rename (inquiry : Inquiry) (serial : Nat) (id : Text) :
    inquiry.request? serial (ρ id) = (inquiry.request? serial id).map (Request.renamed ρ) := by
  cases inquiry with
  | ask => rfl
  | perform g operation =>
    simp only [Inquiry.request?]
    cases operation.payload g <;> rfl

namespace Without

theorem enqueue (h : x.Without ρ m y) (more : List Event) : Service.Without ρ m
    { x with engine := { x.engine with queue := x.engine.queue ++ more } }
    { y with engine := { y.engine with queue := y.engine.queue ++ more.map (Event.renamed ρ) } } := by
  refine { h with engine := { h.engine with queue := ?_ } }
  rw [List.map_append, h.engine.queue]

theorem work (hρ : Function.Injective ρ) (h : x.Without ρ m y) : x.work.Without ρ m y.work where
  toRenamed := h.toRenamed.work hρ
  callers := by rw [callers_work, callers_work, h.callers]

theorem stopNext (h : x.Without ρ m y) : x.stopNext.Without ρ m y.stopNext :=
  { h.toRenamed.stopNext with callers := h.callers }

theorem skips (h : x.Without ρ m y) (hm : x.callers.length = m) (inquiry : Inquiry) :
    (x.begin inquiry).Without ρ m y := by
  refine { h with callers := ?_ }
  rw [h.callers, begin, List.eraseIdx_append_of_length_le hm.le, hm, Nat.sub_self]
  rw [List.eraseIdx_of_length_le hm.le, List.eraseIdx_cons_zero, List.append_nil]

theorem standing (h : x.Without ρ m y) (inquiry : Inquiry) : y.standing inquiry = x.standing inquiry := by
  cases inquiry with
  | ask => rfl
  | perform g operation => simp only [Service.standing, h.engine.stopped_eq]

theorem begins (h : x.Without ρ m y) (hm : x.callers.length ≠ m) (inquiry : Inquiry) :
    (x.begin inquiry).Without ρ m (y.begin inquiry) := by
  refine { h with callers := ?_ }
  rw [begin, begin, h.standing, h.callers]
  rcases Nat.lt_or_gt_of_ne hm with hlt | hgt
  · rw [List.eraseIdx_of_length_le hlt.le, List.eraseIdx_of_length_le]
    rw [List.length_append, List.length_singleton]
    exact hlt
  · rw [List.eraseIdx_append_of_lt_length hgt]

theorem asks (h : x.Without ρ m y) (hk : k ≠ m) (inquiry : Inquiry) (id : Text) :
    (x.ask k inquiry id).Without ρ m (y.ask (placeWithout m k) inquiry (ρ id)) := by
  have hasked : y.asked.length = x.asked.length := by rw [h.asked, List.length_map]
  have hcallers (caller : Inquiry × Standing) :
      y.callers.set (placeWithout m k) caller = (x.callers.set k caller).eraseIdx m := by
    rw [h.callers, set_placeWithout _ _ hk]
  simp only [ask, h.engine.stopping, h.engine.started, hasked, request?_rename]
  split
  · exact { h with callers := hcallers _ }
  · cases inquiry.request? x.asked.length id with
    | none => exact h
    | some r => exact { h.enqueue [.request r] with callers := hcallers _ }

/-- A move that is that of no caller and brings no line comes to the same. -/
theorem plain (hρ : Function.Injective ρ) (h : x.Without ρ m y) {move : Move} (hplain : move.IsPlain)
    (hx : x.next? move = some x') :
    ∃ y', y.next? move = some y' ∧ x'.Without ρ m y' := by
  cases move with
  | begins | asks | hears => exact hplain.elim
  | works =>
    obtain rfl := Option.some.inj hx
    exact ⟨_, rfl, h.work hρ⟩
  | stops =>
    obtain rfl := Option.some.inj hx
    exact ⟨_, rfl, h.stopNext⟩
  | loses reason =>
    obtain rfl := Option.some.inj hx
    exact ⟨_, rfl, h.enqueue [.closed reason]⟩
  | looks looks =>
    obtain rfl := Option.some.inj hx
    refine ⟨_, rfl, { h with engine := { h.engine with process := ?_ } }⟩
    rw [h.engine.process]
  | meets obstacles =>
    obtain rfl := Option.some.inj hx
    refine ⟨_, rfl, { h with engine := { h.engine with connection := ?_ } }⟩
    rcases h.engine.connection_cases with ⟨hc, hc'⟩ | ⟨c, c', hc, hc', hrenamed⟩ <;> rw [hc, hc']
    · exact .none
    · exact .some { hrenamed with obstacles := rfl }

/-- So a course of moves comes to the same without the caller. -/
theorem follow (hρ : Function.Injective ρ) {moves moves' : List Move} (hleaves : LeavesOut ρ m n moves moves')
    (h : x.Without ρ m y) (hn : x.callers.length = n) (hx : x.follow? moves = some x') :
    ∃ y', y.follow? moves' = some y' ∧ x'.Without ρ m y' := by
  induction hleaves generalizing x y with
  | done =>
    obtain rfl := Option.some.inj hx
    exact ⟨y, rfl, h⟩
  | @skips inquiry moves moves' _ ih =>
    exact ih (h.skips hn inquiry) (by rw [length_begin, hn]) hx
  | @begins n inquiry moves moves' hne _ ih =>
    exact ih (h.begins (hn ▸ hne) inquiry) (by rw [length_begin, hn]) hx
  | @asks n k id moves moves' hne _ ih =>
    obtain ⟨x₁, hmove, hrest⟩ := Option.bind_eq_some_iff.mp hx
    obtain ⟨inquiry, hadmitted, hapart, rfl⟩ := next?_asks.mp hmove
    have hmove' : y.next? (.asks (placeWithout m k) (ρ id)) = some (y.ask (placeWithout m k) inquiry (ρ id)) := by
      refine next?_asks.mpr ⟨inquiry, ?_, ?_, rfl⟩
      · rw [h.callers, getElem?_placeWithout _ hne, hadmitted]
      · -- The ids of the others are as far apart under the new names.
        rw [h.unfinished]
        simpa [Request.renamed, hρ.eq_iff] using hapart
    rw [follow?, hmove', Option.bind_some]
    refine ih (h.asks hne inquiry id) ?_ hrest
    rcases length_next? hmove with ⟨other, hbegins, -⟩ | hlength
    · cases hbegins
    · exact hlength.trans hn
  | @hears n line line' moves moves' hline _ ih =>
    -- The line means the same under the new names, so the same event is queued, renamed.
    have hmore : (Event.ofLine? line').toList = (Event.ofLine? line).toList.map (Event.renamed ρ) := by
      rw [hline, Option.toList_map]
    refine ih (x := { x with engine := { x.engine with queue := x.engine.queue ++ (Event.ofLine? line).toList } })
      ?_ hn hx
    rw [hmore]
    exact h.enqueue _
  | @plain n move moves moves' hplain _ ih =>
    obtain ⟨x₁, hmove, hrest⟩ := Option.bind_eq_some_iff.mp hx
    obtain ⟨y₁, hmove', hnext⟩ := h.plain hρ hplain hmove
    rw [follow?, hmove', Option.bind_some]
    refine ih hnext ?_ hrest
    rcases length_next? hmove with ⟨other, rfl, -⟩ | hlength
    · exact hplain.elim
    · exact hlength.trans hn

theorem end_eq (h : x.Without ρ m y) (hk : k ≠ m) : y.end? (placeWithout m k) = x.end? k := by
  simp only [end?, h.callers, getElem?_placeWithout _ hk, Engine.outcome?, h.engine.completed]

end Without

/-! ### Where a caller came in -/

theorem exists_begins {moves : List Move} {standing : Standing} (hsound : x.Sound) (h : x.follow? moves = some y)
    (hm : x.callers.length ≤ m) (hk : y.callers[m]? = some (inquiry, standing)) :
    ∃ before w later, moves = before ++ .begins inquiry :: later ∧ x.follow? before = some w ∧
      w.callers.length = m ∧ (w.begin inquiry).follow? later = some y := by
  induction moves generalizing x with
  | nil =>
    obtain rfl := Option.some.inj h
    rw [List.getElem?_eq_none hm] at hk
    cases hk
  | cons move moves ih =>
    obtain ⟨z, hmove, hrest⟩ := Option.bind_eq_some_iff.mp h
    have hstep : Step x z := step_iff_next?.mpr ⟨move, hmove⟩
    -- The move before which the place is not there, and after which it is, is the one.
    by_cases hlater : z.callers.length ≤ m
    · obtain ⟨before, w, later, rfl, hbefore, hw, hrest'⟩ := ih (hstep.sound hsound) hrest hlater
      refine ⟨move :: before, w, later, rfl, ?_, hw, hrest'⟩
      rw [follow?, hmove, Option.bind_some, hbefore]
    · obtain ⟨other, rfl, rfl⟩ := (length_next? hmove).resolve_right fun hsame => hlater (hsame ▸ hm)
      rw [length_begin] at hlater
      have hlength : x.callers.length = m := by omega
      have hbegun : (x.begin other).callers[m]? = some (other, x.standing other) := by simp [begin, ← hlength]
      obtain ⟨latest, hy, -⟩ := becomes_of_reach (reach_iff_follow?.mpr ⟨moves, hrest⟩) (hstep.sound hsound) hbegun
      obtain ⟨rfl, -⟩ := Prod.mk.inj (Option.some.inj (hk.symm.trans hy))
      exact ⟨[], x, moves, rfl, rfl, hlength, hrest⟩

theorem exists_admitted {moves : List Move} {id : Text} (h : x.follow? moves = some y) (hm : .asks m id ∈ moves) :
    ∃ z inquiry, ReflTransGen Step x z ∧ ReflTransGen Step z y ∧ z.callers[m]? = some (inquiry, .admitted) := by
  obtain ⟨before, later, rfl⟩ := List.append_of_mem hm
  rw [follow?_append] at h
  obtain ⟨z, hbefore, hrest⟩ := Option.bind_eq_some_iff.mp h
  obtain ⟨z', hmove, -⟩ := Option.bind_eq_some_iff.mp hrest
  obtain ⟨inquiry, hadmitted, -, -⟩ := next?_asks.mp hmove
  exact ⟨z, inquiry, reach_iff_follow?.mpr ⟨before, hbefore⟩, reach_iff_follow?.mpr ⟨_, hrest⟩, hadmitted⟩

theorem not_asks_of_failed {moves : List Move} {failure : Failure} (hsound : x.Sound) (h : x.follow? moves = some y)
    (hm : x.callers[m]? = some (inquiry, .failed failure)) (id : Text) : .asks m id ∉ moves := by
  intro hasks
  obtain ⟨z, other, hreach, -, hadmitted⟩ := exists_admitted h hasks
  obtain ⟨standing, hz, hbecomes⟩ := becomes_of_reach hreach hsound hm
  cases hbecomes
  cases hadmitted.symm.trans hz

theorem not_asks_of_length {moves : List Move} (hsound : x.Sound) (h : x.follow? moves = some y)
    (hm : y.callers.length ≤ m) (id : Text) : .asks m id ∉ moves := by
  intro hasks
  obtain ⟨z, other, hreach, hreach', hadmitted⟩ := exists_admitted h hasks
  obtain ⟨standing, hy, -⟩ := becomes_of_reach hreach' (hsound.reach hreach) hadmitted
  rw [List.getElem?_eq_none hm] at hy
  cases hy

end Service

theorem exists_leavesOut {m : Nat} {moves : List Move} (h : ∀ id, .asks m id ∉ moves) (n : Nat) :
    ∃ moves', LeavesOut id m n moves moves' := by
  induction moves generalizing n with
  | nil => exact ⟨[], .done⟩
  | cons move moves ih =>
    have hrest := ih fun id hm => h id (List.mem_cons_of_mem _ hm)
    cases move with
    | begins inquiry =>
      obtain ⟨moves', hmoves⟩ := hrest (n + 1)
      by_cases hn : n = m
      · subst hn
        exact ⟨moves', .skips hmoves⟩
      · exact ⟨_, .begins hn hmoves⟩
    | asks k id =>
      obtain ⟨moves', hmoves⟩ := hrest n
      refine ⟨_, .asks ?_ hmoves⟩
      rintro rfl
      exact h id List.mem_cons_self
    | hears line =>
      obtain ⟨moves', hmoves⟩ := hrest n
      refine ⟨.hears line :: moves', .hears ?_ hmoves⟩
      rw [Event.renamed_id, Option.map_id, id]
    | _ =>
      obtain ⟨moves', hmoves⟩ := hrest n
      exact ⟨_, .plain trivial hmoves⟩

/-! ### What is refused -/

theorem Json.errorClass?_of_reply? {content : Json} {id : Text} {failure : Failure}
    (h : content.reply? = some (id, .error failure)) : failure.errorClass? ≠ some .refusal := by
  rw [Json.reply?_eq] at h
  obtain ⟨⟨answer, value⟩, -, h⟩ := Option.bind_eq_some_iff.mp h
  obtain ⟨name, -, h⟩ := Option.map_eq_some_iff.mp h
  obtain ⟨-, houtcome⟩ := Prod.mk.inj h
  cases answer <;> cases houtcome <;> nofun

theorem Event.Decides.errorClass? {r : Request} {event : Event} {failure : Failure}
    (h : event.Decides r (.error failure)) : failure.errorClass? ≠ some .refusal := by
  cases h with
  | reply reply => exact Json.errorClass?_of_reply? reply
  | protocolError words => nofun

theorem Operation.errorClass?_of_value {operation : Operation} {result : Host.Value} {failure : Failure}
    (h : operation.value result = .error failure) : failure.errorClass? ≠ some .refusal := by
  unfold value at h
  split at h
  · cases h
  · split at h
    · cases h
    · rename_i reason _
      obtain rfl := Except.error.inj h
      cases reason <;> nofun

namespace Service
variable {x y : Service} {e : Engine} {m k : Nat} {g : Host.Graph} {operation : Operation} {failure : Failure}

/-- No operation whose request has an end fails as one that is refused. -/
theorem errorClass?_of_outcome {serial : Nat} {outcome : Outcome} (he : e.Fresh) (h : Run e x)
    (houtcome : x.engine.outcome? serial = some outcome)
    (hresult : (outcome.bind operation.value : Outcome) = .error failure) : failure.errorClass? ≠ some .refusal := by
  cases outcome with
  | ok value => exact Operation.errorClass?_of_value hresult
  | error other =>
    obtain rfl : other = failure := Except.error.inj hresult
    obtain ⟨r, -, -, hclosed | hdecided⟩ := (Run.decided he h).completed _ (exists_completion houtcome)
    · obtain ⟨words, hwords⟩ := hclosed
      obtain rfl := Except.error.inj hwords
      nofun
    · obtain ⟨before, middle, event, after, -, hdecides, -⟩ := hdecided
      exact hdecides.errorClass?

/-- An operation that fails so has never had a request. -/
theorem standing_of_refusal {standing : Standing} (he : e.Fresh) (h : Run e x)
    (hm : x.callers[m]? = some (.perform g operation, standing)) (hend : x.end? m = some (.error failure))
    (hclass : failure.errorClass? = some .refusal) : standing = .failed failure := by
  simp only [end?, hm] at hend
  cases standing with
  | admitted => cases hend
  | failed other =>
    obtain rfl := Except.error.inj (Option.some.inj hend)
    rfl
  | waits serial =>
    obtain ⟨outcome, houtcome, hresult⟩ := Option.map_eq_some_iff.mp hend
    exact absurd hclass (errorClass?_of_outcome he h houtcome hresult)

/-- The request that the caller at a place waits for. -/
def requestOf? (x : Service) (k : Nat) : Option Request :=
  match x.callers[k]? with
  | some (_, .waits serial) => x.asked.find? fun r => r.serial = serial
  | _ => none

namespace Without
variable {ρ : Text → Text}

theorem requestOf?_eq (h : x.Without ρ m y) (hk : k ≠ m) :
    y.requestOf? (placeWithout m k) = (x.requestOf? k).map (Request.renamed ρ) := by
  simp only [requestOf?, h.callers, getElem?_placeWithout _ hk, h.asked]
  split
  · rw [List.find?_map]
    rfl
  · rfl

theorem written (h : x.Without ρ m y) : List.Forall₂ (WriteRenamed ρ) x.engine.written y.engine.written := by
  rw [Engine.written, Engine.written]
  rcases h.engine.connection_cases with ⟨hc, hc'⟩ | ⟨c, c', hc, hc', hrenamed⟩ <;> rw [hc, hc']
  · exact .nil
  · exact hrenamed.written

end Without

/-- The caller at a place has left no trace in a course of moves: when it began, nothing else changed, and it did not go
    on. There is the same course without it, and whatever the ids are in that, the peer is sent the same lines up to
    them, and every other caller has the same request and comes to the same. -/
structure Traceless (e : Engine) (moves : List Move) (x : Service) (m : Nat) (inquiry : Inquiry) (failure : Failure) :
    Prop where
  begins : ∃ before w later, moves = before ++ .begins inquiry :: later ∧ (start e).follow? before = some w ∧
    w.callers.length = m ∧ w.begin inquiry = { w with callers := w.callers ++ [(inquiry, .failed failure)] }
  silent : ∀ id, .asks m id ∉ moves
  possible : ∃ moves', LeavesOut id m 0 moves moves'
  others : ∀ ρ, Function.Injective ρ → ∀ moves', LeavesOut ρ m 0 moves moves' →
    ∃ y, (start e).follow? moves' = some y ∧ x.Without ρ m y ∧
      List.Forall₂ (WriteRenamed ρ) x.engine.written y.engine.written ∧
      ∀ k ≠ m, y.requestOf? (placeWithout m k) = (x.requestOf? k).map (Request.renamed ρ) ∧
        y.end? (placeWithout m k) = x.end? k

theorem without_start (he : e.Fresh) (ρ : Text → Text) (m : Nat) : (start e).Without ρ m (start e) := by
  have hqueue : e.queue = e.queue.map (Event.renamed ρ) := by
    rw [he.queue]
    split <;> rfl
  have hconnection : Option.Rel (Connection.Renamed ρ) e.connection e.connection := by
    rw [he.connection]
    exact .some ⟨rfl, rfl, .nil⟩
  have hpending : e.pending = e.pending.map (renameWaiting ρ) := by rw [he.pending, List.map_nil]
  exact ⟨⟨⟨rfl, rfl, rfl, hqueue, hpending, rfl, rfl, hconnection, rfl, rfl⟩, rfl, .take, rfl, rfl⟩, rfl⟩

theorem traceless_of_refusal {moves : List Move} {standing : Standing} (he : e.Fresh)
    (hx : (start e).follow? moves = some x) (hm : x.callers[m]? = some (.perform g operation, standing))
    (hend : x.end? m = some (.error failure)) (hclass : failure.errorClass? = some .refusal) :
    Traceless e moves x m (.perform g operation) failure := by
  have hstart : (start e).Sound := sound_start he
  obtain rfl := standing_of_refusal he (reach_iff_follow?.mpr ⟨moves, hx⟩) hm hend hclass
  obtain ⟨before, w, later, rfl, hbefore, hw, hlater⟩ := exists_begins hstart hx (Nat.zero_le m) hm
  have hsound : w.Sound := hstart.reach (reach_iff_follow?.mpr ⟨before, hbefore⟩)
  have hbegun : (w.begin (.perform g operation)).callers[m]? =
      some (.perform g operation, w.standing (.perform g operation)) := by
    simp [begin, ← hw]
  -- An admitted caller would have come to a request, or have been told that the context is closed.
  have hstanding : w.standing (.perform g operation) = .failed failure := by
    obtain ⟨latest, hlatest, hbecomes⟩ := becomes_of_reach (reach_iff_follow?.mpr ⟨later, hlater⟩)
      ((Step.begins w _).sound hsound) hbegun
    obtain ⟨-, rfl⟩ := Prod.mk.inj (Option.some.inj (hm.symm.trans hlatest))
    generalize w.standing (.perform g operation) = standing at hbecomes
    cases hbecomes with
    | stays => rfl
    | fails words => cases hclass
  rw [hstanding] at hbegun
  have hsilent : ∀ id, .asks m id ∉ before ++ .begins (.perform g operation) :: later := by
    intro id hasks
    rcases List.mem_append.mp hasks with hasks | hasks
    · exact not_asks_of_length hstart hbefore hw.le id hasks
    · rcases List.mem_cons.mp hasks with hasks | hasks
      · cases hasks
      · exact not_asks_of_failed ((Step.begins w _).sound hsound) hlater hbegun id hasks
  refine ⟨⟨before, w, later, rfl, hbefore, hw, by rw [begin, hstanding]⟩, hsilent, exists_leavesOut hsilent 0, ?_⟩
  intro ρ hρ moves' hleaves
  obtain ⟨y, hy, hwithout⟩ := (without_start he ρ m).follow hρ hleaves rfl hx
  exact ⟨y, hy, hwithout, hwithout.written, fun k hk => ⟨hwithout.requestOf?_eq hk, hwithout.end_eq hk⟩⟩

end Service

namespace Session
variable {s s' : Session} {g : Host.Graph} {operation : Operation} {failure : Failure}

theorem afterAll_append (s : Session) (deeds later : List Deed) :
    s.afterAll (deeds ++ later) = (s.afterAll deeds).afterAll later := List.foldl_append

/-- In a session, where one operation comes after the other, one that is refused leaves all as it is. -/
theorem eq_of_refusal {machine : Machine} {site site' : Site} {ids : Nat → Text} {deeds meanwhile : List Deed}
    (huntried : site.engine.Untried) (hstart : site.start machine = (.ok (), site')) (hids : Function.Injective ids)
    (hs : s = (idle site ids).afterAll (.start machine :: deeds))
    (hperform : s.perform g operation (·.afterAll meanwhile) = (some (.error failure), s'))
    (hclass : failure.errorClass? = some .refusal) : s' = s := by
  rcases hpayload : operation.payload g with refusal | payload <;> simp only [perform, hpayload] at hperform
  · exact (Prod.mk.inj hperform).2.symm
  split at hperform
  · obtain rfl := Except.error.inj (Option.some.inj (Prod.mk.inj hperform).1)
    cases hclass
  simp only [ask] at hperform
  rcases hrequest : s.request (.text operation.requestName) payload with ⟨other | serial, s₁⟩ <;>
    simp only [hrequest] at hperform
  · obtain rfl := Except.error.inj (Option.some.inj (Prod.mk.inj hperform).1)
    unfold request at hrequest
    split at hrequest <;> cases hrequest
    cases hclass
  · -- The end of the request is that in a run of the threads.
    have hdeeds : s₁.afterAll meanwhile = (idle site ids).afterAll
        (.start machine :: (deeds ++ .request (.text operation.requestName) payload :: meanwhile)) := by
      rw [← List.cons_append, afterAll_append, ← hs, afterAll_cons, after, hrequest]
    obtain ⟨x, hrun, hmirrors⟩ := exists_run_afterAll huntried hstart hids
      (deeds ++ .request (.text operation.requestName) payload :: meanwhile)
    rw [← hdeeds] at hmirrors
    obtain ⟨outcome, houtcome, hresult⟩ := Option.map_eq_some_iff.mp (Prod.mk.inj hperform).1
    rw [← hmirrors.rests.engine] at houtcome
    exact absurd hclass (Service.errorClass?_of_outcome (Engine.fresh_of_start huntried hstart) hrun houtcome hresult)

end Session

namespace Service

/-- An operation on a context that started. In a session one that is refused changes nothing at all. And however the
    moves of the threads follow one another, one that fails so, whatever its arguments are, leaves no trace. -/
theorem refused_leaves_no_trace {machine : Machine} {site site' : Site} (huntried : site.engine.Untried)
    (hstart : site.start machine = (.ok (), site')) :
    (∀ ids, Function.Injective ids → ∀ (deeds meanwhile : List Session.Deed) s s' g operation failure,
      s = (Session.idle site ids).afterAll (.start machine :: deeds) →
      s.perform g operation (·.afterAll meanwhile) = (some (.error failure), s') →
      failure.errorClass? = some .refusal → s' = s) ∧
    ∀ moves x m g operation standing failure, (start site'.engine).follow? moves = some x →
      x.callers[m]? = some (.perform g operation, standing) → x.end? m = some (.error failure) →
      failure.errorClass? = some .refusal → Traceless site'.engine moves x m (.perform g operation) failure := by
  refine ⟨fun ids hids deeds meanwhile s s' g operation failure hs hperform hclass => ?_, ?_⟩
  · exact Session.eq_of_refusal huntried hstart hids hs hperform hclass
  · intro moves x m g operation standing failure hx hm hend hclass
    exact traceless_of_refusal (Engine.fresh_of_start huntried hstart) hx hm hend hclass

/-! While one request is on its way, a property is asked for under a name that is none. -/

/-- An operation without a name, which is refused. -/
def nameless : Inquiry := .perform .empty (.getProp (.scalar .none))

/-- A course in which it is refused while another caller's request is on its way. -/
def namelessCourse : List Move := [.begins ping, .begins nameless, .asks 0 (.ofNat 0), .works, .works, .works]

theorem nameless_leaves_no_trace : Session.prepared.start Session.connecting = (.ok (), connected) ∧
    ∃ x failure, (start connected.engine).follow? namelessCourse = some x ∧ x.end? 1 = some (.error failure) ∧
      failure.errorClass? = some .refusal ∧ x.engine.written.length = 1 ∧
      Traceless connected.engine namelessCourse x 1 nameless failure := by
  obtain ⟨x, standing, failure, hx, hm, hend, hclass, hwritten⟩ : ∃ x standing failure,
      (start connected.engine).follow? namelessCourse = some x ∧ x.callers[1]? = some (nameless, standing) ∧
      x.end? 1 = some (.error failure) ∧ failure.errorClass? = some .refusal ∧ x.engine.written.length = 1 :=
    ⟨_, _, _, rfl, rfl, rfl, rfl, rfl⟩
  obtain ⟨-, htraceless⟩ := refused_leaves_no_trace (.inl rfl) prepared_starts
  have hnone := htraceless namelessCourse x 1 _ _ standing failure hx hm hend hclass
  exact ⟨rfl, x, failure, hx, hend, hclass, hwritten, hnone⟩

end Service
end ScriptLink
