import ScriptLink.Proofs.Showing
import ScriptLink.Session

/-! # What a session makes of the bytes it hears

    A session at work hears chunks, with pauses between them. The reader makes lines of the chunks and the loop handles
    the event of each line, and both have nothing left to do before the next chunk comes. Main statement: what the
    chunks make of the requests is what their lines make of them one after the other, wherever the chunks were cut. -/

namespace ScriptLink

/-! ### Lines and requests -/

/-- The requests of an engine: those that wait, and the ends of the others. -/
structure Ledger where
  pending : Members Request
  completed : List Completion

/-- The requests of an engine. -/
def Engine.ledger (e : Engine) : Ledger := ⟨e.pending, e.completed⟩

/-- The answer on a line, with the id of the request that it is for. -/
def replyOn? (line : List UInt8) : Option (Text × Outcome) :=
  (contentOn? line).bind Json.reply?

/-- A line that is blank or holds a value, but no answer that cannot be looked up, and no value without an answer that is
    too deep for the log. -/
def IsPlain (line : List UInt8) : Prop :=
  line.all isBlankByte = true ∨
    ∃ content, contentOn? line = some content ∧ ¬ content.Misaddressed ∧ ¬ content.Unloggable

namespace Ledger

/-- The requests after an answer to the one under an id. -/
def settle (l : Ledger) (id : Text) (outcome : Outcome) : Ledger :=
  match l.pending.find? id with
  | some r => ⟨l.pending.filter fun entry => entry.1 ≠ id, l.completed ++ [⟨r.serial, outcome⟩]⟩
  | none => l

/-- The requests after a line. -/
def hear (l : Ledger) (line : List UInt8) : Ledger :=
  match replyOn? line with
  | some (id, outcome) => l.settle id outcome
  | none => l

/-- Where nothing waits, no line matters. -/
theorem foldl_hear_of_idle (completed : List Completion) (lines : List (List UInt8)) :
    lines.foldl hear ⟨[], completed⟩ = ⟨[], completed⟩ := by
  induction lines with
  | nil => rfl
  | cons line lines ih =>
    have hline : hear ⟨[], completed⟩ line = ⟨[], completed⟩ := by
      unfold hear
      split <;> rfl
    rw [List.foldl_cons, hline, ih]

/-- Lines that do not answer the one request that waits do not matter. -/
theorem foldl_hear_of_unanswered {id : Text} {r : Request} {completed : List Completion} {lines : List (List UInt8)}
    (h : ∀ line ∈ lines, ∀ outcome, replyOn? line ≠ some (id, outcome)) :
    lines.foldl hear ⟨[(id, r)], completed⟩ = ⟨[(id, r)], completed⟩ := by
  induction lines with
  | nil => rfl
  | cons line lines ih =>
    have hline : hear ⟨[(id, r)], completed⟩ line = ⟨[(id, r)], completed⟩ := by
      unfold hear
      split
      · rename_i other outcome hreply
        have hne : id ≠ other := by
          rintro rfl
          exact h line List.mem_cons_self outcome hreply
        simp [settle, Members.find?, hne]
      · rfl
    rw [List.foldl_cons, hline, ih fun other hm => h other (List.mem_cons_of_mem _ hm)]

/-- Of some lines the first that answers the one request that waits completes it. -/
theorem foldl_hear_answer {id : Text} {r : Request} {completed : List Completion} {before after : List (List UInt8)}
    {answer : List UInt8} {outcome : Outcome} (hbefore : ∀ line ∈ before, ∀ outcome, replyOn? line ≠ some (id, outcome))
    (hanswer : replyOn? answer = some (id, outcome)) :
    (before ++ answer :: after).foldl hear ⟨[(id, r)], completed⟩ = ⟨[], completed ++ [⟨r.serial, outcome⟩]⟩ := by
  have hline : hear ⟨[(id, r)], completed⟩ answer = ⟨[], completed ++ [⟨r.serial, outcome⟩]⟩ := by
    simp [hear, hanswer, settle, Members.find?]
  rw [List.foldl_append, foldl_hear_of_unanswered hbefore, List.foldl_cons, hline, foldl_hear_of_idle]

end Ledger

theorem isPlain_of_replyOn? {line : List UInt8} {reply : Text × Outcome} (h : replyOn? line = some reply) :
    IsPlain line := by
  obtain ⟨content, hcontent, hreply⟩ := Option.bind_eq_some_iff.mp h
  exact .inr ⟨content, hcontent, Event.fault?_eq_none_iff.mp (Json.fault?_of_reply? hreply)⟩

namespace Engine
variable {e : Engine}

theorem heed_eq (e : Engine) (content : Json) : e.heed content =
    { e with pending := (e.heed content).pending, completed := (e.heed content).completed } := by
  unfold heed
  split
  · rfl
  · split <;> rfl

theorem ledger_heed {line : List UInt8} {content : Json} (h : contentOn? line = some content) :
    (e.heed content).ledger = e.ledger.hear line := by
  have hreply : replyOn? line = content.reply? := by rw [replyOn?, h, Option.bind_some]
  rcases hr : content.reply? with _ | ⟨id, outcome⟩
  · simp only [heed, Ledger.hear, hreply, hr]
  · rcases hf : e.pending.find? id with _ | r
    · simp only [heed, Ledger.hear, Ledger.settle, hreply, hr, ledger, hf]
    · simp only [heed, Ledger.hear, Ledger.settle, hreply, hr, ledger, hf]
      rfl

/-- A loop with nothing to take waits. -/
theorem runFor_of_empty (h : e.queue = []) (steps : Nat) : e.runFor steps = (e, .waiting) := by
  cases steps with
  | zero => rfl
  | succ steps => simp only [runFor, h]

/-- A run over the events of plain lines does what the lines do, and waits. -/
theorem runFor_lines {lines : List (List UInt8)} {steps : Nat} (hp : ∀ line ∈ lines, IsPlain line)
    (hq : e.queue = lines.filterMap Event.ofLine?) (hs : (lines.filterMap Event.ofLine?).length ≤ steps) :
    ∃ log, e.runFor steps = ({ e with
      queue := []
      pending := (lines.foldl Ledger.hear e.ledger).pending
      completed := (lines.foldl Ledger.hear e.ledger).completed
      log := log }, .waiting) := by
  induction lines generalizing e steps with
  | nil =>
    refine ⟨e.log, (runFor_of_empty hq steps).trans ?_⟩
    have hqueue : [] = e.queue := hq.symm
    rw [hqueue]
    rfl
  | cons line lines ih =>
    have hp' : ∀ other ∈ lines, IsPlain other := fun other hm => hp other (List.mem_cons_of_mem _ hm)
    rcases hp line List.mem_cons_self with hblank | ⟨content, hcontent, hsafe⟩
    · -- A blank line puts nothing into the queue.
      have hevent : Event.ofLine? line = none := by rw [Event.ofLine?, if_pos hblank]
      have hhear : e.ledger.hear line = e.ledger := by
        simp only [Ledger.hear, replyOn?, contentOn?, if_pos hblank, Option.bind_none]
      rw [List.filterMap_cons, hevent] at hq hs
      rw [List.foldl_cons, hhear]
      exact ih hp' hq hs
    · -- Any other one costs a step, in which its message is heeded.
      have hevent := Event.ofLine?_of_contentOn? hcontent
      rw [List.filterMap_cons, hevent] at hq hs
      obtain ⟨steps, rfl⟩ := Nat.exists_eq_add_one.mpr (Nat.lt_of_lt_of_le (Nat.succ_pos _) hs)
      obtain ⟨log, hhandle⟩ := handle_message (e := { e with queue := lines.filterMap Event.ofLine? })
        (Event.fault?_eq_none_iff.mpr hsafe) (tellable_of_contentOn? hcontent)
      have hledger : (heed { e with queue := lines.filterMap Event.ofLine? } content).ledger = e.ledger.hear line :=
        ledger_heed hcontent
      rw [heed_eq] at hhandle
      obtain ⟨log', hrun⟩ := ih hp' rfl (Nat.le_of_succ_le_succ hs) (e := { e with
        queue := lines.filterMap Event.ofLine?
        pending := (heed { e with queue := lines.filterMap Event.ofLine? } content).pending
        completed := (heed { e with queue := lines.filterMap Event.ofLine? } content).completed
        log := log })
      refine ⟨log', ?_⟩
      simp only [runFor, hq, hhandle, hrun, List.foldl_cons]
      rw [← hledger]
      rfl

end Engine

/-! ### Receiving -/

/-- An attempt that gives something or nothing for now, while nobody stops the engine. -/
structure Receipt.Quiet (receipt : Receipt) : Prop where
  stopsWaiting : receipt.stopsWaiting = false
  stops : receipt.stops = false
  received : (∃ chunk, receipt.received = .data chunk ∧ chunk ≠ []) ∨ receipt.received = .nothing ∨
    ∃ fault, receipt.received = .fault fault ∧ fault.wouldBlock = true

/-- What an attempt received. -/
def Receipt.bytes (receipt : Receipt) : List UInt8 :=
  match receipt.received with
  | .data chunk => chunk
  | _ => []

/-- The process goes on, whenever it is looked at. -/
def Engine.Lives (e : Engine) : Prop :=
  ∀ process, e.process = some process → ∀ look ∈ process.looks, look = none

theorem Worker.forall_afterLook {w : Worker} (h : ∀ look ∈ w.looks, look = none) :
    ∀ look ∈ w.afterLook.looks, look = none := by
  intro look hm
  unfold Worker.afterLook at hm
  split at hm
  · rename_i first next later hlist
    exact h look (by rw [hlist]; exact List.mem_cons_of_mem _ hm)
  · exact h look hm

namespace Reader

/-- An attempt while nobody stops the engine, with a look at a process that goes on or without one. -/
theorem advance_undisturbed {r : Reader} {receipt : Receipt} (looks : Bool) (hs : r.engine.stopping = false)
    (hl : r.engine.Lives) (hwaiting : receipt.stopsWaiting = false) (hstops : receipt.stops = false) :
    ∃ process, ({ r.engine with process := process } : Engine).Lives ∧
      advance looks r receipt = accept { r with
        engine := { r.engine with process := process }
        attempts := r.attempts + 1 } receipt.received := by
  have hattempt : ∀ r : Reader, r.attempt receipt = accept { r with attempts := r.attempts + 1 } receipt.received :=
    fun r => by
      rw [attempt, hstops]
      rfl
  cases looks with
  | false => exact ⟨r.engine.process, hl, by simp only [advance, Bool.false_eq_true, if_false, hattempt]⟩
  | true =>
    rcases hp : r.engine.process with _ | process
    · have hlook : r.look receipt.stopsWaiting = (r, true) := by simp [look, hs, hwaiting, stopIf, hp]
      exact ⟨r.engine.process, hl, by simp only [advance, if_true, hlook, hattempt]⟩
    · have hlooks := hl process hp
      have hexit : process.exitCode? = none := by
        rcases hlist : process.looks with _ | ⟨look, later⟩
        · simp [Worker.exitCode?, hlist]
        · rw [Worker.exitCode?, hlist, hlooks look (by rw [hlist]; exact List.mem_cons_self)]
          rfl
      refine ⟨some process.afterLook, ?_, ?_⟩
      · intro other ho
        obtain rfl := Option.some.inj ho
        exact Worker.forall_afterLook hlooks
      · have hlook : r.look receipt.stopsWaiting =
            ({ r with engine := { r.engine with process := some process.afterLook } }, true) := by
          simp [look, hs, hwaiting, stopIf, hp, hexit]
        simp only [advance, if_true, hlook, hattempt]

theorem take_nil (r : Reader) : r.take [] = r := by
  simp only [take, linesOfChunk_nil, List.filterMap_nil, List.append_nil]

/-- A quiet attempt ends lines, or none, and the reader goes on. -/
theorem accept_quiet (r : Reader) {receipt : Receipt} (hq : receipt.Quiet) :
    ∃ progress, (∀ fault, progress ≠ .ended fault) ∧ accept r receipt.received = (r.take receipt.bytes, progress) := by
  rcases hq.received with ⟨chunk, hchunk, hne⟩ | hnothing | ⟨fault, hfault, hblock⟩
  · obtain ⟨b, bytes, rfl⟩ := List.exists_cons_of_ne_nil hne
    refine ⟨.sameRound, fun _ => Progress.noConfusion, ?_⟩
    simp only [Receipt.bytes, hchunk, accept]
  · refine ⟨.newRound, fun _ => Progress.noConfusion, ?_⟩
    simp only [Receipt.bytes, hnothing, accept, take_nil]
  · refine ⟨.newRound, fun _ => Progress.noConfusion, ?_⟩
    simp only [Receipt.bytes, hfault, accept, hblock, if_true, take_nil]

end Reader

namespace Session
variable {s s' s'' : Session}

/-- A session at work that has dealt with all there was. -/
structure Working (s : Session) : Prop where
  started : s.engine.started = true
  stopping : s.engine.stopping = false
  gone : s.engine.gone = none
  queue : s.engine.queue = []
  connection : ∃ c, s.engine.connection = some c ∧ ∀ obstacle ∈ c.obstacles, obstacle = none
  lives : s.engine.Lives
  reading : s.reading = true
  looping : s.looping = true

/-- What hearing some lines makes of a session. -/
structure Hears (s : Session) (lines : List (List UInt8)) (s' : Session) : Prop where
  working : s'.Working
  ledger : s'.engine.ledger = lines.foldl Ledger.hear s.engine.ledger
  connection : s'.engine.connection = s.engine.connection
  requests : s'.requests = s.requests
  ids : s'.ids = s.ids

theorem Hears.trans {lines later : List (List UInt8)} (h : s.Hears lines s') (h' : s'.Hears later s'') :
    s.Hears (lines ++ later) s'' where
  working := h'.working
  ledger := by rw [h'.ledger, h.ledger, List.foldl_append]
  connection := h'.connection.trans h.connection
  requests := h'.requests.trans h.requests
  ids := h'.ids.trans h.ids

theorem settle_of_waiting {e : Engine} (hl : s.looping = true) (hrun : s.engine.run = (e, .waiting)) :
    s.settle = s.withEngine e := by
  simp only [settle, hl, if_true, hrun, withEngine, decide_true]

/-- The loop deals with the events of plain lines, and goes on to wait. -/
theorem settle_lines {lines : List (List UInt8)} (hp : ∀ line ∈ lines, IsPlain line) (hl : s.looping = true)
    (hq : s.engine.queue = lines.filterMap Event.ofLine?) : ∃ log, s.settle = s.withEngine { s.engine with
      queue := []
      pending := (lines.foldl Ledger.hear s.engine.ledger).pending
      completed := (lines.foldl Ledger.hear s.engine.ledger).completed
      log := log } := by
  have hsteps : (lines.filterMap Event.ofLine?).length ≤ s.engine.stepsLeft := by
    rw [Engine.stepsLeft, hq]
    exact Nat.le_add_right _ _
  obtain ⟨log, hrun⟩ := Engine.runFor_lines hp hq hsteps
  exact ⟨log, settle_of_waiting hl hrun⟩

/-- An attempt behind which the events of plain lines stand in the queue. -/
theorem hears_of_advance {receipt : Receipt} {lines : List (List UInt8)} {process : Option Worker}
    {unfinished : List UInt8} {progress : Reader.Progress} (h : s.Working)
    (hlives : ({ s.engine with process := process } : Engine).Lives) (hp : ∀ line ∈ lines, IsPlain line)
    (hprogress : ∀ fault, progress ≠ .ended fault)
    (hadvance : Reader.advance s.looks ⟨s.engine, s.unfinished, 0⟩ receipt =
      (⟨{ s.engine with process := process, queue := lines.filterMap Event.ofLine? }, unfinished, 1⟩, progress)) :
    s.Hears lines (s.receive receipt) ∧ (s.receive receipt).unfinished = unfinished := by
  set heard : Session := { s.withEngine { s.engine with
    process := process
    queue := lines.filterMap Event.ofLine? } with
      unfinished := unfinished
      looks := progress = .newRound
      reading := true }
  have hreceive : s.receive receipt = heard.settle := by
    cases progress with
    | ended fault => exact absurd rfl (hprogress fault)
    | _ => simp only [receive, h.reading, if_true, hadvance, heard]
  obtain ⟨log, hsettle⟩ := settle_lines (s := heard) hp h.looping rfl
  rw [hreceive, hsettle]
  exact ⟨⟨⟨h.started, h.stopping, h.gone, rfl, h.connection, hlives, rfl, h.looping⟩, rfl, rfl, rfl, rfl⟩, rfl⟩

theorem receive_quiet {receipt : Receipt} (h : s.Working) (hq : receipt.Quiet)
    (hp : ∀ line ∈ (linesOfChunk s.unfinished receipt.bytes).1, IsPlain line) :
    s.Hears (linesOfChunk s.unfinished receipt.bytes).1 (s.receive receipt) ∧
      (s.receive receipt).unfinished = (linesOfChunk s.unfinished receipt.bytes).2 := by
  obtain ⟨process, hlives, hadvance⟩ :=
    Reader.advance_undisturbed (r := ⟨s.engine, s.unfinished, 0⟩) s.looks h.stopping h.lives hq.stopsWaiting hq.stops
  obtain ⟨progress, hprogress, haccept⟩ :=
    Reader.accept_quiet ⟨{ s.engine with process := process }, s.unfinished, 1⟩ hq
  refine hears_of_advance h hlives hp hprogress ((hadvance.trans haccept).trans ?_)
  simp only [Reader.take, h.queue, List.nil_append]

/-- What some attempts received, one behind the other. -/
def heardBytes (receipts : List Receipt) : List UInt8 := receipts.flatMap Receipt.bytes

/-- Some quiet attempts: only the lines matter, not where the chunks were cut. -/
theorem hear_quiet {receipts : List Receipt} (h : s.Working) (hq : ∀ receipt ∈ receipts, receipt.Quiet)
    (hp : ∀ line ∈ (linesOfChunk s.unfinished (heardBytes receipts)).1, IsPlain line) :
    s.Hears (linesOfChunk s.unfinished (heardBytes receipts)).1 (s.hear receipts) ∧
      (s.hear receipts).unfinished = (linesOfChunk s.unfinished (heardBytes receipts)).2 := by
  induction receipts generalizing s with
  | nil =>
    rw [heardBytes, List.flatMap_nil, linesOfChunk_nil]
    exact ⟨⟨h, rfl, rfl, rfl, rfl⟩, rfl⟩
  | cons receipt receipts ih =>
    rw [heardBytes, List.flatMap_cons, linesOfChunk_append] at hp ⊢
    obtain ⟨hfirst, hunfinished⟩ := receive_quiet h (hq receipt List.mem_cons_self) fun line hm =>
      hp line (List.mem_append_left _ hm)
    rw [← hunfinished] at hp ⊢
    obtain ⟨hrest, hlast⟩ := ih hfirst.working (fun other hm => hq other (List.mem_cons_of_mem _ hm)) fun line hm =>
      hp line (List.mem_append_right _ hm)
    exact ⟨hfirst.trans hrest, hlast⟩

end Session

end ScriptLink
