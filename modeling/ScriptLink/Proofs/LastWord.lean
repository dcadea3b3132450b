import ScriptLink.Proofs.Listening

/-! # The last word of a reader

    A reader that went away without a word would leave requests waiting. Main statement: however its moves and those
    of a stop follow one another, it ends behind at most one closing event, with every line in front of it, and
    without one only when the engine is stopped. No exception leaves it but one that was raised while it received, or
    that of the registration, which finds the connection closed when a stop came before it. -/

namespace ScriptLink

/-! ### What was queued -/

/-- Whether an event is a finish. -/
def Event.isFinish : Event → Bool
  | .finish => true
  | _ => false

theorem Event.isFinish_of_ofLine? {line : List UInt8} {event : Event} (h : Event.ofLine? line = some event) :
    event.isFinish = false := by
  unfold Event.ofLine? at h
  split at h
  · cases h
  · split at h
    · cases h
      rfl
    · cases h
      rfl

/-- Only a blank line has no event. -/
theorem Event.exists_of_not_blank {line : List UInt8} (h : line.all isBlankByte = false) :
    ∃ event, ofLine? line = some event := by
  rw [ofLine?, if_neg (by rw [h]; exact Bool.false_ne_true)]
  split <;> exact ⟨_, rfl⟩

/-- The bytes that an attempt brought. -/
def Received.bytes : Received → List UInt8
  | .data chunk => chunk
  | _ => []

/-- What an attempt raised. -/
def Received.raised? : Received → Option ReadFault
  | .fault raised => some (.system raised)
  | .unusable words => some (.unusable words)
  | _ => none

namespace ReadFault

/-- The exception says only that there is nothing for now. -/
def Blocks : ReadFault → Prop
  | .system fault => fault.wouldBlock = true
  | .unusable _ => False

/-- The exception leaves the reader that finds the engine stopped, or that does not. -/
def Escapes (stopped : Bool) : ReadFault → Prop
  | .system fault => fault.wouldBlock = false ∧ fault.badDescriptor = false
  | .unusable _ => stopped = false

theorem Blocks.not_escapes {raised : ReadFault} (h : raised.Blocks) (stopped : Bool) : ¬ raised.Escapes stopped := by
  intro hescapes
  cases raised with
  | system fault => exact Bool.noConfusion (h.symm.trans hescapes.1)
  | unusable words => exact h

/-- An exception that means something is passed over only when the engine is stopped; else it is told, and goes on as
    it should. -/
theorem task_cases {raised : ReadFault} (h : ¬ raised.Blocks) (stopping : Bool) :
    (stopping = true ∧ ¬ raised.Escapes stopping ∧ raised.task stopping = .ended none) ∨
      ∃ reason fault, raised.task stopping = .announce reason fault ∧
        ∀ other, fault = some other ↔ other = raised ∧ raised.Escapes stopping := by
  cases raised with
  | system fault =>
    have hblock : fault.wouldBlock = false := Bool.eq_false_iff.mpr h
    rcases hdescriptor : fault.badDescriptor with _ | _
    · refine .inr ⟨.ofString "connection failed: " ++ fault.message, some (.system fault), ?_, fun other => ?_⟩
      · simp only [task, hdescriptor, Bool.false_eq_true, if_false]
      · rw [Option.some_inj, eq_comm]
        exact (and_iff_left ⟨hblock, hdescriptor⟩).symm
    · have hstays : ¬ Escapes stopping (.system fault) := fun hescapes =>
        Bool.noConfusion (hdescriptor.symm.trans hescapes.2)
      cases stopping with
      | true => exact .inl ⟨rfl, hstays, by simp only [task, hdescriptor, if_true]⟩
      | false =>
        refine .inr ⟨.ofString "connection closed", none, ?_, fun other => ?_⟩
        · simp only [task, hdescriptor, Bool.false_eq_true, if_true, if_false]
        · exact ⟨fun hnone => (by cases hnone), fun hboth => absurd hboth.2 hstays⟩
  | unusable words =>
    cases stopping with
    | true => exact .inl ⟨rfl, Bool.noConfusion, rfl⟩
    | false =>
      refine .inr ⟨_, _, rfl, fun other => ?_⟩
      rw [Option.some_inj, eq_comm]
      exact (and_iff_left rfl).symm

end ReadFault

/-- The finish that a stop has queued by now. -/
def StopStage.finishes : StopStage → List Event
  | .before | .none | .flagged => []
  | .told | .closed | .done => [.finish]

namespace Task

/-- The lines that are still to be queued. -/
def owed : Task → List (List UInt8)
  | .queue lines => lines
  | _ => []

/-- Behind the registration nothing is queued about the end before the end, and nothing at the end only if the engine is
    stopped. -/
def Closes (stopping : Bool) (closing : Option Text) : Task → Prop
  | .register => False
  | .ended fault => closing = none → stopping = true ∧ fault = none
  | _ => closing = none

/-- The exceptions so far only said that there was nothing, but for the last when the task is about it. -/
def Explains (raisings : List ReadFault) (judged : Bool) : Task → Prop
  | .judge raised => raised ∈ raisings ∧ ¬ raised.Blocks ∧ ∀ other ∈ raisings, other.Blocks ∨ other = raised
  | .announce _ fault | .ended fault => ∀ raised, fault = some raised ↔ raised ∈ raisings ∧ raised.Escapes judged
  | _ => ∀ raised ∈ raisings, raised.Blocks

theorem Closes.mono {task : Task} {stopping later : Bool} {closing : Option Text} (h : task.Closes stopping closing)
    (hlater : stopping = true → later = true) : task.Closes later closing := by
  cases task with
  | ended fault => exact fun hnone => ⟨hlater (h hnone).1, (h hnone).2⟩
  | _ => exact h

/-- Where nothing was raised that ends anything, no exception leaves. -/
theorem explains_none {raisings : List ReadFault} (h : ∀ raised ∈ raisings, raised.Blocks) (judged : Bool) :
    ∀ raised, Option.none = some raised ↔ raised ∈ raisings ∧ raised.Escapes judged := by
  intro raised
  constructor
  · intro hnone
    cases hnone
  · rintro ⟨hm, hescapes⟩
    exact absurd hescapes ((h raised hm).not_escapes judged)

end Task

namespace Watch
variable {e : Engine} {script : List Received} {x : Watch} {added : List Event} {lines : List (List UInt8)}
  {closing : Option Text}

/-- All that was received. -/
def heard (x : Watch) : List UInt8 := x.taken.flatMap Received.bytes

/-- All that was raised while receiving. -/
def raisings (x : Watch) : List ReadFault := x.taken.filterMap Received.raised?

/-- What has been queued since the start is the events of the lines heard, then at most one closing event, and in
    between at most the finish of a stop. -/
structure Account (e : Engine) (script : List Received) (x : Watch) (added : List Event) (lines : List (List UInt8))
    (closing : Option Text) : Prop where
  queue : x.engine.queue = e.queue ++ added
  own : added.filter (! ·.isFinish) = lines.filterMap Event.ofLine? ++ closing.toList.map .closed
  finishes : added.filter (·.isFinish) = x.stage.finishes
  taken : script = x.taken ++ x.coming
  heard : x.heard = unlines (lines ++ x.task.owed) ++ x.unfinished
  whole : ∀ line ∈ lines ++ x.task.owed, (0x0A : UInt8) ∉ line
  torn : (0x0A : UInt8) ∉ x.unfinished
  closes : x.task.Closes x.engine.stopping closing
  explains : x.task.Explains x.raisings x.judged

namespace Account

theorem withTask {task : Task} (h : x.Account e script added lines closing) (howed : task.owed = x.task.owed)
    (hcloses : task.Closes x.engine.stopping closing) (hexplains : task.Explains x.raisings x.judged) :
    Account e script { x with task := task } added lines closing :=
  { h with
    heard := by rw [howed]; exact h.heard
    whole := by rw [howed]; exact h.whole
    closes := hcloses
    explains := hexplains }

/-- Another process, or another state of it. -/
theorem shift (h : x.Account e script added lines closing) (process : Option Worker) :
    Account e script { x with engine := { x.engine with process := process } } added lines closing :=
  { h with }

theorem heard_of_owed (h : x.Account e script added lines closing) (howed : x.task.owed = []) :
    x.heard = unlines lines ++ x.unfinished ∧ ∀ line ∈ lines, (0x0A : UInt8) ∉ line := by
  have hheard := h.heard
  have hwhole := h.whole
  rw [howed, List.append_nil] at hheard hwhole
  exact ⟨hheard, hwhole⟩

/-- An attempt that brings no bytes. -/
theorem taken_empty {received : Received} {later : List Received} {task : Task}
    (h : x.Account e script added lines closing) (hreceive : x.task = .receive) (hc : x.coming = received :: later)
    (hbytes : received.bytes = []) (howed : task.owed = []) (hcloses : task.Closes x.engine.stopping closing)
    (hexplains : task.Explains (x.raisings ++ received.raised?.toList) x.judged) : Account e script { x with
      coming := later
      taken := x.taken ++ [received]
      task := task } added lines closing := by
  obtain ⟨hheard, hwhole⟩ := h.heard_of_owed (by rw [hreceive]; rfl)
  refine ⟨h.queue, h.own, h.finishes, ?_, ?_, ?_, h.torn, hcloses, ?_⟩
  · rw [h.taken, hc, List.append_assoc, List.singleton_append]
  · rw [howed, List.append_nil, ← hheard]
    simp only [Watch.heard, List.flatMap_append, List.flatMap_cons, List.flatMap_nil, hbytes, List.append_nil]
  · rw [howed, List.append_nil]
    exact hwhole
  · have hraisings : x.raisings ++ received.raised?.toList =
        (x.taken ++ [received]).filterMap Received.raised? := by
      rw [List.filterMap_append, List.filterMap_eq_flatMap_toList (l := [received]), List.flatMap_singleton]
      rfl
    rw [hraisings] at hexplains
    exact hexplains

/-- An attempt that brings a chunk. -/
theorem taken_chunk {chunk : List UInt8} {later : List Received} (h : x.Account e script added lines closing)
    (hreceive : x.task = .receive) (hc : x.coming = .data chunk :: later) : Account e script { x with
      coming := later
      taken := x.taken ++ [.data chunk]
      unfinished := (linesOfChunk x.unfinished chunk).2
      task := .queue (linesOfChunk x.unfinished chunk).1 } added lines closing := by
  obtain ⟨hheard, hwhole⟩ := h.heard_of_owed (by rw [hreceive]; rfl)
  obtain ⟨hjoin, hlines, htorn⟩ := linesOfChunk_spec h.torn chunk
  have hcloses := h.closes
  have hexplains := h.explains
  rw [hreceive] at hcloses hexplains
  refine ⟨h.queue, h.own, h.finishes, ?_, ?_, ?_, htorn, hcloses, ?_⟩
  · rw [h.taken, hc, List.append_assoc, List.singleton_append]
  · have hbytes : (x.taken ++ [Received.data chunk]).flatMap Received.bytes = x.heard ++ chunk := by
      rw [List.flatMap_append, List.flatMap_cons, List.flatMap_nil, List.append_nil]
      rfl
    rw [Watch.heard, hbytes, hheard, List.append_assoc, hjoin, unlines, unlines, unlines, Task.owed,
      List.flatMap_append, List.append_assoc]
  · intro line hm
    rcases List.mem_append.mp hm with hm | hm
    · exact hwhole line hm
    · exact hlines line hm
  · intro raised hm
    rw [Watch.raisings, List.filterMap_append, List.filterMap_cons, List.filterMap_nil] at hm
    exact hexplains raised ((List.append_nil _).subst hm)

/-- What the reader does with what it received keeps the account. -/
theorem accept {received : Received} {later : List Received} (h : x.Account e script added lines closing)
    (hreceive : x.task = .receive) (hc : x.coming = received :: later) :
    Account e script (Watch.accept { x with coming := later, taken := x.taken ++ [received] } received)
      added lines closing := by
  have hcloses : closing = none := by
    have hcloses := h.closes
    rw [hreceive] at hcloses
    exact hcloses
  have hblocks : ∀ raised ∈ x.raisings, raised.Blocks := by
    have hexplains := h.explains
    rw [hreceive] at hexplains
    exact hexplains
  -- So far nothing but pauses was raised; this attempt raises nothing, or one thing more.
  have hnone : ∀ raised ∈ x.raisings ++ [], raised.Blocks := by
    rw [List.append_nil]
    exact hblocks
  have hlast : ∀ raised, ∀ other ∈ x.raisings ++ [raised], other.Blocks ∨ other = raised := by
    intro raised other hm
    rcases List.mem_append.mp hm with hm | hm
    · exact .inl (hblocks other hm)
    · exact .inr (List.mem_singleton.mp hm)
  unfold Watch.accept
  split
  · exact h.taken_empty hreceive hc rfl rfl hcloses (Task.explains_none hnone _)
  · exact h.taken_empty hreceive hc rfl rfl hcloses (Task.explains_none hnone _)
  · exact h.taken_chunk hreceive hc
  · exact h.taken_empty hreceive hc rfl rfl hcloses hnone
  · rename_i fault
    split
    · rename_i hblock
      refine h.taken_empty hreceive hc rfl rfl hcloses ?_
      intro other hm
      rcases hlast _ other hm with hother | rfl
      · exact hother
      · exact hblock
    · rename_i hblock
      exact h.taken_empty hreceive hc rfl rfl hcloses
        ⟨List.mem_append_right _ (List.mem_singleton_self _), hblock, hlast _⟩
  · exact h.taken_empty hreceive hc rfl rfl hcloses
      ⟨List.mem_append_right _ (List.mem_singleton_self _), id, hlast _⟩

/-- The look at the process. -/
theorem look (h : x.Account e script added lines closing) (htask : x.task = .look) :
    x.look.Account e script added lines closing := by
  have hcloses := h.closes
  have hexplains := h.explains
  rw [htask] at hcloses hexplains
  unfold Watch.look
  split
  · exact h.withTask (by rw [htask]; rfl) hcloses hexplains
  · rename_i process hprocess
    have hshifted := h.shift (some process.afterLook)
    split
    · exact hshifted.withTask (by rw [htask]; rfl) hcloses (Task.explains_none hexplains _)
    · exact hshifted.withTask (by rw [htask]; rfl) hcloses hexplains

/-- The event of the next line that is owed. -/
theorem queue_line {line : List UInt8} {later : List (List UInt8)} (h : x.Account e script added lines closing)
    (htask : x.task = .queue (line :: later)) : Account e script { x with
      engine := { x.engine with queue := x.engine.queue ++ (Event.ofLine? line).toList }
      task := .queue later } (added ++ (Event.ofLine? line).toList) (lines ++ [line]) closing := by
  have howed : lines ++ x.task.owed = lines ++ [line] ++ later := by
    rw [htask, List.append_assoc]
    rfl
  obtain ⟨hqueue, hown, hfinishes, htaken, hheard, hwhole, htorn, hcloses, hexplains⟩ := h
  rw [htask] at hcloses hexplains
  rw [howed] at hheard hwhole
  obtain rfl : closing = none := hcloses
  have hevent : ∀ event ∈ (Event.ofLine? line).toList, event.isFinish = false := fun event hm =>
    Event.isFinish_of_ofLine? (Option.mem_toList.mp hm)
  have hkept : (Event.ofLine? line).toList.filter (! ·.isFinish) = (Event.ofLine? line).toList :=
    List.filter_eq_self.mpr fun event hm => by rw [hevent event hm]; rfl
  have hdropped : (Event.ofLine? line).toList.filter (·.isFinish) = [] :=
    List.filter_eq_nil_iff.mpr fun event hm => by rw [hevent event hm]; exact Bool.false_ne_true
  have hlines : (lines ++ [line]).filterMap Event.ofLine? =
      lines.filterMap Event.ofLine? ++ (Event.ofLine? line).toList := by
    rw [List.filterMap_append, List.filterMap_eq_flatMap_toList (l := [line]), List.flatMap_singleton]
  refine ⟨?_, ?_, ?_, htaken, hheard, hwhole, htorn, rfl, hexplains⟩
  · rw [hqueue, List.append_assoc]
  · rw [List.filter_append, hown, hkept, hlines]
    simp only [Option.toList_none, List.map_nil, List.append_nil]
  · rw [List.filter_append, hfinishes, hdropped, List.append_nil]

/-- The event that tells of the end. -/
theorem announce {reason : Text} {fault : Option ReadFault} (h : x.Account e script added lines closing)
    (htask : x.task = .announce reason fault) : Account e script { x with
      engine := x.engine.enqueue (.closed reason)
      task := .ended fault } (added ++ [.closed reason]) lines (some reason) := by
  obtain ⟨hqueue, hown, hfinishes, htaken, hheard, hwhole, htorn, hcloses, hexplains⟩ := h
  rw [htask] at hcloses hexplains hheard hwhole
  obtain rfl : closing = none := hcloses
  refine ⟨?_, ?_, ?_, htaken, hheard, hwhole, htorn, fun hnone => (by cases hnone), hexplains⟩
  · rw [Engine.enqueue, hqueue, List.append_assoc]
  · rw [List.filter_append, hown]
    simp [Event.isFinish]
  · rw [List.filter_append, hfinishes]
    simp [Event.isFinish]

/-- The look at an exception. -/
theorem judge {raised : ReadFault} (h : x.Account e script added lines closing) (htask : x.task = .judge raised) :
    Account e script { x with
      task := raised.task x.engine.stopping
      judged := x.engine.stopping } added lines closing := by
  obtain ⟨hqueue, hown, hfinishes, htaken, hheard, hwhole, htorn, hcloses, hexplains⟩ := h
  rw [htask] at hcloses hexplains hheard hwhole
  obtain rfl : closing = none := hcloses
  obtain ⟨hm, hblock, hothers⟩ := hexplains
  -- Of the exceptions so far only this one can leave the reader.
  have honly : ∀ other, (other ∈ x.raisings ∧ other.Escapes x.engine.stopping) ↔
      other = raised ∧ raised.Escapes x.engine.stopping := by
    intro other
    constructor
    · rintro ⟨hother, hescapes⟩
      rcases hothers other hother with hblocks | rfl
      · exact absurd hescapes (hblocks.not_escapes _)
      · exact ⟨rfl, hescapes⟩
    · rintro ⟨rfl, hescapes⟩
      exact ⟨hm, hescapes⟩
  rcases ReadFault.task_cases hblock x.engine.stopping with ⟨hs, hstays, hover⟩ | ⟨reason, fault, hannounce, hfault⟩
  · rw [hover]
    refine ⟨hqueue, hown, hfinishes, htaken, hheard, hwhole, htorn, fun _ => ⟨hs, rfl⟩, fun other => ?_⟩
    refine Iff.trans ?_ (honly other).symm
    exact ⟨fun hnone => (by cases hnone), fun hboth => absurd hboth.2 hstays⟩
  · rw [hannounce]
    exact ⟨hqueue, hown, hfinishes, htaken, hheard, hwhole, htorn, rfl, fun other => (hfault other).trans (honly other).symm⟩

end Account

/-- A move of the reader, whatever it is about. -/
theorem account_next (h : x.Account e script added lines closing) :
    ∃ added lines closing, x.next.Account e script added lines closing := by
  have hcloses := h.closes
  have hexplains := h.explains
  cases htask : x.task with
  | register =>
    rw [htask] at hcloses
    exact hcloses.elim
  | check =>
    rw [htask] at hcloses hexplains
    simp only [next, htask]
    split
    · rename_i hs
      exact ⟨added, lines, closing, h.withTask (by rw [htask]; rfl) (fun _ => ⟨hs, rfl⟩)
        (Task.explains_none hexplains _)⟩
    · exact ⟨added, lines, closing, h.withTask (by rw [htask]; rfl) hcloses hexplains⟩
  | look =>
    simp only [next, htask]
    exact ⟨added, lines, closing, h.look htask⟩
  | receive =>
    rw [htask] at hcloses hexplains
    simp only [next, htask]
    refine ⟨added, lines, closing, ?_⟩
    split
    · exact h.withTask (by rw [htask]; rfl) hcloses (Task.explains_none hexplains _)
    · rename_i received later hcoming
      exact h.accept htask hcoming
  | queue owed =>
    cases owed with
    | nil =>
      rw [htask] at hcloses hexplains
      simp only [next, htask]
      exact ⟨added, lines, closing, h.withTask (by rw [htask]; rfl) hcloses hexplains⟩
    | cons line later =>
      simp only [next, htask]
      exact ⟨_, _, _, h.queue_line htask⟩
  | judge raised =>
    simp only [next, htask]
    exact ⟨_, _, _, h.judge htask⟩
  | announce reason fault =>
    simp only [next, htask]
    exact ⟨_, _, _, h.announce htask⟩
  | ended fault =>
    simp only [next, htask]
    exact ⟨_, _, _, h⟩

/-- A move of a stop. -/
theorem account_stopNext (h : x.Account e script added lines closing) :
    ∃ added lines closing, x.stopNext.Account e script added lines closing := by
  -- What a move leaves as it was, while it adds nothing to the queue but a finish.
  have hkeep : ∀ (engine : Engine) (stage : StopStage) (more : List Event),
      engine.queue = x.engine.queue ++ more → (x.engine.stopping = true → engine.stopping = true) →
      more.filter (! ·.isFinish) = [] → stage.finishes = x.stage.finishes ++ more.filter (·.isFinish) →
      Account e script { x with engine := engine, stage := stage } (added ++ more) lines closing := by
    intro engine stage more hqueue hstopping hown hfinishes
    exact { h with
      queue := by rw [hqueue, h.queue, List.append_assoc]
      own := by rw [List.filter_append, hown, List.append_nil, h.own]
      finishes := by rw [List.filter_append, h.finishes, hfinishes]
      closes := h.closes.mono hstopping }
  cases hstage : x.stage with
  | before =>
    simp only [stopNext, hstage]
    exact ⟨_, _, _, h⟩
  | none =>
    simp only [stopNext, hstage]
    exact ⟨_, _, _, hkeep _ _ [] (List.append_nil _).symm (fun _ => rfl) rfl (by rw [hstage]; rfl)⟩
  | flagged =>
    simp only [stopNext, hstage]
    exact ⟨_, _, _, hkeep _ _ [.finish] rfl id rfl (by rw [hstage]; rfl)⟩
  | told =>
    simp only [stopNext, hstage]
    refine ⟨_, _, _, hkeep _ _ [] ?_ ?_ rfl (by rw [hstage]; rfl)⟩
    · exact (Engine.queue_closeConnection _).trans (List.append_nil _).symm
    · exact (Engine.stopping_closeConnection _).trans
  | closed =>
    simp only [stopNext, hstage]
    refine ⟨_, _, _, hkeep _ _ [] ?_ ?_ rfl (by rw [hstage]; rfl)⟩
    · exact (Engine.queue_endProcess _).trans (List.append_nil _).symm
    · exact (Engine.stopping_endProcess _).trans
  | done =>
    simp only [stopNext, hstage]
    exact ⟨_, _, _, h⟩

/-! ### The registration -/

/-- An engine that is not stopped has an open connection, and whoever closes it has flagged the engine before. -/
structure Connected (x : Watch) : Prop where
  flagged : x.stage ≠ .none → x.engine.stopping = true
  registers : x.engine.stopping = false → x.engine.registrationFault? = none

/-- Nothing was received so far, and nothing was queued but the finish of a stop. -/
structure Untouched (e : Engine) (script : List Received) (x : Watch) : Prop where
  queue : x.engine.queue = e.queue ++ x.stage.finishes
  taken : x.taken = []
  coming : x.coming = script
  unfinished : x.unfinished = []

/-- The registration found the connection closed and raised this, which is all that the reader did. -/
structure Refused (e : Engine) (script : List Received) (x : Watch) (raised : ReadFault) : Prop
    extends Untouched e script x where
  fault : x.engine.registrationFault? = some raised
  stopping : x.engine.stopping = true

theorem registrationFault?_congr {e e' : Engine} (h : e'.connection = e.connection) :
    e'.registrationFault? = e.registrationFault? := by
  unfold Engine.registrationFault?
  rw [h]

/-- A connection that cannot be registered cannot be registered when it is closed. -/
theorem registrationFault?_closeConnection {raised : ReadFault} (h : e.registrationFault? = some raised) :
    e.closeConnection.registrationFault? = some raised := by
  rcases hc : e.connection with _ | connection
  · simp only [Engine.closeConnection, hc]
    exact h
  · simp only [Engine.registrationFault?, Connection.registrationFault?, hc] at h
    split at h
    · cases h
    · simp only [Engine.closeConnection, hc, Engine.registrationFault?, Connection.registrationFault?,
        Bool.false_eq_true, if_false]
      exact h

/-- The reader leaves the connection to the stop. -/
theorem next_frame (x : Watch) : x.next.stage = x.stage ∧ x.next.engine.stopping = x.engine.stopping ∧
    x.next.engine.connection = x.engine.connection := by
  unfold next look accept
  repeat' split
  all_goals exact ⟨rfl, rfl, rfl⟩

theorem task_stopNext (x : Watch) : x.stopNext.task = x.task := by
  unfold stopNext
  split <;> rfl

theorem Connected.start (he : e.stopping = false → e.registrationFault? = none) (script : List Received) :
    (start e script).Connected := by
  refine ⟨?_, he⟩
  cases hs : e.stopping with
  | false => simp [Watch.start, hs]
  | true => exact fun _ => hs

theorem Connected.step {y : Watch} (h : x.Connected) (hstep : Step x y) : y.Connected := by
  cases hstep with
  | reads =>
    obtain ⟨hstage, hstopping, hconnection⟩ := x.next_frame
    refine ⟨?_, ?_⟩
    · rw [hstage, hstopping]
      exact h.flagged
    · rw [hstopping, registrationFault?_congr hconnection]
      exact h.registers
  | stops =>
    -- Behind the first move the engine is flagged, whatever the others do.
    have hflag : x.stage ≠ .none → x.stopNext.engine.stopping = x.engine.stopping → x.stopNext.Connected := by
      intro hstage hsame
      have hs : x.stopNext.engine.stopping = true := hsame.trans (h.flagged hstage)
      exact ⟨fun _ => hs, fun hf => Bool.noConfusion (hf.symm.trans hs)⟩
    cases hstage : x.stage with
    | none =>
      simp only [stopNext, hstage]
      exact ⟨fun _ => rfl, fun hf => Bool.noConfusion hf⟩
    | told =>
      refine hflag (by rw [hstage]; exact StopStage.noConfusion) ?_
      simp only [stopNext, hstage]
      exact Engine.stopping_closeConnection _
    | closed =>
      refine hflag (by rw [hstage]; exact StopStage.noConfusion) ?_
      simp only [stopNext, hstage]
      exact Engine.stopping_endProcess _
    | flagged =>
      refine hflag (by rw [hstage]; exact StopStage.noConfusion) ?_
      simp only [stopNext, hstage]
      rfl
    | _ =>
      refine hflag (by rw [hstage]; exact StopStage.noConfusion) ?_
      simp only [stopNext, hstage]
  | shifts => exact ⟨h.flagged, h.registers⟩

theorem connected_of_run (he : e.stopping = false → e.registrationFault? = none) (h : Run e script x) :
    x.Connected := by
  induction h with
  | refl => exact .start he script
  | tail _ hstep ih => exact ih.step hstep

theorem Untouched.start (e : Engine) (script : List Received) : (start e script).Untouched e script := by
  refine ⟨?_, rfl, rfl, rfl⟩
  cases hs : e.stopping <;> simp [Watch.start, hs, StopStage.finishes]

theorem Untouched.stopNext (h : x.Untouched e script) : x.stopNext.Untouched e script := by
  obtain ⟨hqueue, htaken, hcoming, hunfinished⟩ := h
  cases hstage : x.stage with
  | told =>
    simp only [Watch.stopNext, hstage]
    rw [hstage] at hqueue
    exact ⟨(Engine.queue_closeConnection _).trans hqueue, htaken, hcoming, hunfinished⟩
  | closed =>
    simp only [Watch.stopNext, hstage]
    rw [hstage] at hqueue
    exact ⟨(Engine.queue_endProcess _).trans hqueue, htaken, hcoming, hunfinished⟩
  | flagged =>
    simp only [Watch.stopNext, hstage]
    rw [hstage, StopStage.finishes, List.append_nil] at hqueue
    refine ⟨?_, htaken, hcoming, hunfinished⟩
    rw [Engine.enqueue, hqueue]
    rfl
  | none =>
    simp only [Watch.stopNext, hstage]
    rw [hstage] at hqueue
    exact ⟨hqueue, htaken, hcoming, hunfinished⟩
  | _ =>
    simp only [Watch.stopNext, hstage]
    exact ⟨hqueue, htaken, hcoming, hunfinished⟩

theorem Refused.stopNext {raised : ReadFault} (h : x.Refused e script raised) : x.stopNext.Refused e script raised := by
  obtain ⟨huntouched, hfault, hs⟩ := h
  refine ⟨huntouched.stopNext, ?_, ?_⟩
  · cases hstage : x.stage with
    | told =>
      simp only [Watch.stopNext, hstage]
      exact registrationFault?_closeConnection hfault
    | closed =>
      simp only [Watch.stopNext, hstage]
      unfold Engine.endProcess
      repeat' split
      all_goals exact hfault
    | _ =>
      simp only [Watch.stopNext, hstage]
      exact hfault
  · cases hstage : x.stage with
    | none =>
      simp only [Watch.stopNext, hstage]
    | told =>
      simp only [Watch.stopNext, hstage]
      exact (Engine.stopping_closeConnection _).trans hs
    | closed =>
      simp only [Watch.stopNext, hstage]
      exact (Engine.stopping_endProcess _).trans hs
    | _ =>
      simp only [Watch.stopNext, hstage]
      exact hs

/-- Where the account begins. -/
theorem account_registered (h : x.Untouched e script) :
    Account e script { x with task := .check } x.stage.finishes [] none := by
  obtain ⟨hqueue, htaken, hcoming, hunfinished⟩ := h
  have hheard : Watch.heard { x with task := .check } = [] := by simp only [Watch.heard, htaken, List.flatMap_nil]
  have hraisings : Watch.raisings { x with task := .check } = [] := by
    simp only [Watch.raisings, htaken, List.filterMap_nil]
  refine ⟨hqueue, ?_, ?_, ?_, ?_, List.forall_mem_nil _, ?_, rfl, ?_⟩
  · cases x.stage <;> rfl
  · cases x.stage <;> rfl
  · rw [htaken, hcoming, List.nil_append]
  · rw [hheard, hunfinished]
    rfl
  · rw [hunfinished]
    exact List.not_mem_nil
  · rw [hraisings]
    exact List.forall_mem_nil _

/-- A reader has not registered the connection yet, was refused by it, or has an account to give. -/
theorem account_of_run (he : e.stopping = false → e.registrationFault? = none) (h : Run e script x) :
    (x.task = .register ∧ x.Untouched e script) ∨
      (∃ raised, x.task = .ended (some raised) ∧ x.Refused e script raised) ∨
      ∃ added lines closing, x.Account e script added lines closing := by
  induction h with
  | refl => exact .inl ⟨rfl, .start e script⟩
  | @tail x y hrun hstep ih =>
    obtain ⟨htask, hx⟩ | ⟨raised, htask, hx⟩ | ⟨added, lines, closing, hx⟩ := ih
    · cases hstep with
      | reads =>
        simp only [next, htask]
        split
        · rename_i raised hraised
          refine .inr (.inl ⟨raised, rfl, ⟨hx.queue, hx.taken, hx.coming, hx.unfinished⟩, hraised, ?_⟩)
          rcases hs : x.engine.stopping with _ | _
          · cases ((connected_of_run he hrun).registers hs).symm.trans hraised
          · rfl
        · exact .inr (.inr ⟨_, _, _, account_registered hx⟩)
      | stops => exact .inl ⟨x.task_stopNext.trans htask, hx.stopNext⟩
      | shifts => exact .inl ⟨htask, ⟨hx.queue, hx.taken, hx.coming, hx.unfinished⟩⟩
    · cases hstep with
      | reads =>
        have hnext : x.next = x := by simp only [next, htask]
        rw [hnext]
        exact .inr (.inl ⟨raised, htask, hx⟩)
      | stops => exact .inr (.inl ⟨raised, x.task_stopNext.trans htask, hx.stopNext⟩)
      | shifts =>
        exact .inr (.inl ⟨raised, htask, ⟨hx.queue, hx.taken, hx.coming, hx.unfinished⟩, hx.fault, hx.stopping⟩)
    · refine .inr (.inr ?_)
      cases hstep with
      | reads => exact account_next hx
      | stops => exact account_stopNext hx
      | shifts process => exact ⟨added, lines, closing, hx.shift process⟩

/-! ### The end of a reader -/

/-- What a reader leaves that is over. -/
structure Leaves (e : Engine) (script : List Received) (x : Watch) (fault : Option ReadFault) (added : List Event)
    (lines : List (List UInt8)) (closing : Option Text) : Prop where
  queue : x.engine.queue = e.queue ++ added
  /-- Its own events are those of the lines, and one that closes or none. -/
  own : added.filter (! ·.isFinish) = lines.filterMap Event.ofLine? ++ closing.toList.map .closed
  /-- Any other event is the one finish of a stop. -/
  finishes : added.filter (·.isFinish) = x.stage.finishes
  taken : script = x.taken ++ x.coming
  heard : x.heard = unlines lines ++ x.unfinished
  whole : ∀ line ∈ lines, (0x0A : UInt8) ∉ line
  torn : (0x0A : UInt8) ∉ x.unfinished
  /-- Every line that is not blank has its event in the queue. -/
  queued : ∀ line ∈ lines, line.all isBlankByte = false → ∃ event ∈ added, Event.ofLine? line = some event
  silent : closing = none → x.engine.stopping = true
  told : fault.isSome → closing.isSome
  escapes : ∀ raised, fault = some raised ↔ raised ∈ x.raisings ∧ raised.Escapes x.judged

theorem leaves_of_account {fault : Option ReadFault} (h : x.Account e script added lines closing)
    (htask : x.task = .ended fault) : Leaves e script x fault added lines closing := by
  obtain ⟨hheard, hwhole⟩ := h.heard_of_owed (by rw [htask]; rfl)
  have hcloses := h.closes
  have hexplains := h.explains
  rw [htask] at hcloses hexplains
  refine ⟨h.queue, h.own, h.finishes, h.taken, hheard, hwhole, h.torn, fun line hm hblank => ?_,
    fun hnone => (hcloses hnone).1, fun hsome => ?_, hexplains⟩
  · obtain ⟨event, hevent⟩ := Event.exists_of_not_blank hblank
    have hown : event ∈ added.filter (! ·.isFinish) := by
      rw [h.own]
      exact List.mem_append_left _ (List.mem_filterMap.mpr ⟨line, hm, hevent⟩)
    exact ⟨event, List.mem_of_mem_filter hown, hevent⟩
  · rcases closing with _ | reason
    · rw [(hcloses rfl).2] at hsome
      cases hsome
    · rfl

/-- Reading apart and reading at once come to the same, and however the moves of the reader and of a stop follow one
    another, a reader that is over was refused, or it has queued the event of every line it received that is not blank,
    then at most one closing event, and in between at most the finish of the stop. Refused it was by the registration,
    behind a stop that had closed the connection; it has received and queued nothing then, and the exception leaves it.
    Else it closed unless the engine is stopped, and an exception left it exactly when one was raised that it may not
    pass over, in which case it closed. -/
theorem reader_closes {e : Engine} (he : e.stopping = false → e.registrationFault? = none) :
    (∀ script : List Receipt, ∃ x, Run e (script.map Receipt.received) x ∧
      x.task = .ended (Reader.attend e script).2 ∧ x.engine = (Reader.attend e script).1.engine ∧
      x.unfinished = (Reader.attend e script).1.unfinished) ∧
    ∀ (script : List Received) (x : Watch) (fault : Option ReadFault), Run e script x → x.task = .ended fault →
      (∃ raised, fault = some raised ∧ Refused e script x raised) ∨
        ∃ added lines closing, Leaves e script x fault added lines closing := by
  constructor
  · intro script
    obtain ⟨x, left, hreach, hx⟩ := follows_attend e script
    exact ⟨x, hreach, hx.task, hx.engine, hx.unfinished⟩
  · intro script x fault hrun htask
    obtain ⟨hregister, -⟩ | ⟨raised, hended, hx⟩ | ⟨added, lines, closing, hx⟩ := account_of_run he hrun
    · cases htask.symm.trans hregister
    · exact .inl ⟨raised, Task.ended.inj (htask.symm.trans hended), hx⟩
    · exact .inr ⟨added, lines, closing, leaves_of_account hx htask⟩

/-- An engine with a connection that nobody has closed. -/
def connected : Engine := { Engine.new with connection := some ⟨true, [], []⟩ }

/-- A line with the beginning of another one, and then a connection that was closed. -/
def cutShort : List Received := [.data [0x31, 0x0A, 0x32], .fault (.plain 9 (.ofString "Bad file descriptor"))]

/-- A stop that begins before the line is queued and tells the loop after it. The reader ends without a word of its
    own, since by then the engine is stopped. -/
theorem cutShort_ends_silently : ∃ x, Run connected cutShort x ∧ x.task = .ended none ∧
    x.engine.stopping = true ∧ x.engine.queue = [.message (.scalar (.int 1 none)), .finish] ∧ x.unfinished = [0x32] ∧
      ∃ added lines closing, Leaves connected cutShort x none added lines closing := by
  -- The reader registers, looks, receives the chunk and finds its lines; the stop begins.
  have hbegun : Run connected cutShort (start connected cutShort).next.next.next.next.stopNext :=
    ((((Relation.ReflTransGen.single (.reads _)).tail (.reads _)).tail (.reads _)).tail (.reads _)).tail (.stops _)
  -- The line is queued and the finish behind it; the next attempt finds no connection.
  have hrun := ((((hbegun.tail (.reads _)).tail (.stops _)).tail (.reads _)).tail (.reads _)).tail (.reads _)
  refine ⟨_, hrun, rfl, rfl, rfl, rfl, ?_⟩
  obtain ⟨raised, hraised, -⟩ | hleaves := (reader_closes (e := connected) fun _ => rfl).2 _ _ none hrun rfl
  · cases hraised
  · exact hleaves

/-- A blank line is received and goes without an event: nothing stands in front of the one that closes. -/
theorem blank_line_is_passed_over : ∃ x, Run connected [.data [0x0A]] x ∧ x.task = .ended none ∧ x.heard = [0x0A] ∧
    x.engine.stopping = false ∧ x.engine.queue = [.closed (.ofString "connection closed by Node")] := by
  -- The reader registers, looks, receives the line and passes over it; then the stream ends.
  have hheard : Run connected [.data [0x0A]] (start connected [.data [0x0A]]).next.next.next.next.next :=
    ((((Relation.ReflTransGen.single (.reads _)).tail (.reads _)).tail (.reads _)).tail (.reads _)).tail (.reads _)
  exact ⟨_, ((hheard.tail (.reads _)).tail (.reads _)).tail (.reads _), rfl, rfl, rfl, rfl⟩

/-- A stop that has closed the connection before the reader registers it. Nothing was raised by receiving, no closing
    event is queued, and yet an exception leaves the reader. -/
theorem late_registration_raises : ∃ x, Run connected [] x ∧
    x.task = .ended (some (.unusable (.ofString "Invalid file descriptor: -1"))) ∧ x.raisings = [] ∧
      x.engine.stopping = true ∧ x.engine.queue = [.finish] :=
  ⟨_, ((((Relation.ReflTransGen.single (.stops _)).tail (.stops _)).tail (.stops _)).tail (.reads
    (start connected []).stopNext.stopNext.stopNext)), rfl, rfl, rfl, rfl⟩

end Watch
end ScriptLink
