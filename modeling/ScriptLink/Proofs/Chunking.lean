import ScriptLink.Proofs.Hearing

/-! # The cuts of a stream

    The pieces in which a stream arrives, and the pauses between them, are the network's. Main statement: while the
    process goes on and nobody stops the engine, the reader queues the events of the stream's lines, then the event
    of its end, wherever the stream was cut. -/

namespace ScriptLink

/-- The reason and the fault with which receiving this ends a reader whose engine is not stopped, if it does. -/
def Received.closing? : Received → Option (Text × Option ReadFault)
  | .data [] | .ended => some (.ofString "connection closed by Node", none)
  | .data _ | .nothing => none
  | .fault raised =>
    if raised.wouldBlock then none
    else if raised.badDescriptor then some (.ofString "connection closed", none)
    else some (.ofString "connection failed: " ++ raised.message, some (.system raised))
  | .unusable words => some (.ofString "connection failed: " ++ words, some (.unusable words))

namespace Reader
variable {r r' : Reader} {looks : Bool} {receipt : Receipt} {receipts rest : List Receipt} {reason : Text}
  {fault : Option ReadFault}

/-- The attempts end the stream with their first, for this reason and with this fault. -/
structure Closes (rest : List Receipt) (reason : Text) (fault : Option ReadFault) : Prop where
  stopsWaiting : (rest.headD atEnd).stopsWaiting = false
  stops : (rest.headD atEnd).stops = false
  closing : (rest.headD atEnd).received.closing? = some (reason, fault)

theorem run_of_ended (h : advance looks r (rest.headD atEnd) = (r', .ended fault)) :
    run looks r rest = (r', fault) := by
  cases rest with
  | nil => simp only [run, show advance looks r atEnd = (r', .ended fault) from h]
  | cons receipt rest => simp only [run, show advance looks r receipt = (r', .ended fault) from h]

/-- What ends the stream puts the reason into the queue. -/
theorem accept_closing {received : Received} (hs : r.engine.stopping = false)
    (h : received.closing? = some (reason, fault)) : accept r received = (r.close reason, .ended fault) := by
  unfold Received.closing? at h
  split at h
  · obtain ⟨rfl, rfl⟩ := Prod.mk.inj (Option.some.inj h)
    rfl
  · obtain ⟨rfl, rfl⟩ := Prod.mk.inj (Option.some.inj h)
    rfl
  · cases h
  · cases h
  · rename_i raised
    split at h
    · cases h
    · rename_i hblock
      split at h
      · rename_i hdescriptor
        obtain ⟨rfl, rfl⟩ := Prod.mk.inj (Option.some.inj h)
        simp only [accept, closeByFault, hblock, hdescriptor, hs, Bool.false_eq_true, if_true, if_false]
      · rename_i hdescriptor
        obtain ⟨rfl, rfl⟩ := Prod.mk.inj (Option.some.inj h)
        simp only [accept, closeByFault, hblock, hdescriptor, Bool.false_eq_true, if_false]
  · obtain ⟨rfl, rfl⟩ := Prod.mk.inj (Option.some.inj h)
    simp only [accept, closeUnusable, hs, Bool.false_eq_true, if_false]

/-- A quiet attempt leaves the events of the lines that it ended, and the reader goes on. -/
theorem run_quiet_cons (looks : Bool) (rest : List Receipt) (hs : r.engine.stopping = false) (hl : r.engine.Lives)
    (hq : receipt.Quiet) :
    ∃ process looks', ({ r.engine with process := process } : Engine).Lives ∧
      run looks r (receipt :: rest) = run looks' (take { r with
        engine := { r.engine with process := process }
        attempts := r.attempts + 1 } receipt.bytes) rest := by
  obtain ⟨process, hlives, hadvance⟩ := advance_undisturbed looks hs hl hq.stopsWaiting hq.stops
  obtain ⟨progress, hprogress, haccept⟩ := accept_quiet { r with
    engine := { r.engine with process := process }
    attempts := r.attempts + 1 } hq
  rw [haccept] at hadvance
  cases progress with
  | newRound => exact ⟨process, true, hlives, by simp only [run, hadvance]⟩
  | sameRound => exact ⟨process, false, hlives, by simp only [run, hadvance]⟩
  | ended fault => exact absurd rfl (hprogress fault)

/-- Quiet attempts leave the events of the lines of all that they brought. -/
theorem run_quiet (looks : Bool) (rest : List Receipt) (hs : r.engine.stopping = false) (hl : r.engine.Lives)
    (hq : ∀ receipt ∈ receipts, receipt.Quiet) :
    ∃ process looks', ({ r.engine with process := process } : Engine).Lives ∧
      run looks r (receipts ++ rest) = run looks' { take { r with
        engine := { r.engine with process := process } } (Session.heardBytes receipts) with
          attempts := r.attempts + receipts.length } rest := by
  -- What is unfinished after one attempt stands in front of what the others bring.
  induction receipts generalizing r looks with
  | nil =>
    refine ⟨r.engine.process, looks, hl, ?_⟩
    rw [Session.heardBytes, List.flatMap_nil, take_nil]
    rfl
  | cons receipt receipts ih =>
    obtain ⟨process, looks₁, hlives₁, hfirst⟩ :=
      run_quiet_cons looks (receipts ++ rest) hs hl (hq receipt List.mem_cons_self)
    obtain ⟨process', looks₂, hlives₂, hothers⟩ := ih looks₁ (r := take { r with
      engine := { r.engine with process := process }
      attempts := r.attempts + 1 } receipt.bytes) hs hlives₁ fun other hm => hq other (List.mem_cons_of_mem _ hm)
    refine ⟨process', looks₂, hlives₂, (hfirst.trans hothers).trans ?_⟩
    simp only [take, Session.heardBytes, List.flatMap_cons, linesOfChunk_append, List.filterMap_append,
      List.append_assoc, List.length_cons, Nat.add_assoc, Nat.add_comm 1]

theorem run_closes (looks : Bool) (hs : r.engine.stopping = false) (hl : r.engine.Lives) (hc : Closes rest reason fault) :
    ∃ process, run looks r rest = (close { r with
      engine := { r.engine with process := process }
      attempts := r.attempts + 1 } reason, fault) := by
  obtain ⟨process, -, hadvance⟩ := advance_undisturbed looks hs hl hc.stopsWaiting hc.stops
  exact ⟨process, run_of_ended (hadvance.trans (accept_closing hs hc.closing))⟩

/-- What is queued does not depend on the cuts. The events are those of the lines of the whole stream, in order, and
    the reason of its end; what follows the last newline is kept and queued nowhere. -/
theorem listen_of_cut {e : Engine} (hs : e.stopping = false) (hl : e.Lives) (bytes : List UInt8) :
    ∃ lines tail, bytes = unlines lines ++ tail ∧ (∀ line ∈ lines, (0x0A : UInt8) ∉ line) ∧ (0x0A : UInt8) ∉ tail ∧
      ∀ receipts rest reason fault, (∀ receipt ∈ receipts, receipt.Quiet) → Session.heardBytes receipts = bytes →
        Closes rest reason fault → ∃ process, listen e (receipts ++ rest) = (⟨{ e with
          process := process
          queue := e.queue ++ lines.filterMap Event.ofLine? ++ [.closed reason] }, tail, receipts.length + 1⟩, fault) := by
  obtain ⟨hjoin, hlines, htail⟩ := linesOfChunk_spec List.not_mem_nil bytes
  refine ⟨_, _, hjoin, hlines, htail, ?_⟩
  rintro receipts rest reason fault hquiet rfl hcloses
  obtain ⟨process, looks, hlives, hheard⟩ := run_quiet (r := ofEngine e) true rest hs hl hquiet
  obtain ⟨process', hclosed⟩ := run_closes looks (r := { take { ofEngine e with
    engine := { e with process := process } } (Session.heardBytes receipts) with
      attempts := receipts.length }) hs hlives hcloses
  refine ⟨process', ?_⟩
  rw [listen, hheard, ofEngine, Nat.zero_add]
  exact hclosed

/-- A letter of two bytes, in a line with another one behind it that does not end. -/
def quotedLetter : List UInt8 := [0x22, 0xC3, 0xA9, 0x22, 0x0A, 0x31]

/-- An engine with a process that goes on running. -/
def attended : Engine := { Engine.new with process := some ⟨[none], false⟩ }

/-- The line in one piece. -/
def wholeLetter : List Receipt := [⟨false, false, .data quotedLetter⟩]

/-- The line in two pieces, with nothing to receive before each. -/
def tornLetter : List Receipt :=
  [⟨false, false, .nothing⟩, ⟨false, false, .data (quotedLetter.take 2)⟩, ⟨false, false, .nothing⟩,
    ⟨false, false, .data (quotedLetter.drop 2)⟩]

theorem attended_hears_letter : attended.stopping = false ∧ attended.Lives ∧
    (listen attended (tornLetter ++ [])).1.engine.queue = (listen attended (wholeLetter ++ [])).1.engine.queue ∧
      (listen attended (tornLetter ++ [])).1.unfinished = (listen attended (wholeLetter ++ [])).1.unfinished := by
  have hlives : attended.Lives := by
    rintro process ⟨⟩ look hlook
    exact List.mem_singleton.mp hlook
  have hwhole : ∀ receipt ∈ wholeLetter, receipt.Quiet := by
    intro receipt hm
    rw [List.mem_singleton.mp hm]
    exact ⟨rfl, rfl, .inl ⟨quotedLetter, rfl, List.cons_ne_nil _ _⟩⟩
  have htorn : ∀ receipt ∈ tornLetter, receipt.Quiet := by
    intro receipt hm
    simp only [tornLetter, List.mem_cons, List.not_mem_nil, or_false] at hm
    rcases hm with rfl | rfl | rfl | rfl
    · exact ⟨rfl, rfl, .inr (.inl rfl)⟩
    · exact ⟨rfl, rfl, .inl ⟨_, rfl, List.cons_ne_nil _ _⟩⟩
    · exact ⟨rfl, rfl, .inr (.inl rfl)⟩
    · exact ⟨rfl, rfl, .inl ⟨_, rfl, List.cons_ne_nil _ _⟩⟩
  obtain ⟨lines, tail, -, -, -, h⟩ := listen_of_cut (e := attended) rfl hlives quotedLetter
  obtain ⟨process, hlisten⟩ := h wholeLetter [] _ _ hwhole rfl ⟨rfl, rfl, rfl⟩
  obtain ⟨process', hlisten'⟩ := h tornLetter [] _ _ htorn rfl ⟨rfl, rfl, rfl⟩
  rw [hlisten, hlisten']
  exact ⟨rfl, hlives, rfl, rfl⟩

end Reader

end ScriptLink
