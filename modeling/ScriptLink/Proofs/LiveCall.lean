import ScriptLink.Live
import ScriptLink.Proofs.Answering
import ScriptLink.Proofs.Conversation

/-! # Operations on a live session

    Between two operations a live session is at rest at both ends of the connection. An accepted operation sends one
    line, the runtime answers it with one line, and the operation ends with what the reply to its message brings:
    `Live.perform_replied`. -/

namespace ScriptLink

/-! ### At the runtime -/

namespace Script
variable {scripts : Scripts} {r r' : Realm} {message : Json} {text : Text}

theorem replyLine_eq (reply : Json) : replyLine reply = unlines [Utf8.encode (Json.compact reply)] := by
  simp [replyLine, unlines, Utf8.encode]
  rfl

theorem answerLine_of_handle {reply : Json} (hspells : Json.Spells requestNesting text message)
    (hgraphic : text.IsGraphic) (hhandle : handle scripts message r = (some reply, r')) :
    answerLine scripts (Utf8.encode (text ++ [0x0A])) r = (unlines [Utf8.encode (Json.compact reply)], r') := by
  have hdecode : Utf8.decode (Utf8.encode (text ++ [0x0A])) = some (text ++ [0x0A]) := by
    refine Utf8.decode_encode fun c hc => ?_
    rcases List.mem_append.mp hc with hc | hc
    · have hrange : 0x20 ≤ c.val ∧ c.val < 0x7F := hgraphic c hc
      unfold CodePoint.IsHigh CodePoint.IsLow
      omega
    · rw [List.mem_singleton.mp hc]
      decide
  simp only [answerLine, hdecode, Option.bind_some, hspells.read?_newline, hhandle, replyLine_eq]

/-- What the caller reads on the line of a reply. -/
theorem Reply.replyOn?_line {reply : Reply} {id : Text} (h : reply.IsReadable) (hid : id.join = id) :
    replyOn? (Utf8.encode (Json.compact (reply.toJson (some (.text id))))) = some (id, reply.outcome) := by
  obtain ⟨content, hcontent, -, hreply⟩ := reply.content h id.toUnits
  rw [Text.toText_toUnits, hid] at hcontent hreply
  rw [replyOn?, hcontent, Option.bind_some, hreply]

end Script

/-! ### At the caller -/

namespace Session
variable {s s' : Session} {g : Host.Graph} {operation : Operation} {payload : Host.Value}

/-- What the reader receives when it hears some bytes: the bytes, and then nothing for now. -/
def chunkAndPause (bytes : List UInt8) : List Receipt := [⟨false, false, .data bytes⟩, silence]

theorem happen_written {bytes : List UInt8} (h : bytes ≠ []) : s.happen (.written bytes) = s.hear (chunkAndPause bytes) := by
  cases bytes with
  | nil => exact absurd rfl h
  | cons b bytes => rfl

theorem quiet_chunkAndPause {bytes : List UInt8} (h : bytes ≠ []) : ∀ receipt ∈ chunkAndPause bytes, receipt.Quiet := by
  intro receipt hm
  rcases List.mem_pair.mp hm with rfl | rfl
  · exact ⟨rfl, rfl, .inl ⟨bytes, rfl, h⟩⟩
  · exact ⟨rfl, rfl, .inr (.inl rfl)⟩

theorem linesOfChunk_chunkAndPause {line : List UInt8} (h : (0x0A : UInt8) ∉ line) :
    linesOfChunk [] (heardBytes (chunkAndPause (unlines [line]))) = ([line], []) := by
  have hbytes : heardBytes (chunkAndPause (unlines [line])) = unlines [line] := by
    simp [heardBytes, chunkAndPause, Receipt.bytes, silence]
  rw [hbytes, linesOfChunk_unlines (List.forall_mem_singleton.mpr h)]

/-- What happens while an operation waits matters only for the session that waits. -/
theorem perform_congr {meanwhile meanwhile' : Session → Session} {serial : Except Failure Nat}
    (hpayload : operation.payload g = .ok payload)
    (hrequest : s.request (.text operation.requestName) payload = (serial, s')) (h : meanwhile s' = meanwhile' s') :
    s.perform g operation meanwhile = s.perform g operation meanwhile' := by
  cases serial with
  | error failure => simp only [perform, hpayload, ask, hrequest]
  | ok serial => simp only [perform, hpayload, ask, hrequest, h]

end Session

namespace Live
variable {scripts : Script.Scripts} {live : Live} {g : Host.Graph} {operation : Operation}

/-- A live session between two operations. The ids are texts that the runtime echoes as they are. -/
structure AtRest (live : Live) : Prop where
  session : live.session.AtRest
  unfinished : live.session.unfinished = []
  ids : ∀ n, (live.session.ids n).join = live.session.ids n

/-- The request that an operation makes next. -/
def nextRequest (live : Live) (operation : Operation) (payload : Host.Value) : Request :=
  ⟨live.session.requests, live.session.ids live.session.requests, .text operation.requestName, payload⟩

theorem sentSince_of_written {s s' : Session} {line : List UInt8}
    (h : s'.engine.written.map some = s.engine.written.map some ++ [some line]) : sentSince s s' = [line] := by
  have hwritten : s'.engine.written = s.engine.written ++ [line] := by
    refine List.map_injective_iff.mpr (Option.some_injective _) ?_
    simpa using h
  have hlines (s : Session) : sentLines s = s.engine.written := rfl
  rw [sentSince, hlines, hlines, hwritten, List.drop_left]

/-- An accepted operation whose message the runtime handles ends with what the reply brings, and leaves the live
    session at rest. -/
theorem perform_replied {payload : Host.Value} {text : Text} {message : Json} {reply : Script.Reply} {r' : Script.Realm}
    (h : live.AtRest) (hpayload : operation.payload g = .ok payload)
    (hwrite : Json.write (live.nextRequest operation payload).toValue = .ok text)
    (hspells : Json.Spells Script.requestNesting text message)
    (hhandle : Script.handle scripts message live.realm =
      (some (reply.toJson (some (.text (live.session.ids live.session.requests)))), r'))
    (hreadable : reply.IsReadable) :
    ∃ s', live.perform scripts g operation = (some (reply.outcome.bind operation.value), ⟨s', r'⟩) ∧
      AtRest ⟨s', r'⟩ := by
  have hline : (live.nextRequest operation payload).line = .ok (Utf8.encode (text ++ [0x0A])) := by
    rw [Request.line, hwrite]
    rfl
  obtain ⟨s₁, hrequest, -, -, hwritten, -⟩ := Session.request_sends (r := live.nextRequest operation payload) h.session
    rfl ⟨⟨_, rfl⟩, Operation.exists_write_payload hpayload⟩
  rw [hline] at hwritten
  -- Whatever else becomes of the session, its runtime answers this line.
  set answer := Utf8.encode (Json.compact (reply.toJson (some (.text (live.session.ids live.session.requests)))))
  have hanswers {s : Session} (hs : sentSince live.session s = [Utf8.encode (text ++ [0x0A])]) :
      Script.answerLines scripts (sentSince live.session s) live.realm = (unlines [answer], r') := by
    have hline := Script.answerLine_of_handle hspells (Json.isGraphic_write _ hwrite) hhandle
    simp only [hs, Script.answerLines, List.foldl_cons, List.foldl_nil, hline, List.nil_append, answer]
  have hon : replyOn? answer = some (live.session.ids live.session.requests, reply.outcome) :=
    Script.Reply.replyOn?_line hreadable (h.ids _)
  have hne : unlines [answer] ≠ [] := by simp [unlines]
  have hlines : linesOfChunk live.session.unfinished (Session.heardBytes (Session.chunkAndPause (unlines [answer]))) =
      ([answer], []) := by
    rw [h.unfinished, Session.linesOfChunk_chunkAndPause (Json.isLegible_compact _).newline_notMem]
  obtain ⟨r, s', hr, hserial, hrun, hserves, hlast⟩ := @Session.run_answered live.session (.perform g operation)
    (Session.chunkAndPause (unlines [answer])) [] [] answer reply.outcome h.session ⟨payload, hpayload⟩
    (Session.quiet_chunkAndPause hne) (congrArg Prod.fst hlines) (List.forall_mem_nil _) (List.forall_mem_nil _) hon
  have hperform : live.session.perform g operation (live.hearAnswers scripts) =
      (some (reply.outcome.bind operation.value), s') := by
    refine (Session.perform_congr hpayload hrequest ?_).trans hrun
    rw [hearAnswers, hanswers (sentSince_of_written hwritten)]
    exact Session.happen_written hne
  have hsent : sentSince live.session s' = [Utf8.encode (text ++ [0x0A])] := by
    refine sentSince_of_written (hserves.written.trans ?_)
    simp only [Inquiry.request?, hpayload, Option.some_inj] at hr
    rw [← hr, show (⟨_, _, _, _⟩ : Request).line = _ from hline]
    rfl
  refine ⟨s', ?_, ⟨hserves.atRest h.session hserial, ?_, fun n => ?_⟩⟩
  · rw [perform, hperform]
    simp only [advance, hanswers hsent]
  · rw [hlast, hlines]
  · rw [hserves.ids]
    exact h.ids n

end Live

end ScriptLink
