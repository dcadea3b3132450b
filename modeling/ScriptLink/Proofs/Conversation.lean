import ScriptLink.Proofs.Arrival
import ScriptLink.Proofs.Hearing
import ScriptLink.Proofs.Stream

/-! # A session as a sequence of calls

    A caller asks for one operation after the other, and the peer answers each request once, among other lines. Main
    statement: every operation ends as its own answer says, whatever else is on the connection and however it is cut;
    one line is sent for each operation, and behind each of them the session is at rest again.

    What the peer has written behind an answer may be heard during the next operation. The induction is on the
    operations, and the bytes that are still owed to the reader are carried along. -/

namespace ScriptLink

/-! ### What is accepted can be written -/

namespace Operation

/-- What is sent with an accepted operation is a JSON value: what it asks for, or nodes of arguments. -/
theorem exists_json_payload {g : Host.Graph} {operation : Operation} {payload : Host.Value}
    (h : operation.payload g = .ok payload) : ∃ j, payload = .ofJson j ∧ Json.Fits (2 * Wire.maxDepth + 3) j := by
  cases operation with
  | eval source sourceName convert =>
    obtain ⟨code, -, h⟩ := Wire.bind_eq_ok.mp h
    obtain ⟨filename, -, h⟩ := Wire.bind_eq_ok.mp h
    obtain rfl := Except.ok.inj h
    exact ⟨.object [(.ofString "code", .text code), (.ofString "filename", .text filename),
      (.ofString "convert", .bool convert)], rfl, trivial, trivial, trivial, trivial⟩
  | getProp name =>
    obtain ⟨text, -, h⟩ := Wire.bind_eq_ok.mp h
    obtain rfl := Except.ok.inj h
    exact ⟨.object [(.ofString "name", .text text)], rfl, trivial, trivial⟩
  | callProp name arguments =>
    obtain ⟨nodes, hnodes, h⟩ := Wire.bind_eq_ok.mp h
    obtain ⟨text, -, h⟩ := Wire.bind_eq_ok.mp h
    obtain rfl := Except.ok.inj h
    have hwithin : Wire.ItemsWithin Wire.maxDepth nodes :=
      Wire.itemsWithin_iff.mpr (Wire.forall_of_forall₂ (Wire.forall₂_of_mapM hnodes) fun item node hnode =>
        (Wire.arrives_of_ofItem hnode (Wire.maxDepth_le_room g) (List.nil_subset _)
          (List.nil_subset _)).1)
    refine ⟨.object [(.ofString "name", .text text), (.ofString "args", .array (Wire.itemsToJson nodes))], ?_,
      trivial, Wire.itemsFit_toJson nodes hwithin, trivial⟩
    rw [← Wire.itemsToValues_eq, ← Wire.ofJson_itemsToJson]
    rfl

theorem exists_write_payload {g : Host.Graph} {operation : Operation} {payload : Host.Value}
    (h : operation.payload g = .ok payload) : ∃ text, Json.write payload = .ok text := by
  obtain ⟨j, rfl, hfits⟩ := exists_json_payload h
  obtain ⟨text, hwrite, -⟩ := Json.write_ofJson j hfits
  exact ⟨text, hwrite⟩

end Operation

/-- What a caller asks of a session: an operation on the context, or a request as it stands. -/
inductive Inquiry where
  | perform (g : Host.Graph) (operation : Operation)
  | ask (operation payload : Host.Value)

namespace Inquiry

/-- The request that an inquiry makes under an id, unless it is refused. -/
def request? (serial : Nat) (id : Text) : Inquiry → Option Request
  | .perform g operation =>
    match operation.payload g with
    | .ok payload => some ⟨serial, id, .text operation.requestName, payload⟩
    | .error _ => none
  | .ask operation payload => some ⟨serial, id, operation, payload⟩

/-- The line of that request, if it has one. -/
def line? (serial : Nat) (id : Text) (inquiry : Inquiry) : Option (List UInt8) :=
  (inquiry.request? serial id).bind fun r => r.line.toOption

/-- An inquiry whose arguments are accepted. -/
def Acceptable : Inquiry → Prop
  | .perform g operation => ∃ payload, operation.payload g = .ok payload
  | .ask operation payload => (∃ name, Json.write operation = .ok name) ∧ ∃ text, Json.write payload = .ok text

/-- The outcome of an inquiry whose request has an outcome. -/
def result : Inquiry → Outcome → Outcome
  | .perform _ operation, outcome => outcome.bind operation.value
  | .ask _ _, outcome => outcome

/-- The inquiry from its beginning to its end. -/
def run (s : Session) (meanwhile : Session → Session) : Inquiry → Option Outcome × Session
  | .perform g operation => s.perform g operation meanwhile
  | .ask operation payload => s.ask operation payload meanwhile

theorem Acceptable.writable {inquiry : Inquiry} (h : inquiry.Acceptable) (serial : Nat) (id : Text) :
    ∃ r, inquiry.request? serial id = some r ∧ r.serial = serial ∧ r.id = id ∧ r.Writable := by
  cases inquiry with
  | perform g operation =>
    obtain ⟨payload, hpayload⟩ := h
    refine ⟨⟨serial, id, .text operation.requestName, payload⟩, ?_, rfl, rfl, ⟨_, rfl⟩,
      Operation.exists_write_payload hpayload⟩
    rw [request?, hpayload]
  | ask operation payload => exact ⟨_, rfl, rfl, rfl, h⟩

end Inquiry

namespace Session
variable {s : Session}

/-- A session at work with nothing to do and no request that waits. Its requests are numbered on. -/
structure AtRest (s : Session) : Prop where
  working : s.Working
  pending : s.engine.pending = []
  completed : ∀ completion ∈ s.engine.completed, completion.serial < s.requests

/-- A session that has served one more request: its line was sent, and it ended with an outcome. -/
structure Serves (s : Session) (r : Request) (outcome : Outcome) (s' : Session) : Prop where
  working : s'.Working
  pending : s'.engine.pending = []
  completed : s'.engine.completed = s.engine.completed ++ [⟨r.serial, outcome⟩]
  written : s'.engine.written.map some = s.engine.written.map some ++ [r.line.toOption]
  requests : s'.requests = s.requests + 1
  ids : s'.ids = s.ids

theorem Serves.atRest {r : Request} {outcome : Outcome} {s' : Session} (h : s.Serves r outcome s') (hrest : s.AtRest)
    (hr : r.serial = s.requests) : s'.AtRest := by
  refine ⟨h.working, h.pending, fun completion hm => ?_⟩
  rw [h.requests]
  rw [h.completed] at hm
  rcases List.mem_append.mp hm with hm | hm
  · exact Nat.lt_succ_of_lt (hrest.completed completion hm)
  · rw [List.mem_singleton.mp hm, hr]
    exact Nat.lt_succ_self _

/-- Over a connection that takes everything a request is sent at once, and waits. -/
theorem run_request {e : Engine} {r : Request} {line : List UInt8} {connection : Connection}
    (hq : e.queue = [.request r]) (hg : e.gone = none) (hline : r.line = .ok line)
    (hc : e.connection = some connection) (ho : ∀ obstacle ∈ connection.obstacles, obstacle = none) :
    e.run = ({ e with
      queue := []
      pending := e.pending.insert r.id r
      connection := some (connection.write line).1 }, .waiting) := by
  have hfault : (connection.write line).2 = none := by rw [Connection.write_free ho]
  have hdispatch : Engine.dispatch { e with queue := [] } r = ({ e with
      queue := []
      pending := e.pending.insert r.id r
      connection := some (connection.write line).1 }, .goOn) := by
    refine Engine.dispatch_sent hg hline ?_
    simp only [Engine.write, hc, hfault]
  obtain ⟨steps, hsteps⟩ : ∃ steps, e.stepsLeft = steps + 1 := by
    rw [Engine.stepsLeft, hq]
    exact ⟨_, Nat.add_comm _ _⟩
  rw [Engine.run, hsteps]
  simp only [Engine.runFor, hq, Engine.handle, hdispatch]
  cases steps <;> rfl

/-- A request is sent at once, and waits. -/
theorem request_sends {operation payload : Host.Value} {r : Request} (h : s.AtRest)
    (hr : r = ⟨s.requests, s.ids s.requests, operation, payload⟩) (hw : r.Writable) :
    ∃ s', s.request operation payload = (.ok s.requests, s') ∧ s'.Working ∧
      s'.engine.ledger = ⟨[(r.id, r)], s.engine.completed⟩ ∧
      s'.engine.written.map some = s.engine.written.map some ++ [r.line.toOption] ∧ s'.requests = s.requests + 1 ∧
      s'.ids = s.ids ∧ s'.unfinished = s.unfinished := by
  obtain ⟨line, hline⟩ := Request.line_of_writable hw
  obtain ⟨connection, hc, hobstacles⟩ := h.working.connection
  have hqueue : (s.engine.enqueue (.request r)).queue = [.request r] := by
    rw [Engine.enqueue, h.working.queue]
    rfl
  have hrun := run_request hqueue h.working.gone hline hc hobstacles
  have hpending : s.engine.pending.insert r.id r = [(r.id, r)] := by rw [h.pending]; rfl
  have hrequest : s.request operation payload = (.ok s.requests, settle { s.withEngine
      (s.engine.enqueue (.request r)) with requests := s.requests + 1 }) := by
    rw [request, if_neg (by simp [h.working.stopping, h.working.started]), hr]
  refine ⟨_, hrequest, ?_⟩
  have hlooping := h.working.looping
  have hsettle : settle { s.withEngine (s.engine.enqueue (.request r)) with requests := s.requests + 1 } =
      { s.withEngine { s.engine with
          queue := []
          pending := [(r.id, r)]
          connection := some (connection.write line).1 } with requests := s.requests + 1 } := by
    rw [settle_of_waiting (s := { s.withEngine (s.engine.enqueue (.request r)) with requests := s.requests + 1 })
      hlooping hrun, ← hpending]
    rfl
  rw [hsettle]
  refine ⟨⟨h.working.started, h.working.stopping, h.working.gone, rfl, ⟨_, rfl, ?_⟩, h.working.lives,
    h.working.reading, hlooping⟩, rfl, ?_, rfl, rfl, rfl⟩
  · intro obstacle hm
    rw [Connection.write_free hobstacles] at hm
    exact hobstacles obstacle (List.mem_of_mem_tail hm)
  · change (connection.write line).1.written.map some = _
    rw [Connection.write_free hobstacles, hline, Engine.written, hc, List.map_append]
    rfl

theorem outcome?_of_last {e : Engine} {completed : List Completion} {serial : Nat} {outcome : Outcome}
    (h : e.completed = completed ++ [⟨serial, outcome⟩]) (hfresh : ∀ completion ∈ completed, completion.serial < serial) :
    e.outcome? serial = some outcome := by
  have hearlier : completed.find? (fun completion => completion.serial = serial) = none :=
    List.find?_eq_none.mpr fun completion hm => by simpa using Nat.ne_of_lt (hfresh completion hm)
  rw [Engine.outcome?, h, List.find?_append, hearlier]
  simp

/-- A request whose answer is heard, with any plain lines that do not answer it before the answer, and any behind it. -/
theorem ask_answered {operation payload : Host.Value} {r : Request} {receipts : List Receipt}
    {before after : List (List UInt8)} {answer : List UInt8} {outcome : Outcome} (h : s.AtRest)
    (hr : r = ⟨s.requests, s.ids s.requests, operation, payload⟩) (hw : r.Writable)
    (hquiet : ∀ receipt ∈ receipts, receipt.Quiet)
    (hlines : (linesOfChunk s.unfinished (heardBytes receipts)).1 = before ++ answer :: after)
    (hplain : ∀ line ∈ before ++ after, IsPlain line)
    (hbefore : ∀ line ∈ before, ∀ outcome, replyOn? line ≠ some (r.id, outcome))
    (hanswer : replyOn? answer = some (r.id, outcome)) :
    ∃ s', s.ask operation payload (fun s => s.hear receipts) = (some outcome, s') ∧ s.Serves r outcome s' ∧
      s'.unfinished = (linesOfChunk s.unfinished (heardBytes receipts)).2 := by
  obtain ⟨s₁, hrequest, hworking, hledger, hwritten, hrequests, hids, hunfinished⟩ := request_sends h hr hw
  have hall : ∀ line ∈ (linesOfChunk s₁.unfinished (heardBytes receipts)).1, IsPlain line := by
    rw [hunfinished, hlines]
    intro line hm
    rcases List.mem_append.mp hm with hm | hm
    · exact hplain line (List.mem_append_left _ hm)
    · rcases List.mem_cons.mp hm with rfl | hm
      · exact isPlain_of_replyOn? hanswer
      · exact hplain line (List.mem_append_right _ hm)
  obtain ⟨hhears, hlast⟩ := hear_quiet hworking hquiet hall
  rw [hunfinished, hlines] at hhears
  rw [hunfinished] at hlast
  have hserved := hhears.ledger
  rw [hledger, Ledger.foldl_hear_answer hbefore hanswer] at hserved
  obtain ⟨hpending, hcompleted⟩ := Ledger.mk.inj hserved
  have hserial : r.serial = s.requests := by rw [hr]
  refine ⟨s₁.hear receipts, ?_, ⟨hhears.working, hpending, hcompleted, ?_, ?_, ?_⟩, hlast⟩
  · have houtcome : (s₁.hear receipts).engine.outcome? s.requests = some outcome :=
      outcome?_of_last (hserial ▸ hcompleted) h.completed
    rw [ask, hrequest]
    simp only [houtcome]
  · rw [Engine.written, hhears.connection]
    exact hwritten
  · rw [hhears.requests, hrequests]
  · rw [hhears.ids, hids]

theorem run_answered {inquiry : Inquiry} {receipts : List Receipt} {before after : List (List UInt8)}
    {answer : List UInt8} {outcome : Outcome} (h : s.AtRest) (hacceptable : inquiry.Acceptable)
    (hquiet : ∀ receipt ∈ receipts, receipt.Quiet)
    (hlines : (linesOfChunk s.unfinished (heardBytes receipts)).1 = before ++ answer :: after)
    (hplain : ∀ line ∈ before ++ after, IsPlain line)
    (hbefore : ∀ line ∈ before, ∀ outcome, replyOn? line ≠ some (s.ids s.requests, outcome))
    (hanswer : replyOn? answer = some (s.ids s.requests, outcome)) :
    ∃ r s', inquiry.request? s.requests (s.ids s.requests) = some r ∧ r.serial = s.requests ∧
      inquiry.run s (fun s => s.hear receipts) = (some (inquiry.result outcome), s') ∧ s.Serves r outcome s' ∧
      s'.unfinished = (linesOfChunk s.unfinished (heardBytes receipts)).2 := by
  obtain ⟨r, hr, hserial, hid, hw⟩ := hacceptable.writable s.requests (s.ids s.requests)
  rw [← hid] at hbefore hanswer
  cases inquiry with
  | ask operation payload =>
    obtain ⟨s', hask, hserves, hunfinished⟩ :=
      ask_answered h (Option.some.inj hr).symm hw hquiet hlines hplain hbefore hanswer
    exact ⟨r, s', hr, hserial, hask, hserves, hunfinished⟩
  | perform g operation =>
    obtain ⟨payload, hpayload⟩ := hacceptable
    simp only [Inquiry.request?, hpayload] at hr
    obtain ⟨s', hask, hserves, hunfinished⟩ :=
      ask_answered h (Option.some.inj hr).symm hw hquiet hlines hplain hbefore hanswer
    refine ⟨r, s', ?_, hserial, ?_, hserves, hunfinished⟩
    · simp only [Inquiry.request?, hpayload, hr]
    · have hlive : s.closed = false := by
        simp [closed, Engine.stopped, h.working.stopping, h.working.gone]
      simp only [Inquiry.run, perform, hpayload, hlive, Bool.false_eq_true, if_false, hask, Option.map_some,
        Inquiry.result]

end Session

/-! ### Turns -/

/-- One operation of a conversation: what is asked, the lines that the peer writes for it, and how what the peer has
    written is received meanwhile. -/
structure Turn where
  inquiry : Inquiry
  before : List (List UInt8)
  answer : List UInt8
  after : List (List UInt8)
  receipts : List Receipt

namespace Turn

/-- All lines of a turn. -/
def lines (t : Turn) : List (List UInt8) := t.before ++ t.answer :: t.after

/-- The outcome that the answer brings to the operation. -/
def result? (t : Turn) : Option Outcome := (replyOn? t.answer).map fun reply => t.inquiry.result reply.2

/-- The peer answers the request with some number, among plain lines. Those before the answer are no answer to this
    request, and those behind it none to the next one. -/
structure Answers (ids : Nat → Text) (n : Nat) (t : Turn) : Prop where
  acceptable : t.inquiry.Acceptable
  newlines : ∀ line ∈ t.lines, (0x0A : UInt8) ∉ line
  plain : ∀ line ∈ t.before ++ t.after, IsPlain line
  answers : ∃ outcome, replyOn? t.answer = some (ids n, outcome)
  before : ∀ line ∈ t.before, ∀ outcome, replyOn? line ≠ some (ids n, outcome)
  after : ∀ line ∈ t.after, ∀ outcome, replyOn? line ≠ some (ids (n + 1), outcome)
  quiet : ∀ receipt ∈ t.receipts, receipt.Quiet

end Turn

/-- The peer answers every request, and its answer is received before the next operation begins; what it writes behind
    an answer may be received later. `owed` are the bytes that were written earlier and are still to be received. -/
def Answered (ids : Nat → Text) : Nat → List UInt8 → List Turn → Prop
  | _, _, [] => True
  | n, owed, t :: turns => t.Answers ids n ∧ ∃ late, owed ++ unlines t.lines = Session.heardBytes t.receipts ++ late ∧
      late <:+ unlines t.after ∧ Answered ids (n + 1) late turns

namespace Session

/-- The operations one after the other, with the outcome of each. -/
def converse (s : Session) : List Turn → List (Option Outcome) × Session
  | [] => ([], s)
  | t :: turns =>
    let (outcome, s) := t.inquiry.run s fun s => s.hear t.receipts
    let (outcomes, s) := converse s turns
    (outcome :: outcomes, s)

/-- The lines that the operations send, each with the number and the id of its request. -/
def linesSent (ids : Nat → Text) : Nat → List Turn → List (Option (List UInt8))
  | _, [] => []
  | n, t :: turns => t.inquiry.line? n (ids n) :: linesSent ids (n + 1) turns

/-- A conversation with bytes still owed from before it, which hold whole lines that do not answer its first request. -/
theorem converse_answered {s : Session} {turns : List Turn} {owed : List UInt8} {earlier : List (List UInt8)}
    (h : s.AtRest) (howed : linesOfChunk s.unfinished owed = (earlier, [])) (hplain : ∀ line ∈ earlier, IsPlain line)
    (hearlier : ∀ line ∈ earlier, ∀ outcome, replyOn? line ≠ some (s.ids s.requests, outcome))
    (ha : Answered s.ids s.requests owed turns) :
    (s.converse turns).1 = turns.map Turn.result? ∧ (s.converse turns).2.AtRest ∧
      (s.converse turns).2.engine.written.map some =
        s.engine.written.map some ++ linesSent s.ids s.requests turns := by
  induction turns generalizing s owed earlier with
  | nil => exact ⟨rfl, h, (List.append_nil _).symm⟩
  | cons t turns ih =>
    obtain ⟨hanswers, late, hheard, hlate, hrest⟩ := ha
    obtain ⟨outcome, houtcome⟩ := hanswers.answers
    have hafter : ∀ line ∈ t.after, (0x0A : UInt8) ∉ line := fun line hm =>
      hanswers.newlines line (List.mem_append_right _ (List.mem_cons_of_mem _ hm))
    have hbefore : ∀ line ∈ t.before ++ [t.answer], (0x0A : UInt8) ∉ line := by
      intro line hm
      refine hanswers.newlines line ?_
      rcases List.mem_append.mp hm with hm | hm
      · exact List.mem_append_left _ hm
      · exact List.mem_append_right _ (List.mem_singleton.mp hm ▸ List.mem_cons_self)
    have hsplit : t.lines = (t.before ++ [t.answer]) ++ t.after := by simp [Turn.lines]
    rw [hsplit] at hheard
    -- Of the lines behind the answer some are heard with it, and the others are owed to the next operation.
    obtain ⟨sofar, later, hsofar, hlines, hlater⟩ := heard_of_suffix hafter hlate howed hbefore hheard
    have hmiddle : (linesOfChunk s.unfinished (heardBytes t.receipts)).1 =
        (earlier ++ t.before) ++ t.answer :: sofar := by
      rw [hlines]
      simp
    have hplainAfter : ∀ line ∈ t.after, IsPlain line := fun line hm => hanswers.plain line (List.mem_append_right _ hm)
    obtain ⟨r, s', hr, hserial, hrun, hserves, hunfinished⟩ :=
      run_answered h hanswers.acceptable hanswers.quiet hmiddle (by
          intro line hm
          rcases List.mem_append.mp hm with hm | hm
          · rcases List.mem_append.mp hm with hm | hm
            · exact hplain line hm
            · exact hanswers.plain line (List.mem_append_left _ hm)
          · exact hplainAfter line (hsofar ▸ List.mem_append_left _ hm)) (by
          intro line hm
          rcases List.mem_append.mp hm with hm | hm
          · exact hearlier line hm
          · exact hanswers.before line hm) houtcome
    rw [← hunfinished] at hlater
    have hmem : ∀ line ∈ later, line ∈ t.after := fun line hm => hsofar ▸ List.mem_append_right _ hm
    rw [← hserves.ids, ← hserves.requests] at hrest
    obtain ⟨houtcomes, hatRest, hwritten⟩ := ih (hserves.atRest h hserial) hlater
      (fun line hm => hplainAfter line (hmem line hm))
      (by rw [hserves.ids, hserves.requests]; exact fun line hm => hanswers.after line (hmem line hm)) hrest
    have hresult : t.result? = some (t.inquiry.result outcome) := by rw [Turn.result?, houtcome, Option.map_some]
    have hline : t.inquiry.line? s.requests (s.ids s.requests) = r.line.toOption := by
      rw [Inquiry.line?, hr, Option.bind_some]
    simp only [converse, hrun, List.map_cons, hresult]
    refine ⟨by rw [houtcomes], hatRest, ?_⟩
    rw [hwritten, hserves.written, hserves.ids, hserves.requests, linesSent, hline, List.append_assoc,
      List.singleton_append]

theorem Answered.of_prefix {ids : Nat → Text} {n : Nat} {owed : List UInt8} {sofar turns : List Turn}
    (h : Answered ids n owed turns) (hp : sofar <+: turns) : Answered ids n owed sofar := by
  induction sofar generalizing n owed turns with
  | nil => trivial
  | cons t sofar ih =>
    cases turns with
    | nil => cases List.prefix_nil.mp hp
    | cons t' turns =>
      obtain ⟨rfl, htail⟩ := List.cons_prefix_cons.mp hp
      obtain ⟨hanswers, late, hheard, hlate, hrest⟩ := h
      exact ⟨hanswers, late, hheard, hlate, ih hrest htail⟩

/-- A session is a sequence of calls. Each operation ends with the outcome of its own answer, whatever the other lines
    are and however the bytes are cut. Behind every operation one line was sent for each operation so far, no request
    waits, and the context is live. -/
theorem converse_as_calls {s : Session} {turns : List Turn} (h : s.AtRest) (hu : s.unfinished = [])
    (ha : Answered s.ids s.requests [] turns) :
    (s.converse turns).1 = turns.map Turn.result? ∧
      ∀ sofar, sofar <+: turns →
        (s.converse sofar).2.engine.written.map some =
          s.engine.written.map some ++ linesSent s.ids s.requests sofar ∧
        (s.converse sofar).2.engine.pending = [] ∧ (s.converse sofar).2.closed = false := by
  have howed : linesOfChunk s.unfinished [] = ([], []) := by rw [hu, linesOfChunk_nil]
  have hall : ∀ sofar, sofar <+: turns → _ := fun sofar hp =>
    converse_answered h howed (List.forall_mem_nil _) (List.forall_mem_nil _) (Answered.of_prefix ha hp)
  refine ⟨(hall turns (List.prefix_refl _)).1, fun sofar hp => ?_⟩
  obtain ⟨-, hrest, hwritten⟩ := hall sofar hp
  refine ⟨hwritten, hrest.pending, ?_⟩
  simp [closed, Engine.stopped, hrest.working.stopping, hrest.working.gone]

/-! ### A session that was just started -/

theorem forall_watch {w : Worker} (looks : Nat) (h : ∀ look ∈ w.looks, look = none) :
    ∀ look ∈ (w.watch looks).1.looks, look = none := by
  induction looks generalizing w with
  | zero => exact h
  | succ looks ih =>
    simp only [Worker.watch]
    split
    · exact Worker.forall_afterLook h
    · exact ih (Worker.forall_afterLook h)

theorem forall_await {w w' : Worker} {timeout : Text} {arrival : Arrival} (h : ∀ look ∈ w.looks, look = none)
    (hawait : w.await timeout arrival = (w', none)) : ∀ look ∈ w'.looks, look = none := by
  obtain ⟨looks, -, hwatch⟩ := Worker.watch_of_await hawait
  have hlooks := forall_watch looks h
  rw [hwatch] at hlooks
  exact hlooks

/-- The engine after a start that goes well. -/
theorem engine_of_start {machine : Machine} {site site' : Site} (hnew : site.engine = Engine.new)
    (hlives : ∀ worker, machine.launch = .ok worker → ∀ look ∈ worker.looks, look = none)
    (hstart : site.start machine = (.ok (), site')) : ∃ worker, (∀ look ∈ worker.looks, look = none) ∧
      site'.engine = { Engine.new with
        started := true
        listening := true
        connection := some ⟨true, [], []⟩
        process := some worker } := by
  have hstarted : site.engine.started = false := by rw [hnew]; rfl
  simp only [Site.start, hstarted, Bool.false_eq_true, if_false] at hstart
  rcases hcreate : site.environment.create with ⟨failure | directory, environment⟩
  · rw [hcreate] at hstart
    cases (Prod.mk.inj hstart).1
  simp only [hcreate] at hstart
  rcases hlisten : machine.listen with fault | socket
  · rw [hlisten] at hstart
    cases (Prod.mk.inj hstart).1
  simp only [hlisten, Site.launch] at hstart
  rcases hname : site.options.program.nameFault? with _ | fault
  swap
  · rw [hname] at hstart
    cases (Prod.mk.inj hstart).1
  simp only [hname] at hstart
  rcases hlaunch : machine.launch with fault | worker
  · rw [hlaunch] at hstart
    cases (Prod.mk.inj hstart).1
  simp only [hlaunch] at hstart
  rcases hawait : worker.await site.options.timeout machine.arrival with ⟨connected, _ | reason⟩
  · rw [hawait] at hstart
    obtain rfl := (Prod.mk.inj hstart).2
    refine ⟨connected, forall_await (hlives worker hlaunch) hawait, ?_⟩
    rw [hnew]
  · rw [hawait] at hstart
    cases (Prod.mk.inj hstart).1

/-- A start that goes well leaves a new session at rest, if its process goes on. -/
theorem atRest_start {machine : Machine} {site : Site} {ids : Nat → Text} {s : Session} (hnew : site.engine = Engine.new)
    (hlives : ∀ worker, machine.launch = .ok worker → ∀ look ∈ worker.looks, look = none)
    (hstart : (idle site ids).start machine = (.ok (), s)) :
    s.AtRest ∧ s.unfinished = [] ∧ s.requests = 0 ∧ s.ids = ids := by
  rcases hsite : site.start machine with ⟨failure | _, site'⟩
  · rw [start, idle, hsite] at hstart
    cases (Prod.mk.inj hstart).1
  · obtain ⟨worker, hworker, hengine⟩ := engine_of_start hnew hlives hsite
    rw [start, idle, hsite] at hstart
    obtain rfl := (Prod.mk.inj hstart).2
    have hrun : site'.engine.run = (site'.engine, .waiting) := by rw [hengine]; rfl
    rw [settle_of_waiting (s := ⟨site', [], true, true, true, 0, ids⟩) rfl hrun]
    have hworking : Working (withEngine ⟨site', [], true, true, true, 0, ids⟩ site'.engine) := by
      refine ⟨?_, ?_, ?_, ?_, ⟨_, congrArg Engine.connection hengine, List.forall_mem_nil _⟩, ?_, rfl, rfl⟩
      · exact congrArg Engine.started hengine
      · exact congrArg Engine.stopping hengine
      · exact congrArg Engine.gone hengine
      · exact congrArg Engine.queue hengine
      · intro process hp
        obtain rfl := Option.some.inj ((congrArg Engine.process hengine).symm.trans hp)
        exact hworker
    have hcompleted : site'.engine.completed = [] := congrArg Engine.completed hengine
    refine ⟨⟨hworking, congrArg Engine.pending hengine, fun completion hm => ?_⟩, rfl, rfl, rfl⟩
    change completion ∈ site'.engine.completed at hm
    rw [hcompleted] at hm
    cases hm

/-! Two operations whose answers are heard together with other lines: a blank line stands before the first answer,
    which is cut in two, and comes a second time behind itself; the second operation gets the node as it is. -/

/-- An answer to the request with some number: the node of a truth value. -/
def truthReply (n : Nat) : Json :=
  .object [(.ofString "type", .text (.ofString "result")), (.ofString "event_id", .text (.ofNat n)),
    (.ofString "payload", .object [(.ofString "result", (Wire.Node.boolean true).toJson)])]

theorem replyOn?_truthReply (n : Nat) :
    replyOn? (truthReply n).line = some (.ofNat n, .ok (.ofJson (Wire.Node.boolean true).toJson)) := by
  have hretold : (truthReply n).retold .float = truthReply n := by
    simp only [truthReply, Json.retold, Json.retoldMembers, (Text.IsGraphic.ofNat n).join_eq]
    rfl
  have hfits : (truthReply n).Fits Json.nestingLimit := by
    simp [truthReply, Wire.Node.toJson, Json.Fits, Json.MembersFit, Json.nestingLimit]
  rw [replyOn?, contentOn?_line hfits, hretold]
  rfl

/-- A session whose engine is started and has nothing to do. -/
def resting : Session where
  site := ⟨Options.standard, { Engine.new with
      started := true
      connection := some ⟨true, [], []⟩
      process := some ⟨[none], false⟩ }, ⟨⟨[], []⟩, [], none, 0⟩, []⟩
  unfinished := []
  looks := true
  reading := true
  looping := true
  requests := 0
  ids := .ofNat

/-- An attempt that brings some bytes and leaves the engine alone. -/
def heardChunk (bytes : List UInt8) : Receipt := ⟨false, false, .data bytes⟩

/-- A blank line, an answer and the beginning of the next one. -/
def firstBytes : List UInt8 := unlines [[0x20], (truthReply 0).line] ++ (truthReply 0).line.take 7

/-- The global name that the first operation asks for. -/
def firstTurn : Turn where
  inquiry := .perform .empty (.getProp (.scalar (.text (.ofString "x") .plain)))
  before := [[0x20]]
  answer := (truthReply 0).line
  after := [(truthReply 0).line]
  receipts := [heardChunk (firstBytes.take 9), silence, heardChunk (firstBytes.drop 9)]

/-- A request as it stands. -/
def secondTurn : Turn where
  inquiry := .ask (.text (.ofString "ping")) (Operation.record [])
  before := []
  answer := (truthReply 1).line
  after := []
  receipts := [heardChunk ((truthReply 0).line.drop 7 ++ 0x0A :: unlines [(truthReply 1).line])]

theorem isPlain_space : IsPlain [0x20] := .inl rfl

theorem bytes_heardChunk (bytes : List UInt8) : (heardChunk bytes).bytes = bytes := rfl

theorem quiet_heardChunk {bytes : List UInt8} (h : bytes ≠ []) : (heardChunk bytes).Quiet :=
  ⟨rfl, rfl, .inl ⟨bytes, rfl, h⟩⟩

theorem firstTurn_answers : firstTurn.Answers resting.ids 0 where
  acceptable := ⟨_, rfl⟩
  newlines := by
    have hreply := Json.newline_notMem_line (truthReply 0)
    simp [Turn.lines, firstTurn, hreply]
  plain := by
    simp [firstTurn, isPlain_space, isPlain_of_replyOn? (replyOn?_truthReply 0)]
  answers := ⟨_, replyOn?_truthReply 0⟩
  before := by simp [firstTurn, show replyOn? [0x20] = none from rfl]
  after := by
    have hids : Text.ofNat 0 ≠ Text.ofNat 1 := by decide
    simp [firstTurn, replyOn?_truthReply, resting, hids]
  quiet := by
    have hfirst : firstBytes.take 9 ≠ [] := by decide +kernel
    have hsecond : firstBytes.drop 9 ≠ [] := by decide +kernel
    simp only [firstTurn, List.forall_mem_cons, List.not_mem_nil, false_implies, implies_true, and_true]
    exact ⟨quiet_heardChunk hfirst, ⟨rfl, rfl, .inr (.inl rfl)⟩, quiet_heardChunk hsecond⟩

theorem secondTurn_answers : secondTurn.Answers resting.ids 1 where
  acceptable := ⟨⟨_, rfl⟩, _, rfl⟩
  newlines := by
    have hreply := Json.newline_notMem_line (truthReply 1)
    simp [Turn.lines, secondTurn, hreply]
  plain := by simp [secondTurn]
  answers := ⟨_, replyOn?_truthReply 1⟩
  before := by simp [secondTurn]
  after := by simp [secondTurn]
  quiet := by
    simp only [secondTurn, List.forall_mem_cons, List.not_mem_nil, false_implies, implies_true, and_true]
    exact quiet_heardChunk (by simp)

theorem atRest_resting : resting.AtRest := by
  refine ⟨⟨rfl, rfl, rfl, rfl, ⟨_, rfl, List.forall_mem_nil _⟩, ?_, rfl, rfl⟩, rfl, List.forall_mem_nil _⟩
  intro process hp
  obtain rfl := Option.some.inj hp
  simp

theorem resting_converses : resting.AtRest ∧ resting.unfinished = [] ∧
    Answered resting.ids resting.requests [] [firstTurn, secondTurn] ∧
    (resting.converse [firstTurn, secondTurn]).1 =
      [some (.ok (.scalar (.bool true))), some (.ok (.ofJson (Wire.Node.boolean true).toJson))] ∧
    (resting.converse [firstTurn, secondTurn]).2.engine.pending = [] := by
  have hrest := atRest_resting
  have hanswered : Answered resting.ids resting.requests [] [firstTurn, secondTurn] := by
    have hcut := List.take_append_drop 7 (truthReply 0).line
    refine ⟨firstTurn_answers, (truthReply 0).line.drop 7 ++ [0x0A], ?_, ?_, secondTurn_answers, [], ?_, ?_, trivial⟩
    · have hheard : heardBytes firstTurn.receipts = firstBytes := by
        simp [heardBytes, firstTurn, heardChunk, Receipt.bytes, silence]
      rw [hheard, firstBytes, List.nil_append, List.append_assoc, ← List.append_assoc _ _ [0x0A], hcut]
      simp [unlines, Turn.lines, firstTurn]
    · refine ⟨(truthReply 0).line.take 7, ?_⟩
      rw [← List.append_assoc, hcut]
      simp [unlines, firstTurn]
    · simp [unlines, Turn.lines, secondTurn, heardBytes, heardChunk, Receipt.bytes]
    · exact List.nil_suffix
  obtain ⟨houtcomes, hafter⟩ := converse_as_calls hrest rfl hanswered
  refine ⟨hrest, rfl, hanswered, ?_, (hafter _ (List.prefix_refl _)).2.1⟩
  rw [houtcomes]
  simp only [List.map_cons, List.map_nil, Turn.result?, firstTurn, secondTurn, replyOn?_truthReply, Option.map_some]
  rfl

/-! A line of brackets alone stands before the answer. It answers nobody, and its brackets are too many for the log. -/

/-- A loop whose next event ends it does not get to the others. -/
theorem settle_of_fault {s : Session} {event : Event} {rest : List Event} {fault : LoopFault} (hl : s.looping = true)
    (hq : s.engine.queue = event :: rest) (hfault : event.fault? = some fault) :
    s.settle = { s.withEngine { s.engine with queue := rest } with looping := false } := by
  have hrun : s.engine.run = ({ s.engine with queue := rest }, .raised fault) := by
    obtain ⟨steps, hsteps⟩ : ∃ steps, s.engine.stepsLeft = steps + 1 := by
      rw [Engine.stepsLeft, hq]
      exact ⟨_, Nat.add_right_comm _ _ _⟩
    rw [Engine.run, hsteps]
    simp only [Engine.runFor, hq, Engine.handle_fault hfault]
  simp only [settle, hl, if_true, hrun]
  rfl

/-- A line that ends the loop completes nothing, and neither do those behind it. -/
theorem completed_receive_of_fault {s : Session} {receipt : Receipt} {line : List UInt8} {rest : List (List UInt8)}
    {event : Event} {fault : LoopFault} (h : s.Working) (hquiet : receipt.Quiet)
    (hlines : (linesOfChunk s.unfinished receipt.bytes).1 = line :: rest) (hevent : Event.ofLine? line = some event)
    (hfault : event.fault? = some fault) : (s.receive receipt).engine.completed = s.engine.completed := by
  obtain ⟨process, -, hadvance⟩ :=
    Reader.advance_undisturbed (r := ⟨s.engine, s.unfinished, 0⟩) s.looks h.stopping h.lives hquiet.stopsWaiting
      hquiet.stops
  obtain ⟨progress, hprogress, haccept⟩ :=
    Reader.accept_quiet ⟨{ s.engine with process := process }, s.unfinished, 1⟩ hquiet
  have hadvanced := hadvance.trans haccept
  simp only [Reader.take, h.queue, hlines, List.filterMap_cons, hevent, List.nil_append] at hadvanced
  set heard : Session := { s.withEngine { s.engine with
    process := process
    queue := event :: rest.filterMap Event.ofLine? } with
      unfinished := (linesOfChunk s.unfinished receipt.bytes).2
      looks := progress = .newRound
      reading := true }
  have hreceive : s.receive receipt = heard.settle := by
    cases progress with
    | ended fault => exact absurd rfl (hprogress fault)
    | _ => simp only [receive, h.reading, if_true, hadvanced, heard]
  rw [hreceive, settle_of_fault (s := heard) h.looping rfl hfault]
  rfl

/-- So the operation gets no outcome, whatever its answer is. -/
theorem ask_of_fault {s : Session} (operation payload : Host.Value) {receipt : Receipt} {line : List UInt8}
    {rest : List (List UInt8)} {event : Event} {fault : LoopFault} (h : s.AtRest)
    (hw : Request.Writable ⟨s.requests, s.ids s.requests, operation, payload⟩) (hquiet : receipt.Quiet)
    (hlines : (linesOfChunk s.unfinished receipt.bytes).1 = line :: rest) (hevent : Event.ofLine? line = some event)
    (hfault : event.fault? = some fault) : (s.ask operation payload fun s => s.hear [receipt]).1 = none := by
  obtain ⟨s₁, hrequest, hworking, hledger, -, -, -, hunfinished⟩ := request_sends h rfl hw
  have hcompleted : (s₁.receive receipt).engine.completed = s.engine.completed :=
    (completed_receive_of_fault hworking hquiet (hunfinished ▸ hlines) hevent hfault).trans
      (congrArg Ledger.completed hledger)
  have hnone : (s₁.receive receipt).engine.outcome? s.requests = none := by
    rw [Engine.outcome?, hcompleted, Option.map_eq_none_iff, List.find?_eq_none]
    exact fun completion hm => by simpa using Nat.ne_of_lt (h.completed completion hm)
  rw [ask, hrequest]
  exact hnone

theorem outcomes_converse_ask (s : Session) (operation payload : Host.Value) (before : List (List UInt8))
    (answer : List UInt8) (after : List (List UInt8)) (receipts : List Receipt) :
    (s.converse [⟨.ask operation payload, before, answer, after, receipts⟩]).1 =
      [(s.ask operation payload fun s => s.hear receipts).1] := rfl

/-- A line of brackets alone. -/
def bracketLine : List UInt8 := (Json.nested 986).line

theorem contentOn?_bracketLine : contentOn? bracketLine = some (.nested 986) := contentOn?_nested (by decide)

/-- A request as it stands, with the line of brackets before its answer. -/
def bracketTurn : Turn where
  inquiry := .ask (.text (.ofString "ping")) (Operation.record [])
  before := [bracketLine]
  answer := (truthReply 0).line
  after := []
  receipts := [heardChunk (unlines [bracketLine, (truthReply 0).line])]

/-- The peer answers the request with one line, and what it writes before that is decoded and carries no id. Yet the
    operation gets no outcome. -/
theorem deep_line_silences_answer : resting.AtRest ∧ resting.unfinished = [] ∧ bracketTurn.inquiry.Acceptable ∧
    (∀ line ∈ bracketTurn.before, ∃ content, contentOn? line = some content ∧ content.at? "event_id" = none) ∧
    (∀ line ∈ bracketTurn.lines, (0x0A : UInt8) ∉ line) ∧
    replyOn? bracketTurn.answer = some (resting.ids 0, .ok (.ofJson (Wire.Node.boolean true).toJson)) ∧
    heardBytes bracketTurn.receipts = unlines bracketTurn.lines ∧
    (∀ receipt ∈ bracketTurn.receipts, receipt.Quiet) ∧ (resting.converse [bracketTurn]).1 = [none] := by
  have hnewlines : ∀ line ∈ bracketTurn.lines, (0x0A : UInt8) ∉ line := by
    simp [Turn.lines, bracketTurn, bracketLine, Json.newline_notMem_line]
  have hheard : heardBytes bracketTurn.receipts = unlines bracketTurn.lines := by
    simp [heardBytes, bracketTurn, heardChunk, Receipt.bytes, Turn.lines]
  have hquiet : (heardChunk (unlines bracketTurn.lines)).Quiet :=
    quiet_heardChunk (by simp [unlines, Turn.lines, bracketTurn])
  obtain ⟨reason, hfault⟩ := Event.fault?_of_unloggable (Json.unloggable_nested (n := 986) (by decide))
  have hlines : (linesOfChunk resting.unfinished (heardChunk (unlines bracketTurn.lines)).bytes).1 =
      bracketLine :: [(truthReply 0).line] := by
    rw [bytes_heardChunk, show resting.unfinished = [] from rfl, linesOfChunk_unlines hnewlines]
    simp [Turn.lines, bracketTurn]
  have hnone := ask_of_fault (.text (.ofString "ping")) (Operation.record []) atRest_resting
    ⟨⟨_, rfl⟩, _, rfl⟩ hquiet hlines (Event.ofLine?_of_contentOn? contentOn?_bracketLine) hfault
  refine ⟨atRest_resting, rfl, ⟨⟨_, rfl⟩, _, rfl⟩, ?_, hnewlines, replyOn?_truthReply 0, hheard, ?_, ?_⟩
  · exact List.forall_mem_singleton.mpr ⟨_, contentOn?_bracketLine, Json.at?_nested 986 _⟩
  · exact List.forall_mem_singleton.mpr hquiet
  · rw [bracketTurn, outcomes_converse_ask]
    exact congrArg (fun outcome => [outcome]) hnone

end Session

end ScriptLink
