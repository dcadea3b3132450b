import ScriptLink.Proofs.LineText
import ScriptLink.Proofs.LoopStep

/-! # The bytes that the peer receives

    The loop sends one line for each request, over a connection that may take only a part of it. Main statement: what
    the peer has received is at every moment the lines that were sent, with one unfinished line behind them at most,
    exactly where nothing is passed on any more behind a line that was cut off. The loop itself sees to no such thing:
    it fails the request and sends the next one over the same connection. -/

namespace ScriptLink

/-- A line that is sent, with the obstacle that it meets, if any. -/
structure Send where
  line : List UInt8
  obstacle : Option Obstacle

namespace Send

/-- What the connection has taken of a line: all of it, or a part that is not the whole. -/
def passed (s : Send) : List UInt8 :=
  match s.obstacle with
  | none => s.line
  | some obstacle => s.line.take (min obstacle.passed (s.line.length - 1))

/-- Whether the line is cut off behind its first bytes. -/
def Torn (s : Send) : Prop := s.obstacle.isSome ∧ s.passed ≠ []

/-- Whether the line is one that ends with its only newline. -/
def IsLine (s : Send) : Prop := ∃ body, s.line = body ++ [0x0A] ∧ (0x0A : UInt8) ∉ body

/-- What some lines make of a stream, in the order of being sent. -/
def stream (sends : List Send) : List UInt8 := sends.flatMap Send.passed

/-- The lines that meet no obstacle. -/
def wholeLines (sends : List Send) : List UInt8 :=
  (sends.filter fun s => s.obstacle.isNone).flatMap Send.line

/-- Bytes that are the whole lines in order, and behind them what at most one line that met an obstacle passed on. -/
def Framed (sends : List Send) (bytes : List UInt8) : Prop :=
  ∃ unfinished, bytes = wholeLines sends ++ unfinished ∧
    (unfinished = [] ∨ ∃ s ∈ sends, s.obstacle.isSome ∧ unfinished = s.passed)

/-- Nothing is passed on behind a line that was cut off. -/
def Clean (sends : List Send) : Prop :=
  sends.Pairwise fun earlier later => earlier.Torn → later.passed = []

end Send

namespace Incoming

/-- The lines that the loop sends for some arrivals, with the obstacles that they meet. It sends nothing more once the
    other end is gone, and once a finish or a fault ends it. -/
def sends : List (Option Obstacle) → List Incoming → List Send
  | _, [] => []
  | obstacles, .request r :: rest =>
    match r.line with
    | .ok line => ⟨line, obstacles.head?.join⟩ :: sends obstacles.tail rest
    | .error _ => []
  | obstacles, .message content :: rest =>
    if (Event.message (.ofJson content)).fault?.isSome then [] else sends obstacles rest
  | obstacles, .protocolError _ :: rest => sends obstacles rest
  | _, .closed _ :: _ | _, .finish :: _ => []

end Incoming

/-! ### Lines one after the other -/

namespace Send
variable {s : Send}

theorem passed_of_whole (h : s.obstacle = none) : s.passed = s.line := by
  rw [passed, h]

theorem IsLine.ne_nil (h : s.IsLine) : s.line ≠ [] := by
  obtain ⟨body, hline, -⟩ := h
  rw [hline]
  simp

/-- A line that meets an obstacle loses its newline. -/
theorem IsLine.newline_notMem (h : s.IsLine) (ho : s.obstacle.isSome) : (0x0A : UInt8) ∉ s.passed := by
  obtain ⟨body, hline, hbody⟩ := h
  obtain ⟨obstacle, hobstacle⟩ := Option.isSome_iff_exists.mp ho
  intro hm
  have hlength : min obstacle.passed ((body ++ [0x0A]).length - 1) ≤ body.length := by
    rw [List.length_append, List.length_singleton]
    omega
  simp only [passed, hobstacle, hline, List.take_append_of_le_length hlength] at hm
  exact hbody (List.mem_of_mem_take hm)

theorem IsLine.isSome_of_passed (h : s.IsLine) (hp : s.passed = []) : s.obstacle.isSome := by
  rcases ho : s.obstacle with _ | obstacle
  · exact absurd (passed_of_whole ho ▸ hp) h.ne_nil
  · rfl

variable {sends : List Send}

theorem wholeLines_cons (s : Send) (sends : List Send) :
    wholeLines (s :: sends) = (if s.obstacle.isNone then s.line else []) ++ wholeLines sends := by
  unfold wholeLines
  rw [List.filter_cons]
  split <;> rfl

theorem wholeLines_append (sends later : List Send) : wholeLines (sends ++ later) = wholeLines sends ++ wholeLines later := by
  simp [wholeLines]

theorem stream_cons (s : Send) (sends : List Send) : stream (s :: sends) = s.passed ++ stream sends := rfl

theorem wholeLines_of_passed (hlines : ∀ s ∈ sends, s.IsLine) (h : ∀ s ∈ sends, s.passed = []) : wholeLines sends = [] := by
  unfold wholeLines
  rw [List.filter_eq_nil_iff.mpr fun s hs => ?_]
  · rfl
  · have hobstacle := (hlines s hs).isSome_of_passed (h s hs)
    rw [Option.isSome_iff_ne_none] at hobstacle
    simpa using hobstacle

theorem stream_of_passed (h : ∀ s ∈ sends, s.passed = []) : stream sends = [] :=
  List.flatMap_eq_nil_iff.mpr h

theorem passed_of_not_torn (h : ¬ s.Torn) : s.passed = if s.obstacle.isNone then s.line else [] := by
  rcases ho : s.obstacle with _ | obstacle
  · exact passed_of_whole ho
  · by_contra hp
    exact h ⟨by rw [ho]; rfl, hp⟩

theorem stream_of_none_torn (h : ∀ s ∈ sends, ¬ s.Torn) : stream sends = wholeLines sends := by
  induction sends with
  | nil => rfl
  | cons s sends ih =>
    rw [stream_cons, wholeLines_cons, passed_of_not_torn (h s List.mem_cons_self),
      ih fun later hm => h later (List.mem_cons_of_mem _ hm)]

/-- A clean stream with a torn line ends with what this line passed on, and no other line was torn. -/
theorem stream_of_torn (hlines : ∀ s ∈ sends, s.IsLine) (h : Clean sends) (hs : s ∈ sends) (htorn : s.Torn) :
    stream sends = wholeLines sends ++ s.passed ∧
      ∀ other ∈ sends, other.obstacle.isSome → other.passed = [] ∨ other.passed = s.passed := by
  induction sends with
  | nil => cases hs
  | cons first sends ih =>
    obtain ⟨hlater, hclean⟩ := List.pairwise_cons.mp h
    have hlines' : ∀ later ∈ sends, later.IsLine := fun later hm => hlines later (List.mem_cons_of_mem _ hm)
    rcases List.mem_cons.mp hs with rfl | hs
    · have hpassed : ∀ later ∈ sends, later.passed = [] := fun later hm => hlater later hm htorn
      have hnot : s.obstacle.isNone = false := by simpa using htorn.1
      refine ⟨?_, ?_⟩
      · rw [stream_cons, stream_of_passed hpassed, wholeLines_cons, wholeLines_of_passed hlines' hpassed, hnot,
          List.append_nil]
        rfl
      · intro other hm _
        rcases List.mem_cons.mp hm with rfl | hm
        · exact .inr rfl
        · exact .inl (hpassed other hm)
    · have hfirst : ¬ first.Torn := fun ht => htorn.2 (hlater s hs ht)
      obtain ⟨hbytes, hothers⟩ := ih hlines' hclean hs
      refine ⟨?_, ?_⟩
      · rw [stream_cons, hbytes, wholeLines_cons, passed_of_not_torn hfirst, List.append_assoc]
      · intro other hm ho
        rcases List.mem_cons.mp hm with rfl | hm
        · exact .inl (by_contra fun hp => hfirst ⟨ho, hp⟩)
        · exact hothers other hm ho

/-- Without a torn line, or with nothing behind it, the stream is framed. -/
theorem framed_of_clean (hlines : ∀ s ∈ sends, s.IsLine) (h : Clean sends) : Framed sends (stream sends) := by
  by_cases htorn : ∃ s ∈ sends, s.Torn
  · obtain ⟨s, hs, htorn⟩ := htorn
    exact ⟨s.passed, (stream_of_torn hlines h hs htorn).1, .inr ⟨s, hs, htorn.1, rfl⟩⟩
  · refine ⟨[], ?_, .inl rfl⟩
    rw [List.append_nil]
    exact stream_of_none_torn fun s hs ht => htorn ⟨s, hs, ht⟩

/-- Where a stream is framed after every line, nothing is passed on behind a torn line. -/
theorem clean_of_framed (hlines : ∀ s ∈ sends, s.IsLine) (h : ∀ sofar, sofar <+: sends → Framed sofar (stream sofar)) :
    Clean sends := by
  -- Lines are added at the end: the last one is compared with those before it, which are clean by induction.
  induction sends using List.reverseRecOn with
  | nil => exact List.Pairwise.nil
  | append_singleton sends last ih =>
    have hlines' : ∀ s ∈ sends, s.IsLine := fun s hm => hlines s (List.mem_append_left _ hm)
    have hlast : last.IsLine := hlines last (List.mem_append_right _ List.mem_cons_self)
    have hclean := ih hlines' fun sofar hp => h sofar (hp.trans (List.prefix_append _ _))
    refine List.pairwise_append.mpr ⟨hclean, List.pairwise_singleton _ _, fun s hs other hother htorn => ?_⟩
    obtain rfl := List.mem_singleton.mp hother
    obtain ⟨hbytes, hothers⟩ := stream_of_torn hlines' hclean hs htorn
    obtain ⟨unfinished, hframed, hunfinished⟩ := h _ (List.prefix_refl _)
    rw [stream, List.flatMap_append, wholeLines_append, ← stream, hbytes, List.append_assoc, List.append_assoc] at hframed
    have hrest : s.passed ++ other.passed = (if other.obstacle.isNone then other.line else []) ++ unfinished := by
      have hcancel := List.append_cancel_left hframed
      rw [wholeLines_cons, List.flatMap_singleton] at hcancel
      simpa [wholeLines] using hcancel
    have hnewline : (0x0A : UInt8) ∉ s.passed := (hlines' s hs).newline_notMem htorn.1
    rcases ho : other.obstacle with _ | obstacle
    · -- The whole line would have to stand both behind the torn one and before what is unfinished.
      obtain ⟨body, hline, hbody⟩ := hlast
      rw [passed_of_whole ho, ho, Option.isNone_none, if_pos rfl, hline, ← List.append_assoc, List.append_assoc body]
        at hrest
      have hbefore : (0x0A : UInt8) ∉ s.passed ++ body := List.not_mem_append hnewline hbody
      obtain ⟨hsame, -⟩ := (List.append_cons_inj_of_notMem hbefore List.not_mem_nil).mp hrest
      exact absurd (List.append_left_eq_self.mp hsame) htorn.2
    · -- What is unfinished is then what one of the lines passed on, at most that of the torn one.
      rw [ho, Option.isNone_some, if_neg Bool.false_ne_true, List.nil_append] at hrest
      rcases hunfinished with rfl | ⟨torn, hm, hsome, rfl⟩
      · exact (List.append_eq_nil_iff.mp hrest).2
      · rcases List.mem_append.mp hm with hm | hm
        · rcases hothers torn hm hsome with hp | hp
          · exact (List.append_eq_nil_iff.mp (hrest.trans hp)).2
          · exact List.append_right_eq_self.mp (hrest.trans hp)
        · obtain rfl := List.mem_singleton.mp hm
          exact absurd (List.append_left_eq_self.mp hrest) htorn.2

end Send


/-! ### What the loop sends -/

theorem Connection.write_eq (c : Connection) (bytes : List UInt8) : c.write bytes =
    ({ c with
        obstacles := c.obstacles.tail
        written := c.written ++ [Send.passed ⟨bytes, c.obstacles.head?.join⟩] },
      c.obstacles.head?.join.map Obstacle.fault) := by
  rcases c with ⟨isOpen, _ | ⟨_ | obstacle, later⟩, written⟩ <;> rfl

/-- A connection without obstacles takes all that is written. -/
theorem Connection.write_free {c : Connection} {bytes : List UInt8} (h : ∀ obstacle ∈ c.obstacles, obstacle = none) :
    c.write bytes = ({ c with obstacles := c.obstacles.tail, written := c.written ++ [bytes] }, none) := by
  rcases c with ⟨isOpen, _ | ⟨_ | obstacle, later⟩, written⟩
  · rfl
  · rfl
  · cases h _ List.mem_cons_self

namespace Incoming

theorem isLine_of_mem_sends {obstacles : List (Option Obstacle)} {arrivals : List Incoming} :
    ∀ s ∈ sends obstacles arrivals, s.IsLine := by
  induction arrivals generalizing obstacles with
  | nil => simp [sends]
  | cons arrival rest ih =>
    cases arrival with
    | request r =>
      rcases hline : r.line with reason | line
      · simp [sends, hline]
      · simp only [sends, hline, List.forall_mem_cons]
        exact ⟨Request.line_eq hline, ih⟩
    | message content =>
      simp only [sends]
      split
      · simp
      · exact ih
    | protocolError words => exact ih
    | closed reason => simp [sends]
    | finish => simp [sends]

theorem sends_take_prefix (obstacles : List (Option Obstacle)) (arrivals : List Incoming) (n : Nat) :
    sends obstacles (arrivals.take n) <+: sends obstacles arrivals := by
  induction n generalizing obstacles arrivals with
  | zero => exact List.nil_prefix
  | succ n ih =>
    cases arrivals with
    | nil => exact List.prefix_refl _
    | cons arrival rest =>
      cases arrival with
      | request r =>
        rcases hline : r.line with reason | line
        · simp [sends, hline]
        · simp only [List.take_succ_cons, sends, hline]
          exact (List.prefix_cons_inj _).mpr (ih _ _)
      | message content =>
        simp only [List.take_succ_cons, sends]
        split
        · exact List.prefix_refl _
        · exact ih _ _
      | protocolError words => exact ih _ _
      | closed reason => exact List.prefix_refl _
      | finish => exact List.prefix_refl _

/-- Every moment between two lines is one between two arrivals. -/
theorem exists_take_of_prefix {obstacles : List (Option Obstacle)} {arrivals : List Incoming} {sofar : List Send}
    (h : sofar <+: sends obstacles arrivals) : ∃ n, sends obstacles (arrivals.take n) = sofar := by
  induction arrivals generalizing obstacles sofar with
  | nil => exact ⟨0, (List.prefix_nil.mp h).symm⟩
  | cons arrival rest ih =>
    cases arrival with
    | request r =>
      rcases hline : r.line with reason | line
      · simp only [sends, hline] at h
        exact ⟨0, (List.prefix_nil.mp h).symm⟩
      · simp only [sends, hline] at h
        cases sofar with
        | nil => exact ⟨0, rfl⟩
        | cons first sofar =>
          obtain ⟨rfl, hrest⟩ := List.cons_prefix_cons.mp h
          obtain ⟨n, hn⟩ := ih hrest
          exact ⟨n + 1, by simp only [List.take_succ_cons, sends, hline, hn]⟩
    | message content =>
      simp only [sends] at h
      split at h
      · exact ⟨0, (List.prefix_nil.mp h).symm⟩
      · rename_i hcontent
        obtain ⟨n, hn⟩ := ih h
        exact ⟨n + 1, by simp only [List.take_succ_cons, sends, if_neg hcontent, hn]⟩
    | protocolError words =>
      obtain ⟨n, hn⟩ := ih h
      exact ⟨n + 1, hn⟩
    | closed reason => exact ⟨0, (List.prefix_nil.mp h).symm⟩
    | finish => exact ⟨0, (List.prefix_nil.mp h).symm⟩

end Incoming

namespace Engine
variable {e : Engine}

/-- What each write so far has passed on. -/
def written (e : Engine) : List (List UInt8) := e.connection.elim [] Connection.written

/-- All bytes that the peer has received. -/
def received (e : Engine) : List UInt8 := e.written.flatten

/-- The beginning of a run: these arrivals are in the queue, nothing was sent yet, and the coming writes meet these
    obstacles. -/
structure Begins (e : Engine) (arrivals : List Incoming) (obstacles : List (Option Obstacle)) : Prop where
  queue : e.queue = arrivals.map Incoming.event
  gone : e.gone = none
  connection : ∃ isOpen, e.connection = some ⟨isOpen, obstacles, []⟩
  tellable : ∀ content, .message content ∈ arrivals → content.Tellable

theorem written_stop (e : Engine) : e.stop.written = e.written := by
  have close : ∀ e : Engine, e.closeConnection.written = e.written := fun e => by
    unfold closeConnection
    split
    · rename_i connection hc
      simp [written, hc]
    · rfl
  have process : ∀ e : Engine, e.endProcess.written = e.written := fun e => by
    simp only [endProcess]
    repeat' split
    all_goals rfl
  unfold stop
  split
  · rfl
  · rw [process]
    exact close ({ e with stopping := true }.enqueue .finish)

/-- What does not concern the connection leaves it alone. -/
theorem answer_frame (e : Engine) (answer : Answer) (id : Host.Value) :
    (e.answer answer id).1.gone = e.gone ∧ (e.answer answer id).1.written = e.written := by
  unfold Engine.answer
  split
  · exact ⟨rfl, rfl⟩
  · split
    · split <;> exact ⟨rfl, rfl⟩
    · exact ⟨rfl, rfl⟩

/-- Once the other end is gone, an event makes the loop send nothing. -/
theorem handle_of_gone (event : Event) (h : e.gone.isSome) :
    (e.handle event).1.gone.isSome ∧ (e.handle event).1.written = e.written := by
  cases event with
  | request r =>
    obtain ⟨reason, hreason⟩ := Option.isSome_iff_exists.mp h
    simp only [handle, dispatch_gone hreason]
    exact ⟨h, rfl⟩
  | message content =>
    simp only [handle]
    split
    · rw [(answer_frame ..).1, (answer_frame ..).2]
      exact ⟨h, rfl⟩
    · obtain ⟨log, hlog⟩ := e.unexpected_frame (.message content)
      rw [hlog]
      exact ⟨h, rfl⟩
  | protocolError words => exact ⟨h, rfl⟩
  | closed reason =>
    simp only [handle]
    rw [(stop_frame _).1, written_stop]
    exact ⟨rfl, rfl⟩
  | finish => exact ⟨h, rfl⟩
  | stray value =>
    simp only [handle]
    split
    · obtain ⟨log, hlog⟩ := e.unexpected_frame (.stray value)
      rw [hlog]
      exact ⟨h, rfl⟩
    · exact ⟨h, rfl⟩

theorem written_runFor_of_gone (n : Nat) (h : e.gone.isSome) : (e.runFor n).1.written = e.written := by
  induction n generalizing e with
  | zero => rfl
  | succ n ih =>
    rcases hq : e.queue with _ | ⟨event, rest⟩
    · simp only [runFor, hq]
    · obtain ⟨hgone, hwritten⟩ := handle_of_gone (e := { e with queue := rest }) event h
      simp only [runFor, hq]
      rcases hhandle : handle { e with queue := rest } event with ⟨e', _ | _ | fault⟩
      all_goals rw [hhandle] at hgone hwritten
      · exact (ih hgone).trans hwritten
      · exact hwritten
      · exact hwritten

/-- A request whose line can be written is sent, whatever becomes of it. -/
theorem dispatch_writes {r : Request} {line : List UInt8} {connection : Connection} (hg : e.gone = none)
    (hline : r.line = .ok line) (hc : e.connection = some connection) : ∃ pending completed, e.dispatch r =
      ({ e with pending := pending, completed := completed, connection := some (connection.write line).1 }, .goOn) := by
  have hwrite : write { e with pending := e.pending.insert r.id r } line =
      ({ e with pending := e.pending.insert r.id r, connection := some (connection.write line).1 },
        (connection.write line).2) := by
    simp only [write, hc]
  rcases hfault : (connection.write line).2 with _ | fault
  · rw [hfault] at hwrite
    exact ⟨_, _, dispatch_sent hg hline hwrite⟩
  · rw [hfault] at hwrite
    exact ⟨_, _, dispatch_faulted hg hline hwrite⟩

/-- What the loop has written after some steps. -/
theorem written_runFor {arrivals : List Incoming} {obstacles : List (Option Obstacle)} (n : Nat)
    (hq : e.queue = arrivals.map Incoming.event) (hg : e.gone = none)
    (hc : ∃ connection, e.connection = some connection ∧ connection.obstacles = obstacles)
    (htellable : ∀ content, .message content ∈ arrivals → content.Tellable) :
    (e.runFor n).1.written = e.written ++ (Incoming.sends obstacles (arrivals.take n)).map Send.passed := by
  induction n generalizing e arrivals obstacles with
  | zero => exact (List.append_nil _).symm
  | succ n ih =>
    cases arrivals with
    | nil =>
      simp only [List.map_nil] at hq
      simp only [runFor, hq, List.take_nil, Incoming.sends, List.map_nil, List.append_nil]
    | cons arrival rest =>
      simp only [List.map_cons] at hq
      simp only [runFor, hq, List.take_succ_cons]
      have hrestTellable : ∀ content, .message content ∈ rest → content.Tellable := fun content hm =>
        htellable content (List.mem_cons_of_mem _ hm)
      cases arrival with
      | request r =>
        rcases hline : r.line with reason | line
        · -- A request that cannot be written ends the loop.
          simp only [Incoming.event, handle, Incoming.sends, hline, List.map_nil, List.append_nil]
          rw [dispatch_unwritable (e := { e with queue := rest.map Incoming.event }) hg hline]
          rfl
        · -- Any other one takes the next obstacle away, whether it is stopped by it or not.
          obtain ⟨connection, hconnection, rfl⟩ := hc
          obtain ⟨pending, completed, hdispatch⟩ :=
            dispatch_writes (e := { e with queue := rest.map Incoming.event }) hg hline hconnection
          simp only [Incoming.event, handle, hdispatch, Incoming.sends, hline, List.map_cons]
          set e' : Engine := { e with
            queue := rest.map Incoming.event
            pending := pending
            completed := completed
            connection := some (connection.write line).1 }
          have htail : (connection.write line).1.obstacles = connection.obstacles.tail := by rw [Connection.write_eq]
          have hrest : e'.queue = rest.map Incoming.event := rfl
          rw [ih hrest hg ⟨_, rfl, htail⟩ hrestTellable]
          simp only [e', written, hconnection, Option.elim_some, Connection.write_eq, List.append_assoc,
            List.singleton_append]
      | message content =>
        simp only [Incoming.event, Incoming.sends]
        rcases hfault : (Event.message (.ofJson content)).fault? with _ | fault
        · obtain ⟨log, hhandle⟩ := handle_message (e := { e with queue := rest.map Incoming.event }) hfault
            (htellable content List.mem_cons_self)
          obtain ⟨hqueue, hgone, hconnection⟩ := heed_frame { e with queue := rest.map Incoming.event } content
          rw [Option.isSome_none, if_neg Bool.false_ne_true, hhandle]
          refine (ih (e := { heed { e with queue := rest.map Incoming.event } content with log := log }) hqueue
            (hgone.trans hg) (hconnection ▸ hc) hrestTellable).trans ?_
          simp only [written, hconnection]
        · rw [Option.isSome_some, if_pos rfl, handle_fault hfault]
          exact (List.append_nil _).symm
      | protocolError words => exact ih (e := failPending _ _) rfl hg hc hrestTellable
      | closed reason =>
        simp only [Incoming.event, handle, Incoming.sends, List.map_nil, List.append_nil]
        rw [written_runFor_of_gone]
        · rw [written_stop]
          rfl
        · rw [(stop_frame _).1]
          rfl
      | finish => exact (List.append_nil _).symm

theorem received_runFor {arrivals : List Incoming} {obstacles : List (Option Obstacle)} (h : e.Begins arrivals obstacles)
    (n : Nat) : (e.runFor n).1.received = Send.stream (Incoming.sends obstacles (arrivals.take n)) := by
  obtain ⟨isOpen, hconnection⟩ := h.connection
  have hbefore : e.written = [] := by rw [written, hconnection, Option.elim_some]
  rw [received, written_runFor n h.queue h.gone ⟨_, hconnection, rfl⟩ h.tellable, hbefore, List.nil_append, Send.stream, List.flatMap_def]

/-- At every moment of a run the peer has received the lines of the requests that were sent, whole and in order, with
    one unfinished line behind them at most, exactly where nothing is passed on behind a line that was cut off. -/
theorem received_framed_iff {arrivals : List Incoming} {obstacles : List (Option Obstacle)}
    (h : e.Begins arrivals obstacles) :
    (∀ n, Send.Framed (Incoming.sends obstacles (arrivals.take n)) (e.runFor n).1.received) ↔
      Send.Clean (Incoming.sends obstacles arrivals) := by
  simp only [received_runFor h]
  constructor
  · intro hframed
    refine Send.clean_of_framed Incoming.isLine_of_mem_sends fun sofar hp => ?_
    obtain ⟨n, rfl⟩ := Incoming.exists_take_of_prefix hp
    exact hframed n
  · intro hclean n
    exact Send.framed_of_clean Incoming.isLine_of_mem_sends
      (hclean.sublist (Incoming.sends_take_prefix obstacles arrivals n).sublist)

/-! Of three lines the first meets an obstacle at its beginning and the last within it: the stream is framed. Where the
    first of two lines is cut off, the second one follows it all the same. -/

/-- The line of the request with some number. -/
def numberedLine (n : Nat) : List UInt8 :=
  Utf8.encode (.ofString "\x7b\"type\": \"call\", \"event_id\": \"" ++ .ofNat n ++ .ofString "\", \"payload\": [\"" ++
    .ofNat n ++ .ofString "\"]\x7d\n")

/-- A connection that takes no more for now, after so many bytes. -/
def wouldBlock (passed : Nat) : Obstacle :=
  ⟨.plain 11 (.ofString "Resource temporarily unavailable"), passed⟩

/-- An engine with some events before it and a connection with some obstacles ahead. -/
def beginning (arrivals : List Incoming) (obstacles : List (Option Obstacle)) : Engine :=
  { Engine.new with queue := arrivals.map Incoming.event, connection := some ⟨true, obstacles, []⟩ }

theorem begins_beginning {arrivals : List Incoming} (obstacles : List (Option Obstacle))
    (h : ∀ content, .message content ∉ arrivals) : (beginning arrivals obstacles).Begins arrivals obstacles :=
  ⟨rfl, rfl, ⟨true, rfl⟩, fun content hm => absurd hm (h content)⟩

/-- Three requests with a protocol error among them. -/
def threeRequests : List Incoming :=
  [.request (numbered 1), .request (numbered 2), .protocolError (.ofString "no"), .request (numbered 3)]

/-- Obstacles at the first and at the last of three lines; the last line is cut. -/
def lastTorn : List (Option Obstacle) := [some (wouldBlock 0), none, some (wouldBlock 5)]

theorem received_framed_lastTorn : (beginning threeRequests lastTorn).Begins threeRequests lastTorn ∧
    (∀ n, Send.Framed (Incoming.sends lastTorn (threeRequests.take n))
      ((beginning threeRequests lastTorn).runFor n).1.received) ∧
    (beginning threeRequests lastTorn).run.1.received = numberedLine 2 ++ (numberedLine 3).take 5 := by
  have hsends : Incoming.sends lastTorn threeRequests = [⟨numberedLine 1, some (wouldBlock 0)⟩,
      ⟨numberedLine 2, none⟩, ⟨numberedLine 3, some (wouldBlock 5)⟩] := rfl
  have hclean : Send.Clean (Incoming.sends lastTorn threeRequests) := by
    rw [hsends]
    refine .cons ?_ (.cons ?_ (List.pairwise_singleton _ _))
    · rintro later - ⟨-, hpassed⟩
      exact absurd rfl hpassed
    · rintro later - ⟨hobstacle, -⟩
      cases hobstacle
  have hbegins : (beginning threeRequests lastTorn).Begins threeRequests lastTorn :=
    begins_beginning lastTorn fun content hm => by simp [threeRequests] at hm
  refine ⟨hbegins, (received_framed_iff hbegins).mpr hclean, ?_⟩
  decide +kernel

theorem torn_line_continued :
    (beginning [.request (numbered 1), .request (numbered 2)] [some (wouldBlock 5)]).run.1.received =
      (numberedLine 1).take 5 ++ numberedLine 2 ∧
    ¬ Send.Framed (Incoming.sends [some (wouldBlock 5)] [.request (numbered 1), .request (numbered 2)])
      (beginning [.request (numbered 1), .request (numbered 2)] [some (wouldBlock 5)]).run.1.received := by
  have hreceived : (beginning [.request (numbered 1), .request (numbered 2)] [some (wouldBlock 5)]).run.1.received =
      (numberedLine 1).take 5 ++ numberedLine 2 := by
    decide +kernel
  have hsends : Incoming.sends [some (wouldBlock 5)] [.request (numbered 1), .request (numbered 2)] =
      [⟨numberedLine 1, some (wouldBlock 5)⟩, ⟨numberedLine 2, none⟩] := rfl
  refine ⟨hreceived, ?_⟩
  rw [hreceived, hsends]
  have hwhole : Send.wholeLines [⟨numberedLine 1, some (wouldBlock 5)⟩, ⟨numberedLine 2, none⟩] = numberedLine 2 :=
    List.append_nil _
  rintro ⟨unfinished, hbytes, rfl | ⟨s, hs, hobstacle, rfl⟩⟩
  · rw [hwhole] at hbytes
    exact absurd hbytes (by decide +kernel)
  · rw [hwhole] at hbytes
    rcases List.mem_cons.mp hs with rfl | hs
    · exact absurd hbytes (by decide +kernel)
    · obtain rfl := List.mem_singleton.mp hs
      cases hobstacle

end Engine
end ScriptLink
