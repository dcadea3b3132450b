import Mathlib.Data.List.Forall2
import Mathlib.Logic.Function.Basic
import ScriptLink.Proofs.Service

/-! # Sessions under other ids

    The id of a request is drawn anew every time, so two sessions in which the same is done have different ids. All
    that the loop does with ids is to compare them. So if every message of the peer comes with the new id in place of
    the old one, the loop does the same in both sessions: `Service.Renamed.work`. -/

namespace ScriptLink

/-! ### Renamed ids -/

section
variable (ρ : Text → Text)

/-- A request under its new id. -/
def Request.renamed (r : Request) : Request := { r with id := ρ r.id }

/-- The text that stands under an id, if it is one. -/
def Host.Value.renameText : Host.Value → Host.Value
  | .scalar (.text t kind) => .scalar (.text (ρ t) kind)
  | v => v

/-- An entry of a message: only the id in it has a new name. -/
def renameEntry (entry : Host.Value × Host.Value) : Host.Value × Host.Value :=
  if entry.1.likeText? = some (.ofString "event_id") then (entry.1, entry.2.renameText ρ) else entry

/-- A message with the new name in it. -/
def Host.Value.renamed : Host.Value → Host.Value
  | .mapping kind entries => .mapping kind (entries.map (renameEntry ρ))
  | v => v

/-- An entry of the requests that wait. -/
def renameWaiting (entry : Text × Request) : Text × Request := (ρ entry.1, entry.2.renamed ρ)

/-- An event with the new name in it. -/
def Event.renamed : Event → Event
  | .request r => .request (r.renamed ρ)
  | .message content => .message (content.renamed ρ)
  | event => event

/-- What was done, for the request under its new id. -/
def Note.renamed : Note → Note
  | .sent r fault => .sent (r.renamed ρ) fault
  | note => note

/-- The bytes of an id on a line. -/
def idBytes (id : Text) : List UInt8 := Utf8.encode (Json.writeString id)

/-- Lines of requests that are the same up to the id. -/
def LineRenamed (line line' : List UInt8) : Prop :=
  ∃ head id tail, line = head ++ idBytes id ++ tail ∧ line' = head ++ idBytes (ρ id) ++ tail

/-- What was passed on of two lines that are the same up to the id: all of both, or not all of either. -/
def WriteRenamed (bytes bytes' : List UInt8) : Prop :=
  LineRenamed ρ bytes bytes' ∨ ∃ line line', LineRenamed ρ line line' ∧ bytes <+: line ∧ bytes ≠ line ∧
    bytes' <+: line' ∧ bytes' ≠ line'

/-- A connection over which the same lines went up to the ids. -/
structure Connection.Renamed (c c' : Connection) : Prop where
  isOpen : c'.isOpen = c.isOpen
  obstacles : c'.obstacles = c.obstacles
  written : List.Forall₂ (WriteRenamed ρ) c.written c'.written

/-- An engine that has come to the same under other ids. Only what was logged may be different. -/
structure Engine.Renamed (e e' : Engine) : Prop where
  started : e'.started = e.started
  stopping : e'.stopping = e.stopping
  gone : e'.gone = e.gone
  queue : e'.queue = e.queue.map (Event.renamed ρ)
  pending : e'.pending = e.pending.map (renameWaiting ρ)
  completed : e'.completed = e.completed
  listening : e'.listening = e.listening
  connection : Option.Rel (Connection.Renamed ρ) e.connection e'.connection
  process : e'.process = e.process
  calls : e'.calls = e.calls

/-- The same is to be done next, for requests under their new ids. -/
inductive Duty.Renamed : Duty → Duty → Prop
  | take : Renamed .take .take
  | handle (event : Event) : Renamed (.handle event) (.handle (event.renamed ρ))
  | send (r : Request) {line line' : List UInt8} : LineRenamed ρ line line' →
      Renamed (.send r line) (.send (r.renamed ρ) line')
  | fail (requests : List Request) (failure : Failure) (onward : Onward) :
      Renamed (.fail requests failure onward) (.fail (requests.map (Request.renamed ρ)) failure onward)
  | stop : Renamed .stop .stop
  | release : Renamed .release .release
  | drain : Renamed .drain .drain
  | over : Renamed .over .over
  | raised (fault : LoopFault) : Renamed (.raised fault) (.raised fault)

/-- A service that has come to the same under other ids, whoever its callers are. -/
structure Service.Renamed (x y : Service) : Prop where
  engine : x.engine.Renamed ρ y.engine
  stage : y.stage = x.stage
  duty : x.duty.Renamed ρ y.duty
  taken : y.taken = x.taken.map (Event.renamed ρ)
  history : y.history = x.history.map (Note.renamed ρ)

end

variable {ρ : Text → Text}

/-! ### Lines -/

theorem idBytes_ne_nil (id : Text) : idBytes id ≠ [] := by
  have hquote : idBytes id = 0x22 :: Utf8.encode (id.flatMap Json.escapeChar ++ [0x22]) := rfl
  rw [hquote]
  exact List.cons_ne_nil _ _

theorem LineRenamed.ne_nil {line line' : List UInt8} (h : LineRenamed ρ line line') : line ≠ [] ∧ line' ≠ [] := by
  obtain ⟨head, id, tail, rfl, rfl⟩ := h
  simp [idBytes_ne_nil]

/-- A request is written as its three entries, of which only the id can always be written. -/
theorem Request.write_toValue (r : Request) : Json.write r.toValue = do
    let name ← Json.write r.operation
    let text ← Json.write r.payload
    return Json.bracketed 0x7B 0x7D [Json.writeString (.ofString "type") ++ [0x3A, 0x20] ++ name,
      Json.writeString (.ofString "event_id") ++ [0x3A, 0x20] ++ Json.writeString r.id,
      Json.writeString (.ofString "payload") ++ [0x3A, 0x20] ++ text] := by
  have hid : Json.write (.text r.id) = .ok (Json.writeString r.id) := rfl
  have hkey (name : String) : Json.keyText (.text (.ofString name)) = .ok (.ofString name) := rfl
  simp only [toValue, Json.write, Host.MappingKind.isDict, if_true, Json.writeEntries, hkey, hid, bind, Except.bind]
  cases Json.write r.operation with
  | error reason => rfl
  | ok name => cases Json.write r.payload <;> rfl

/-- Whether a request can be written does not depend on its id, and its line shows the id in one place. -/
theorem Request.line_of_id (operation payload : Host.Value) :
    (∃ reason, ∀ serial id, Request.line ⟨serial, id, operation, payload⟩ = .error reason) ∨
    ∃ head tail, ∀ serial id, Request.line ⟨serial, id, operation, payload⟩ = .ok (head ++ idBytes id ++ tail) := by
  have hline (serial : Nat) (id : Text) := Request.write_toValue ⟨serial, id, operation, payload⟩
  rcases hoperation : Json.write operation with reason | name
  · refine .inl ⟨reason, fun serial id => ?_⟩
    rw [Request.line, hline, hoperation]
    rfl
  rcases hpayload : Json.write payload with reason | text
  · refine .inl ⟨reason, fun serial id => ?_⟩
    rw [Request.line, hline, hoperation, hpayload]
    rfl
  · refine .inr ⟨Utf8.encode (0x7B :: Json.writeString (.ofString "type") ++ [0x3A, 0x20] ++ name ++ [0x2C, 0x20] ++
        Json.writeString (.ofString "event_id") ++ [0x3A, 0x20]),
      Utf8.encode ([0x2C, 0x20] ++ Json.writeString (.ofString "payload") ++ [0x3A, 0x20] ++ text ++ [0x7D, 0x0A]),
      fun serial id => ?_⟩
    rw [Request.line, hline, hoperation, hpayload]
    refine congrArg Except.ok ?_
    simp [Json.bracketed, Text.intercalate, List.intercalate, idBytes, Utf8.encode]

theorem Request.line_renamed (ρ : Text → Text) (r : Request) :
    (∃ reason, r.line = .error reason ∧ (r.renamed ρ).line = .error reason) ∨
    ∃ line line', r.line = .ok line ∧ (r.renamed ρ).line = .ok line' ∧ LineRenamed ρ line line' := by
  rcases Request.line_of_id r.operation r.payload with ⟨reason, hline⟩ | ⟨head, tail, hline⟩
  · exact .inl ⟨reason, hline _ _, hline _ _⟩
  · exact .inr ⟨_, _, hline r.serial r.id, hline r.serial (ρ r.id), head, r.id, tail, rfl, rfl⟩

theorem writeRenamed_passed {line line' : List UInt8} (h : LineRenamed ρ line line') (obstacle : Option Obstacle) :
    WriteRenamed ρ (Send.passed ⟨line, obstacle⟩) (Send.passed ⟨line', obstacle⟩) := by
  cases obstacle with
  | none => exact .inl h
  | some obstacle =>
    have cut {bytes : List UInt8} (hne : bytes ≠ []) :
        bytes.take (min obstacle.passed (bytes.length - 1)) <+: bytes ∧
          bytes.take (min obstacle.passed (bytes.length - 1)) ≠ bytes := by
      refine ⟨List.take_prefix _ _, fun he => ?_⟩
      have hlength := congrArg List.length he
      have hpos := List.length_pos_iff.mpr hne
      rw [List.length_take] at hlength
      omega
    obtain ⟨hcut, hless⟩ := cut h.ne_nil.1
    obtain ⟨hcut', hless'⟩ := cut h.ne_nil.2
    exact .inr ⟨line, line', h, hcut, hless, hcut', hless'⟩

theorem Connection.Renamed.write {c c' : Connection} {line line' : List UInt8} (h : c.Renamed ρ c')
    (hline : LineRenamed ρ line line') :
    (c.write line).1.Renamed ρ (c'.write line').1 ∧ (c'.write line').2 = (c.write line).2 := by
  rw [Connection.write_eq, Connection.write_eq, h.obstacles]
  refine ⟨⟨h.isOpen, rfl, ?_⟩, rfl⟩
  exact List.rel_append h.written (.cons (writeRenamed_passed hline c.obstacles.head?.join) .nil)

/-! ### Messages -/

theorem unhashable?_renameText (v : Host.Value) : (v.renameText ρ).unhashable? = v.unhashable? := by
  unfold Host.Value.renameText
  split <;> rfl

theorem likeText?_renameText (v : Host.Value) : (v.renameText ρ).likeText? = v.likeText?.map ρ := by
  unfold Host.Value.renameText
  split
  · rfl
  · rename_i hscalar
    cases v with
    | scalar s =>
      cases s with
      | text t kind => exact absurd rfl (hscalar t kind)
      | _ => rfl
    | _ => rfl

/-- A name takes as many calls to be shown as any other. -/
theorem unshown?_renameText (v : Host.Value) (room : Nat) : (v.renameText ρ).unshown? room = v.unshown? room := by
  unfold Host.Value.renameText
  split
  · rename_i kind
    cases kind <;> rfl
  · rfl

theorem unshown?_renamed (content : Host.Value) (room : Nat) :
    (content.renamed ρ).unshown? room = content.unshown? room := by
  have hentries (room : Nat) (entries : List (Host.Value × Host.Value)) :
      Host.entriesUnshown? room (entries.map (renameEntry ρ)) = Host.entriesUnshown? room entries := by
    induction entries with
    | nil => rfl
    | cons entry rest ih =>
      rw [List.map_cons, Host.entriesUnshown?, Host.entriesUnshown?, ih]
      unfold renameEntry
      split
      · rw [unshown?_renameText]
      · rfl
  cases content with
  | mapping kind entries => simp only [Host.Value.renamed, Host.Value.unshown?, hentries]
  | _ => rfl

theorem lookup?_renameEntry (entries : List (Host.Value × Host.Value)) (name : Text) :
    Host.lookup? (entries.map (renameEntry ρ)) name =
      (Host.lookup? entries name).map (if name = .ofString "event_id" then Host.Value.renameText ρ else id) := by
  have hkey (entry : Host.Value × Host.Value) : (renameEntry ρ entry).1 = entry.1 := by
    unfold renameEntry
    split <;> rfl
  induction entries with
  | nil => rfl
  | cons entry rest ih =>
    rw [Host.lookup?, Host.lookup?] at ih ⊢
    rw [List.map_cons, List.find?_cons, List.find?_cons, hkey]
    by_cases h : entry.1.likeText? = some name
    · by_cases hname : name = .ofString "event_id" <;> simp [renameEntry, h, hname]
    · simp only [h, decide_false]
      exact ih

/-- An answer stays what it is, and is for the request under the new id. -/
theorem ofMessage?_renamed (content : Host.Value) : Answer.ofMessage? (content.renamed ρ) =
    (Answer.ofMessage? content).map fun found => (found.1, found.2.renameText ρ) := by
  cases content with
  | mapping kind entries =>
    have htype : Host.lookup? (entries.map (renameEntry ρ)) (.ofString "type") =
        Host.lookup? entries (.ofString "type") := by
      rw [lookup?_renameEntry, if_neg (by decide), Option.map_id, id]
    have hpayload : Host.lookup? (entries.map (renameEntry ρ)) (.ofString "payload") =
        Host.lookup? entries (.ofString "payload") := by
      rw [lookup?_renameEntry, if_neg (by decide), Option.map_id, id]
    have hid := lookup?_renameEntry (ρ := ρ) entries (.ofString "event_id")
    rw [if_pos rfl] at hid
    simp only [Host.Value.renamed, Answer.ofMessage?, htype, hpayload, hid, Option.bind_eq_bind, Option.map_bind,
      Option.bind_map, Function.comp_def]
    refine Option.bind_congr fun typeValue _ => Option.bind_congr fun type _ => Option.bind_congr fun id _ =>
      Option.bind_congr fun payload _ => ?_
    cases payload with
    | mapping kind entries => rw [Option.map_map, Function.comp_def]
    | _ => rfl
  | _ => rfl

theorem Event.renamed_id : Event.renamed id = id := by
  have hentry : renameEntry id = id := by
    funext entry
    have htext : entry.2.renameText id = entry.2 := by
      unfold Host.Value.renameText
      split
      · rename_i heq
        exact heq.symm
      · rfl
    unfold renameEntry
    split
    · rw [htext]
      rfl
    · rfl
  funext event
  cases event with
  | message content =>
    cases content with
    | mapping kind entries =>
      simp only [Event.renamed, Host.Value.renamed, hentry, List.map_id]
      rfl
    | _ => rfl
  | _ => rfl

/-! ### Ids that wait -/

namespace Engine
variable {e e' : Engine}

theorem find?_renamed (hρ : Function.Injective ρ) (pending : Members Request) (id : Text) :
    Members.find? (pending.map (renameWaiting ρ)) (ρ id) = (pending.find? id).map (Request.renamed ρ) := by
  induction pending with
  | nil => rfl
  | cons entry rest ih =>
    rw [List.map_cons, Members.find?_cons, Members.find?_cons, ih]
    by_cases h : entry.1 = id
    · simp [renameWaiting, h]
    · simp [renameWaiting, h, hρ.ne h]

theorem insert_renamed (hρ : Function.Injective ρ) (pending : Members Request) (r : Request) :
    Members.insert (pending.map (renameWaiting ρ)) (r.renamed ρ).id (r.renamed ρ) =
      (pending.insert r.id r).map (renameWaiting ρ) := by
  induction pending with
  | nil => rfl
  | cons entry rest ih =>
    rw [List.map_cons, Members.insert, Members.insert, ih]
    by_cases h : entry.1 = r.id
    · simp [renameWaiting, Request.renamed, h]
    · simp [renameWaiting, Request.renamed, h, hρ.ne h]

theorem filter_renamed (hρ : Function.Injective ρ) (pending : Members Request) (id : Text) :
    (pending.map (renameWaiting ρ)).filter (fun entry => entry.1 ≠ ρ id) =
      (pending.filter fun entry => entry.1 ≠ id).map (renameWaiting ρ) := by
  rw [List.filter_map]
  refine congrArg _ (List.filter_congr fun entry _ => ?_)
  simp [renameWaiting, hρ.eq_iff]

theorem Renamed.stopped_eq (h : e.Renamed ρ e') : e'.stopped = e.stopped := by
  rw [stopped, stopped, h.stopping, h.gone]

theorem Renamed.forget (hρ : Function.Injective ρ) (h : e.Renamed ρ e') (id : Text) :
    (e.forget id).Renamed ρ (e'.forget (ρ id)) := by
  refine { h with pending := ?_ }
  simp only [Engine.forget, h.pending]
  exact filter_renamed hρ e.pending id

theorem renamed_answer (hρ : Function.Injective ρ) (h : e.Renamed ρ e') (answer : Answer) (id : Host.Value) :
    (e.answer answer id).1.Renamed ρ (e'.answer answer (id.renameText ρ)).1 ∧
      (e'.answer answer (id.renameText ρ)).2 = (e.answer answer id).2 := by
  simp only [Engine.answer, unhashable?_renameText, likeText?_renameText, h.pending]
  cases id.unhashable? with
  | some typeName => exact ⟨h, rfl⟩
  | none =>
    cases id.likeText? with
    | none => exact ⟨h, rfl⟩
    | some t =>
      simp only [Option.map_some, Option.bind_some, find?_renamed hρ]
      cases e.pending.find? t with
      | none => exact ⟨h, rfl⟩
      | some r =>
        cases answer.unshown? with
        | some reason => exact ⟨h.forget hρ t, rfl⟩
        | none => exact ⟨{ h.forget hρ t with
            completed := congrArg (· ++ [_]) h.completed }, rfl⟩

/-- What cannot be shown to the log is the same under other ids. -/
theorem renamed_unexpected (h : e.Renamed ρ e') {event event' : Event} (hshown : event'.unshown? = event.unshown?) :
    (e.unexpected event).1.Renamed ρ (e'.unexpected event').1 ∧
      (e'.unexpected event').2 = (e.unexpected event).2 := by
  simp only [unexpected, hshown]
  split
  · exact ⟨{ h with }, rfl⟩
  · exact ⟨h, rfl⟩

theorem renamed_handle_message (hρ : Function.Injective ρ) (h : e.Renamed ρ e') (content : Host.Value) :
    (e.handle (.message content)).1.Renamed ρ (e'.handle (.message (content.renamed ρ))).1 ∧
      (e'.handle (.message (content.renamed ρ))).2 = (e.handle (.message content)).2 := by
  simp only [handle, ofMessage?_renamed]
  cases Answer.ofMessage? content with
  | none => exact renamed_unexpected h (unshown?_renamed content _)
  | some found => exact renamed_answer hρ h found.1 found.2

theorem renamed_handle_stray (h : e.Renamed ρ e') (value : Host.Value) :
    (e.handle (.stray value)).1.Renamed ρ (e'.handle (.stray value)).1 ∧
      (e'.handle (.stray value)).2 = (e.handle (.stray value)).2 := by
  simp only [handle]
  split
  · exact renamed_unexpected h rfl
  · exact ⟨h, rfl⟩

/-- Both have no connection, or connections that correspond. -/
theorem Renamed.connection_cases (h : e.Renamed ρ e') : e.connection = none ∧ e'.connection = none ∨
    ∃ c c', e.connection = some c ∧ e'.connection = some c' ∧ c.Renamed ρ c' := by
  have hconnection := h.connection
  generalize e.connection = connection, e'.connection = connection' at hconnection
  cases hconnection with
  | none => exact .inl ⟨rfl, rfl⟩
  | some hrenamed => exact .inr ⟨_, _, rfl, rfl, hrenamed⟩

theorem renamed_write (h : e.Renamed ρ e') {line line' : List UInt8} (hline : LineRenamed ρ line line') :
    (e.write line).1.Renamed ρ (e'.write line').1 ∧ (e'.write line').2 = (e.write line).2 := by
  rcases h.connection_cases with ⟨hc, hc'⟩ | ⟨c, c', hc, hc', hrenamed⟩ <;> simp only [write, hc, hc']
  · exact ⟨h, trivial⟩
  · obtain ⟨hwritten, hfault⟩ := hrenamed.write hline
    exact ⟨{ h with connection := .some hwritten }, hfault⟩

end Engine

/-! ### The loop -/

theorem Event.request?_renamed (event : Event) : (event.renamed ρ).request? = event.request?.map (Request.renamed ρ) := by
  cases event <;> rfl

theorem Duty.Renamed.requests {duty duty' : Duty} (h : duty.Renamed ρ duty') :
    duty'.requests = duty.requests.map (Request.renamed ρ) := by
  cases h with
  | handle event => cases event <;> rfl
  | _ => rfl

namespace Service
variable {x y : Service}

theorem Renamed.goOn (h : x.Renamed ρ y) {e e' : Engine} (he : e.Renamed ρ e') {duty duty' : Duty}
    (hduty : duty.Renamed ρ duty') {history history' : List Note} (hhistory : history' = history.map (Note.renamed ρ)) :
    Service.Renamed ρ { x with engine := e, duty := duty, history := history }
      { y with engine := e', duty := duty', history := history' } :=
  { h with engine := he, duty := hduty, history := hhistory }

theorem Renamed.conclude (h : x.Renamed ρ y) (r : Request) (outcome : Outcome) :
    (x.conclude r outcome).Renamed ρ (y.conclude (r.renamed ρ) outcome) where
  engine := { h.engine with completed := congrArg (· ++ [_]) h.engine.completed }
  stage := h.stage
  duty := h.duty
  taken := h.taken
  history := by
    simp only [Service.conclude, h.history, h.engine.stopped_eq, List.map_append]
    rfl

theorem Renamed.waiting (h : x.Renamed ρ y) : y.waiting = x.waiting.map (Request.renamed ρ) := by
  rw [Service.waiting, Service.waiting, h.engine.pending, List.map_map, List.map_map]
  rfl

theorem Renamed.clear (h : x.Renamed ρ y) (failure : Failure) (onward : Onward) :
    (x.clear failure onward).Renamed ρ (y.clear failure onward) := by
  simp only [Service.clear, h.waiting]
  exact { h with engine := { h.engine with pending := rfl }, duty := .fail _ _ _ }

theorem requests_filterMap (events : List Event) : (events.map (Event.renamed ρ)).filterMap Event.request? =
    (events.filterMap Event.request?).map (Request.renamed ρ) := by
  rw [List.filterMap_map, List.map_filterMap]
  exact List.filterMap_congr fun event _ => event.request?_renamed

theorem Renamed.asked (h : x.Renamed ρ y) : y.asked = x.asked.map (Request.renamed ρ) := by
  rw [Service.asked, Service.asked, heard, heard, h.taken, h.engine.queue, ← List.map_append]
  exact requests_filterMap _

theorem Renamed.unfinished (h : x.Renamed ρ y) : y.unfinished = x.unfinished.map (Request.renamed ρ) := by
  have hqueued : y.engine.queued = x.engine.queued.map (Request.renamed ρ) := by
    rw [Engine.queued, h.engine.queue]
    exact requests_filterMap _
  rw [Service.unfinished, Service.unfinished, h.waiting, h.duty.requests, hqueued, List.map_append, List.map_append]

theorem Renamed.heeded (h : x.Renamed ρ y) {e e' : Engine} {verdict verdict' : Verdict} (he : e.Renamed ρ e')
    (hverdict : verdict' = verdict) : Service.Renamed ρ
      { x with
        engine := e
        duty := verdict.duty
        history := x.history ++ (e.completed.drop x.engine.completed.length).map fun completion =>
          .ended completion x.engine.stopped }
      { y with
        engine := e'
        duty := verdict'.duty
        history := y.history ++ (e'.completed.drop y.engine.completed.length).map fun completion =>
          .ended completion y.engine.stopped } := by
  subst hverdict
  refine h.goOn he (by cases verdict' <;> constructor) ?_
  rw [h.history, he.completed, h.engine.completed, h.engine.stopped_eq, List.map_append, List.map_map]
  rfl

theorem Renamed.handle (hρ : Function.Injective ρ) (h : x.Renamed ρ y) (event : Event) :
    (x.handle event).Renamed ρ (y.handle (event.renamed ρ)) := by
  cases event with
  | finish => exact h.clear _ _
  | closed reason =>
    refine Renamed.clear ?_ _ _
    exact { h with engine := { h.engine with gone := rfl } }
  | protocolError words =>
    refine Renamed.clear ?_ _ _
    exact { h with engine := { h.engine with } }
  | request r =>
    have hgone := h.engine.gone
    rcases hx : x.engine.gone with _ | reason <;> rw [hx] at hgone <;>
      simp only [Service.handle, Event.renamed, hx, hgone]
    · have hpending : y.engine.pending.insert (r.renamed ρ).id (r.renamed ρ) =
          (x.engine.pending.insert r.id r).map (renameWaiting ρ) := by
        rw [h.engine.pending]
        exact Engine.insert_renamed hρ x.engine.pending r
      have hengine : Engine.Renamed ρ
          { x.engine with gone := none, pending := x.engine.pending.insert r.id r }
          { y.engine with gone := none, pending := y.engine.pending.insert (r.renamed ρ).id (r.renamed ρ) } :=
        { h.engine with gone := rfl, pending := hpending }
      rcases r.line_renamed ρ with ⟨reason, hline, hline'⟩ | ⟨line, line', hline, hline', hsame⟩ <;>
        rw [hline, hline']
      · exact h.goOn hengine (.raised _) h.history
      · exact h.goOn hengine (.send r hsame) h.history
    · exact { h.conclude r _ with duty := .take }
  | message content =>
    obtain ⟨hengine, hverdict⟩ := Engine.renamed_handle_message hρ h.engine content
    exact h.heeded hengine hverdict
  | stray value =>
    obtain ⟨hengine, hverdict⟩ := Engine.renamed_handle_stray h.engine value
    exact h.heeded hengine hverdict

theorem Renamed.drainNext (h : x.Renamed ρ y) : x.drainNext.Renamed ρ y.drainNext := by
  simp only [Service.drainNext, h.engine.queue]
  rcases x.engine.queue with _ | ⟨event, rest⟩
  · exact { h with duty := .over }
  · have htaken : y.taken ++ [event.renamed ρ] = (x.taken ++ [event]).map (Event.renamed ρ) := by
      rw [h.taken, List.map_append]
      rfl
    have hnext : Service.Renamed ρ { x with engine := { x.engine with queue := rest }, taken := x.taken ++ [event] }
        { y with
          engine := { y.engine with queue := rest.map (Event.renamed ρ) }, taken := y.taken ++ [event.renamed ρ] } :=
      { h with engine := { h.engine with queue := rfl }, taken := htaken }
    cases event with
    | request r => exact hnext.conclude r _
    | _ => exact hnext

theorem renamed_move {e e' : Engine} (h : e.Renamed ρ e') (stage : StopStage) :
    (stage.move e).1.Renamed ρ (stage.move e').1 ∧ (stage.move e').2 = (stage.move e).2 := by
  cases stage with
  | before | done => exact ⟨h, rfl⟩
  | none => exact ⟨{ h with stopping := rfl }, rfl⟩
  | flagged =>
    refine ⟨{ h with queue := ?_ }, rfl⟩
    simp only [StopStage.move, Engine.enqueue, h.queue, List.map_append]
    rfl
  | told =>
    rw [StopStage.move, StopStage.move, Engine.closeConnection_eq, Engine.closeConnection_eq]
    rcases h.connection_cases with ⟨hc, hc'⟩ | ⟨c, c', hc, hc', hrenamed⟩ <;> rw [hc, hc']
    · exact ⟨{ h with listening := rfl, connection := .none, calls := congrArg (· ++ _) h.calls }, rfl⟩
    · have hclosed : Connection.Renamed ρ { c with isOpen := false } { c' with isOpen := false } :=
        { hrenamed with isOpen := rfl }
      exact ⟨{ h with listening := rfl, connection := .some hclosed, calls := congrArg (· ++ _) h.calls }, rfl⟩
  | closed =>
    obtain ⟨log, hended⟩ := e.endProcess_eq
    obtain ⟨log', hended'⟩ := e'.endProcess_eq
    rw [StopStage.move, StopStage.move, hended, hended', h.process, h.calls]
    exact ⟨{ h with process := rfl, calls := rfl }, rfl⟩

theorem Renamed.stopNext (h : x.Renamed ρ y) : x.stopNext.Renamed ρ y.stopNext := by
  obtain ⟨hengine, hstage⟩ := renamed_move h.engine x.stage
  simp only [Service.stopNext, h.stage]
  exact { h with engine := hengine, stage := hstage }

theorem Renamed.sent (hρ : Function.Injective ρ) (h : x.Renamed ρ y) {r : Request} {line line' : List UInt8}
    (hx : x.duty = .send r line) (hy : y.duty = .send (r.renamed ρ) line') (hline : LineRenamed ρ line line') :
    x.work.Renamed ρ y.work := by
  obtain ⟨hengine, hfault⟩ := Engine.renamed_write h.engine hline
  have hhistory (fault : Option SystemFault) : y.history ++ [Note.sent (r.renamed ρ) fault] =
      (x.history ++ [Note.sent r fault]).map (Note.renamed ρ) := by
    rw [h.history, List.map_append]
    rfl
  simp only [Service.work, hx, hy]
  rcases hwrite : x.engine.write line with ⟨e, fault⟩
  rcases hwrite' : y.engine.write line' with ⟨e', fault'⟩
  rw [hwrite, hwrite'] at hengine hfault
  obtain rfl : fault' = fault := hfault
  cases fault' with
  | none => exact h.goOn hengine .take (hhistory none)
  | some fault =>
    have hforget : (e.forget r.id).Renamed ρ (e'.forget (ρ r.id)) := hengine.forget hρ r.id
    exact { (h.goOn hforget h.duty (hhistory (some fault))).conclude r _ with duty := .take }

/-- The loop does the same. -/
theorem Renamed.work (hρ : Function.Injective ρ) (h : x.Renamed ρ y) : x.work.Renamed ρ y.work := by
  -- Both loops are about the same thing up to the ids, so the cases are those of one of them.
  have hduty := h.duty
  generalize hx : x.duty = duty at hduty
  generalize hy : y.duty = duty' at hduty
  cases hduty with
  | take =>
    simp only [Service.work, hx, hy, h.engine.queue]
    rcases x.engine.queue with _ | ⟨event, rest⟩
    · exact h
    · refine { h with engine := { h.engine with queue := rfl }, taken := ?_, duty := .handle event }
      rw [h.taken, List.map_append]
      rfl
  | handle event =>
    simp only [Service.work, hx, hy]
    exact h.handle hρ event
  | send r hline => exact h.sent hρ hx hy hline
  | fail requests failure onward =>
    simp only [Service.work, hx, hy]
    cases requests with
    | nil => exact { h with duty := by cases onward <;> constructor }
    | cons r requests => exact { h.conclude r _ with duty := .fail requests failure onward }
  | stop =>
    simp only [Service.work, hx, hy, h.engine.stopping]
    split
    · exact { h with duty := .take }
    · exact { h with engine := { h.engine with stopping := rfl }, stage := rfl, duty := .release }
  | release =>
    simp only [Service.work, hx, hy, h.stage]
    split
    · exact { h with stage := rfl, duty := .take }
    · exact { h with stage := rfl, duty := .take }
    · exact h.stopNext
  | drain =>
    simp only [Service.work, hx, hy]
    exact h.drainNext
  | _ =>
    simp only [Service.work, hx, hy]
    exact h

end Service

end ScriptLink
