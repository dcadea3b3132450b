import ScriptLink.Proofs.CompactText
import ScriptLink.Proofs.Entries
import ScriptLink.Proofs.Hearing
import ScriptLink.Proofs.Reporting

/-! # Requests that are answered

    A request may be of no known type, its value may not be found, and its conversion may throw half-way. Main
    statement: in each case the answer is one line, and that line ends the request that waits under its id, with what
    the request came to. -/

namespace ScriptLink
namespace Script

/-! ### What is to be answered -/

/-- The name of a type of requests. -/
def RequestType.name : RequestType → Units
  | .eval => .ofString "eval"
  | .getProp => .ofString "get_prop"
  | .callProp => .ofString "call_prop"

theorem RequestType.ofName?_name (t : RequestType) : ofName? t.name = some t := by
  cases t <;> decide

theorem RequestType.eq_name_of_ofName? {type : Units} {t : RequestType} (h : ofName? type = some t) : type = t.name := by
  unfold ofName? at h
  split_ifs at h with heval hget hcall
  all_goals
    obtain rfl := Option.some.inj h
    assumption

/-- The value that a request of a type comes to, before it is converted. -/
def RequestType.value (scripts : Scripts) (payload : Json) : RequestType → Run Value
  | .eval => do
    let code ← field payload "code" "code"
    let filename ← field payload "code" "filename"
    let code ← textOf scripts callDepth (← fieldValue code)
    scripts.evaluate code.toText (← sourceName filename)
  | .getProp => do
    let name ← nameText scripts payload
    if ← Run.look (Realm.has · Intrinsic.global.ref (.name name)) then
      Run.look (Realm.get · Intrinsic.global.ref (.name name))
    else Run.raise .referenceError (Text.ofString "no such prop: " ++ name.toText)
  | .callProp => do
    let name ← nameText scripts payload
    let arguments ← field payload "name" "args"
    let f ← Run.look (Realm.get · Intrinsic.global.ref (.name name))
    let refuse : Run Value := Run.raise .typeError (name.toText ++ .ofString " is not a function")
    match f with
    | .object ref =>
      if (← get).callable ref then
        let method ← Run.look (Realm.get · ref (.ofString "apply"))
        applyGlobally scripts ref method (← argumentValues scripts arguments)
      else refuse
    | _ => refuse

/-- Whether the value of a request is converted. -/
def RequestType.converts (payload : Json) : RequestType → Bool
  | .eval => fieldTruth (payload.at? "convert")
  | _ => true

theorem field_eq {payload : Json} (h : payload ≠ .null) (first name : String) :
    field payload first name = pure (payload.at? name) := by
  cases payload with
  | null => exact absurd rfl h
  | _ => rfl

/-- A request is handled by finding its value and converting that. -/
theorem RequestType.run_eq (scripts : Scripts) (payload : Json) (t : RequestType) :
    t.run scripts payload = t.value scripts payload >>= fun v =>
      if t.converts payload then Run.look (encode · v) else pure .null := by
  -- Both sides go through the same actions; what is left are the ways out by an error.
  cases t with
  | eval =>
    by_cases hnull : payload = .null
    · subst hnull
      rfl
    · simp only [RequestType.run, RequestType.value, RequestType.converts, evaluateSource, field_eq hnull, pure_bind,
        bind_assoc]
      rfl
  | getProp =>
    simp only [RequestType.run, RequestType.value, RequestType.converts, readGlobal, bind_assoc, if_true]
    congr 1
    funext name
    congr 1
    funext found
    cases found with
    | false => rfl
    | true => rfl
  | callProp =>
    simp only [RequestType.run, RequestType.value, RequestType.converts, callGlobal, bind_assoc, if_true]
    congr 1
    funext name
    congr 1
    funext arguments
    congr 1
    funext f
    cases f with
    | object ref =>
      simp only [bind_assoc]
      congr 1
      funext r
      by_cases hcallable : r.callable ref = true
      · simp only [hcallable, if_true, bind_assoc]
      · simp only [hcallable]
        rfl
    | _ => rfl

end Script

/-- What the caller gets for a node: its form, which is read as the value of the node. -/
structure Wire.Node.Tagged (node : Wire.Node) (value : Host.Value) : Prop where
  read : ∃ j, Json.read? Json.nestingLimit (Json.compact node.toJson) = some j ∧ value = .ofJson j
  decoded : Wire.decode value = .ok node.received

namespace Script

/-- The outcome that a request calls for. -/
inductive Answers (scripts : Scripts) (payload : Json) (r : Realm) : Units → Outcome → Prop
  | unknown {type : Units} (h : ∀ t : RequestType, type ≠ t.name) :
      Answers scripts payload r type (.error (.engine (Text.ofString "unknown type: " ++ type.toText)))
  | unconverted {t : RequestType} {v : Value} {r' : Realm} {value : Host.Value}
      (hvalue : (t.value scripts payload).Gives r v r') (hconverts : t.converts payload = false)
      (h : Wire.Node.null.Tagged value) : Answers scripts payload r t.name (.ok value)
  | converted {t : RequestType} {v : Value} {r' : Realm} {node : Wire.Node} {value : Host.Value}
      (hvalue : (t.value scripts payload).Gives r v r') (hconverts : t.converts payload = true)
      (hnode : encode r' v = .ok node) (h : node.Tagged value) : Answers scripts payload r t.name (.ok value)
  | unconvertible {t : RequestType} {v : Value} {r' : Realm} {thrown : Thrown} {error : ScriptError}
      (hvalue : (t.value scripts payload).Gives r v r') (hconverts : t.converts payload = true)
      (hthrown : encode r' v = .error thrown) (h : Describes scripts r' thrown error) :
      Answers scripts payload r t.name (.error (.script error))
  | thrown {t : RequestType} {thrown : Thrown} {r' : Realm} {error : ScriptError}
      (hthrown : (t.value scripts payload).run r = (.error thrown, r')) (h : Describes scripts r' thrown error) :
      Answers scripts payload r t.name (.error (.script error))

theorem Answers.eq_of_unknown {scripts : Scripts} {payload : Json} {r : Realm} {type : Units} {outcome : Outcome}
    (h : Answers scripts payload r type outcome) (hname : ∀ t : RequestType, type ≠ t.name) :
    outcome = .error (.engine (Text.ofString "unknown type: " ++ type.toText)) := by
  cases h with
  | unknown => rfl
  | unconverted => exact absurd rfl (hname _)
  | converted => exact absurd rfl (hname _)
  | unconvertible => exact absurd rfl (hname _)
  | thrown => exact absurd rfl (hname _)

variable {r : Realm} {path : List Ref} {room : Nat} {v : Value} {node : Wire.Node}

theorem within_of_below (h : encodeWithin r room path v = .ok node)
    (ih : ∀ below, room = below + 1 → ∀ ref v node, encodeWithin r below (ref :: path) v = .ok node →
      node.Within below) : node.Within room := by
  by_cases hv : ∃ ref, v = .object ref
  · obtain ⟨ref, rfl⟩ := hv
    rcases cases_of_encodeWithin h with ⟨rfl, -⟩ | ⟨below, elements, nodes, rfl, -, -, hall, rfl⟩ |
      ⟨below, members, named, rfl, -, -, hall, rfl⟩
    · cases room <;> trivial
    · exact Wire.itemsWithin_iff.mpr (Wire.forall_of_forall₂ hall fun v node hn => ih below rfl ref v node hn)
    · refine Wire.membersWithin_iff.mpr fun member hm => ?_
      obtain ⟨other, ho, rfl⟩ := List.mem_map.mp hm
      exact Wire.forall_of_forall₂ hall (fun _ other hn => ih below rfl ref _ _ hn.2) other (List.mem_of_mem_filter ho)
  · obtain ⟨converted, hconverted, hwithin, -⟩ : ∃ node, encodeWithin r room path v = .ok node ∧
      Unfolded r room path v node := encodeWithin_primitive fun ref hobject => hv ⟨ref, hobject⟩
    obtain rfl := Except.ok.inj (hconverted.symm.trans h)
    exact hwithin

/-- A conversion makes no more containers inside each other than there is room for. -/
theorem within_of_encodeWithin (h : encodeWithin r room path v = .ok node) : node.Within room := by
  induction room generalizing path v node with
  | zero => exact within_of_below h fun below he => by cases he
  | succ room ih =>
    refine within_of_below h fun below he ref v node h => ?_
    obtain rfl := Nat.succ.inj he
    exact ih h

/-! ### The reply -/

/-- The outcome that a reply brings. -/
def Reply.outcome : Reply → Outcome
  | .result node => .ok (.ofJson (Json.retold Layout.script.rereads node.toJson))
  | .error report => .error (.script (.ofReport (.ofJson report.toJson)))
  | .refusal type => .error (.engine (Text.ofString "unknown type: " ++ type.toText))

/-- A reply that is not nested too deep to be read. -/
def Reply.IsReadable : Reply → Prop
  | .result node => node.Within Wire.maxDepth
  | _ => True

theorem tagged_retold (h : node.Within Wire.maxDepth) :
    node.Tagged (.ofJson (Json.retold Layout.script.rereads node.toJson)) :=
  have hfits : Json.Fits Json.nestingLimit node.toJson := Json.Fits.mono _ (by decide) (Wire.fits_toJson node h)
  ⟨⟨_, (Json.spells_compact _ hfits).read?, rfl⟩, Wire.decode_received node⟩

/-- The reply to a request that is handled, by what handling it comes to. -/
theorem replyTo_name (scripts : Scripts) (t : RequestType) (payload : Json) (r : Realm) :
    (∃ node r', (t.run scripts payload).run r = (.ok node, r') ∧
      replyTo scripts t.name payload r = (.result node, r')) ∨
    ∃ thrown r', (t.run scripts payload).run r = (.error thrown, r') ∧ ∃ report r'',
      replyTo scripts t.name payload r = (.error report, r'') ∧
        Describes scripts r' thrown (.ofReport (.ofJson report.toJson)) := by
  rcases hrun : (t.run scripts payload).run r with ⟨thrown | node, r'⟩
  · obtain ⟨report, r'', hreport, hdescribes⟩ := ofReport_describes scripts r' thrown
    refine .inr ⟨thrown, r', rfl, report, r'', ?_, hdescribes⟩
    simp only [replyTo, t.ofName?_name, hrun, show (Script.report scripts thrown).run r' = _ from hreport]
  · refine .inl ⟨node, r', rfl, ?_⟩
    simp only [replyTo, t.ofName?_name, hrun]

theorem replyTo_answers (scripts : Scripts) (type : Units) (payload : Json) (r : Realm) :
    (replyTo scripts type payload r).1.IsReadable ∧
      Answers scripts payload r type (replyTo scripts type payload r).1.outcome := by
  rcases htype : RequestType.ofName? type with _ | t
  · have hreply : replyTo scripts type payload r = (.refusal type, r) := by simp only [replyTo, htype]
    rw [hreply]
    refine ⟨trivial, .unknown fun t ht => ?_⟩
    rw [ht, t.ofName?_name] at htype
    cases htype
  obtain rfl := RequestType.eq_name_of_ofName? htype
  have hrun := Run.run_bind (t.value scripts payload)
    (fun v => if t.converts payload then Run.look (encode · v) else pure .null) r
  rw [← t.run_eq] at hrun
  -- Either nothing is found, or what is found is not to be converted, or its conversion throws or goes well.
  rcases hvalue : (t.value scripts payload).run r with ⟨thrown | v, r₁⟩
  · simp only [hvalue] at hrun
    rcases replyTo_name scripts t payload r with ⟨node, r', hok, -⟩ | ⟨other, r', herror, report, r'', hreply, hdescribes⟩
    · cases hrun.symm.trans hok
    · cases hrun.symm.trans herror
      rw [hreply]
      exact ⟨trivial, .thrown hvalue hdescribes⟩
  rcases hconverts : t.converts payload with _ | _
  · simp only [hvalue, hconverts, Bool.false_eq_true, if_false] at hrun
    rcases replyTo_name scripts t payload r with ⟨node, r', hok, hreply⟩ | ⟨other, r', herror, -⟩
    · cases hrun.symm.trans hok
      rw [hreply]
      exact ⟨trivial, .unconverted hvalue hconverts (tagged_retold trivial)⟩
    · cases hrun.symm.trans herror
  · simp only [hvalue, hconverts, if_true] at hrun
    rcases hencode : encode r₁ v with thrown | node
    · have hlook : (Run.look (encode · v)).run r₁ = (.error thrown, r₁) := Run.run_look_of_error hencode
      rw [hlook] at hrun
      rcases replyTo_name scripts t payload r with ⟨node, r', hok, -⟩ | ⟨other, r', herror, report, r'', hreply, hdescribes⟩
      · cases hrun.symm.trans hok
      · cases hrun.symm.trans herror
        rw [hreply]
        exact ⟨trivial, .unconvertible hvalue hconverts hencode hdescribes⟩
    · have hlook : (Run.look (encode · v)).run r₁ = (.ok node, r₁) := Run.gives_look hencode
      rw [hlook] at hrun
      have hwithin := within_of_encodeWithin hencode
      rcases replyTo_name scripts t payload r with ⟨other, r', hok, hreply⟩ | ⟨other, r', herror, -⟩
      · cases hrun.symm.trans hok
        rw [hreply]
        exact ⟨hwithin, .converted hvalue hconverts hencode (tagged_retold hwithin)⟩
      · cases hrun.symm.trans herror

/-! ### The line -/

theorem at?_answer (type label : String) (part : Json) (id : Text) :
    (answer type label part id).at? "type" = some (.text (.ofString type)) ∧
      (answer type label part id).at? "payload" = some (jsonRecord [(label, part)]) ∧
      (answer type label part id).at? "event_id" = some (.text id) := by
  have hpart {name : String} {j : Json} (hm : (name, j) ∈ [("type", Json.text (.ofString type)),
      ("payload", jsonRecord [(label, part)]), ("event_id", .text id)]) :
      (answer type label part id).at? name = some j :=
    find?_record ["type", "payload", "event_id"] rfl (by decide) hm
  exact ⟨hpart List.mem_cons_self, hpart (List.mem_cons_of_mem _ List.mem_cons_self),
    hpart (List.mem_cons_of_mem _ (List.mem_cons_of_mem _ List.mem_cons_self))⟩

theorem reply?_answer (type label : String) (part : Json) (id : Text) : (answer type label part id).reply? =
    (Json.outcomeOfType? (.ofString type) (jsonRecord [(label, part)])).map fun outcome => (id, outcome) := by
  obtain ⟨htype, hpayload, hid⟩ := at?_answer type label part id
  simp only [Json.reply?, htype, hpayload, hid, Json.text?, Option.bind_eq_bind, Option.bind_some]
  cases Json.outcomeOfType? (.ofString type) (jsonRecord [(label, part)]) <;> rfl

theorem at?_single (label : String) (part : Json) : (jsonRecord [(label, part)]).at? label = some part :=
  find?_record [label] rfl (List.nodup_singleton _) List.mem_cons_self

/-- What the caller reads on the line of a reply. -/
theorem contentOn?_answer {type label : String} {part : Json} (htype : (Text.ofString type).join = .ofString type)
    (hlabel : (Text.ofString label).join = .ofString label) {room : Nat} (hroom : room + 2 ≤ Json.nestingLimit)
    (h : Json.Fits room part) (id : Units) :
    contentOn? (Utf8.encode (Json.compact (answer type label part id.toText))) =
      some (answer type label (Json.retold Layout.script.rereads part) id.toText) := by
  have hfits : Json.Fits Json.nestingLimit (answer type label part id.toText) := Json.Fits.mono _ hroom (fits_answer h _)
  have hretold := retold_answer htype hlabel Layout.script.rereads part id.toText
  rw [Text.join_toText] at hretold
  exact (Json.contentOn?_compact hfits).trans (congrArg some hretold)

/-- The line of a reply says what the reply is to say, to the request with this id. -/
theorem Reply.content (reply : Reply) (h : reply.IsReadable) (id : Units) : ∃ content,
    contentOn? (Utf8.encode (Json.compact (reply.toJson (some (.text id.toText))))) = some content ∧
      content.at? "event_id" = some (.text id.toText) ∧ content.reply? = some (id.toText, reply.outcome) := by
  cases reply with
  | result node =>
    refine ⟨_, contentOn?_answer (by decide) (by decide) (by decide) (Wire.fits_toJson node h) id,
      (at?_answer _ _ _ _).2.2, ?_⟩
    rw [reply?_answer, Json.outcomeOfType?, if_pos rfl, at?_single]
    rfl
  | error report =>
    have hfits : Json.Fits 1 report.toJson := ⟨trivial, trivial, trivial, trivial⟩
    refine ⟨_, contentOn?_answer (by decide) (by decide) (by decide) hfits id, (at?_answer _ _ _ _).2.2, ?_⟩
    rw [reply?_answer, retold_report, Json.outcomeOfType?, if_neg (by decide), if_pos rfl, at?_single]
    rfl
  | refusal type =>
    have hfits : Json.Fits 0 (.text (Text.ofString "unknown type: " ++ type.toText)) := trivial
    refine ⟨_, contentOn?_answer (by decide) (by decide) (by decide) hfits id, (at?_answer _ _ _ _).2.2, ?_⟩
    have hjoin : (Text.ofString "unknown type: " ++ type.toText).join = Text.ofString "unknown type: " ++ type.toText := by
      rw [Text.IsGraphic.join_append (by decide), Text.join_toText]
    rw [reply?_answer, Json.retold, hjoin, Json.outcomeOfType?, if_neg (by decide), if_neg (by decide), if_pos rfl,
      at?_single]
    rfl

/-- A message that names its type and its id is answered. -/
theorem handle_eq {message payload : Json} {type id : Units} (htype : message.at? "type" = some (.text type.toText))
    (hid : message.at? "event_id" = some (.text id.toText)) (hpayload : message.at? "payload" = some payload)
    (scripts : Scripts) (r : Realm) : handle scripts message r =
      (some ((replyTo scripts type payload r).1.toJson (some (.text id.toText))), (replyTo scripts type payload r).2) := by
  obtain ⟨members, rfl⟩ : ∃ members, message = .object members := by
    cases message with
    | object members => exact ⟨members, rfl⟩
    | _ => cases htype
  have htext : (do textOf scripts callDepth (← fieldValue (some (.text type.toText))) : Run Units).run r =
      (.ok type, r) := by
    change (Except.ok type.toText.toUnits, r) = _
    rw [Text.toUnits_toText]
  simp only [Json.at?] at htype hid hpayload
  simp only [handle, htype, hid, hpayload, Option.getD_some]
  rw [htext]

end Script

namespace Engine

/-- The line of an answer, and nothing else, taken from the queue while its request waits. -/
theorem run_answer {e : Engine} {line : List UInt8} {content : Json} {id : Text} {outcome : Outcome} {request : Request}
    (hcontent : contentOn? line = some content) (hreply : content.reply? = some (id, outcome))
    (hpending : e.pending.find? id = some request) : ∃ log,
      run { e with queue := [.message (.ofJson content)] } = ({ e with
        queue := []
        pending := e.pending.filter fun entry => entry.1 ≠ id
        completed := e.completed ++ [⟨request.serial, outcome⟩]
        log := log }, .waiting) := by
  have hon : replyOn? line = some (id, outcome) := by rw [replyOn?, hcontent, Option.bind_some, hreply]
  have hevents : [line].filterMap Event.ofLine? = [.message (.ofJson content)] := by
    rw [List.filterMap_cons, Event.ofLine?_of_contentOn? hcontent]
    rfl
  set waiting : Engine := { e with queue := [.message (.ofJson content)] }
  have hqueue : waiting.queue = [line].filterMap Event.ofLine? := hevents.symm
  have hsteps : ([line].filterMap Event.ofLine?).length ≤ waiting.stepsLeft := by
    rw [stepsLeft, hqueue]
    exact Nat.le_add_right _ _
  have hledger : [line].foldl Ledger.hear waiting.ledger =
      ⟨e.pending.filter fun entry => entry.1 ≠ id, e.completed ++ [⟨request.serial, outcome⟩]⟩ := by
    rw [List.foldl_cons, List.foldl_nil, Ledger.hear, hon, ledger]
    simp only [Ledger.settle, waiting, hpending]
  obtain ⟨log, hrun⟩ := runFor_lines (List.forall_mem_singleton.mpr (isPlain_of_replyOn? hon)) hqueue hsteps
  rw [hledger] at hrun
  exact ⟨log, hrun⟩

end Engine

namespace Script

/-- A request is answered by one line that echoes its id and ends, of all requests that wait, the one with this id,
    with the outcome that it calls for. -/
theorem request_is_answered {message payload : Json} {type id : Units}
    (htype : message.at? "type" = some (.text type.toText))
    (hid : message.at? "event_id" = some (.text id.toText)) (hpayload : message.at? "payload" = some payload)
    (scripts : Scripts) (r : Realm) : ∃ reply r' line content outcome,
      handle scripts message r = (some reply, r') ∧ replyLine reply = line ++ [0x0A] ∧ (0x0A : UInt8) ∉ line ∧
      Event.ofLine? line = some (.message (.ofJson content)) ∧ content.at? "event_id" = some (.text id.toText) ∧
      Answers scripts payload r type outcome ∧
      ∀ (e : Engine) (request : Request), e.pending.find? id.toText = some request → ∃ log,
        Engine.run { e with queue := [.message (.ofJson content)] } = ({ e with
          queue := []
          pending := e.pending.filter fun entry => entry.1 ≠ id.toText
          completed := e.completed ++ [⟨request.serial, outcome⟩]
          log := log }, .waiting) := by
  obtain ⟨hreadable, hanswers⟩ := replyTo_answers scripts type payload r
  obtain ⟨content, hcontent, hecho, hreply⟩ := (replyTo scripts type payload r).1.content hreadable id
  refine ⟨_, _, _, content, _, handle_eq htype hid hpayload scripts r, ?_, (Json.isLegible_compact _).newline_notMem,
    Event.ofLine?_of_contentOn? hcontent, hecho, hanswers, fun e request hpending =>
    Engine.run_answer hcontent hreply hpending⟩
  rw [replyLine, Utf8.encode, List.flatMap_append]
  rfl

/-- A type that every object has a property for. -/
def inheritedType : Units := .ofString "toString"

/-- An id. -/
def firstId : Units := .ofString "7"

/-- A message under it whose type is the name of a property that every object has. -/
def inheritedMessage : Json :=
  jsonRecord [("type", .text inheritedType.toText), ("event_id", .text firstId.toText), ("payload", jsonRecord [])]

/-- An engine that waits for answers under this id and under another one. -/
def expecting : Engine := { Engine.new with
  pending := [(firstId.toText, ⟨3, firstId.toText, .none, .none⟩), (.ofString "8", ⟨4, .ofString "8", .none, .none⟩)] }

theorem inheritedMessage_is_answered : inheritedMessage.at? "type" = some (.text inheritedType.toText) ∧
    inheritedMessage.at? "event_id" = some (.text firstId.toText) ∧
    inheritedMessage.at? "payload" = some (jsonRecord []) ∧ ∃ reply r' line content,
      handle samples inheritedMessage echoing = (some reply, r') ∧ replyLine reply = line ++ [0x0A] ∧
      Event.ofLine? line = some (.message (.ofJson content)) ∧
      (Engine.run { expecting with queue := [.message (.ofJson content)] }).1.completed =
        [⟨3, .error (.engine (Text.ofString "unknown type: " ++ inheritedType.toText))⟩] := by
  have hpart {name : String} {j : Json} (hm : (name, j) ∈ [("type", Json.text inheritedType.toText),
      ("event_id", .text firstId.toText), ("payload", jsonRecord [])]) : inheritedMessage.at? name = some j :=
    find?_record ["type", "event_id", "payload"] rfl (by decide) hm
  have htype := hpart List.mem_cons_self
  have hid := hpart (List.mem_cons_of_mem _ List.mem_cons_self)
  have hpayload := hpart (List.mem_cons_of_mem _ (List.mem_cons_of_mem _ List.mem_cons_self))
  refine ⟨htype, hid, hpayload, ?_⟩
  obtain ⟨reply, r', line, content, outcome, hhandle, hline, -, hevent, -, hanswers, hrun⟩ :=
    request_is_answered htype hid hpayload samples echoing
  have hname : ∀ t : RequestType, inheritedType ≠ t.name := by
    intro t
    cases t <;> decide
  obtain rfl := hanswers.eq_of_unknown hname
  obtain ⟨log, hrun⟩ := hrun expecting ⟨3, firstId.toText, .none, .none⟩ rfl
  refine ⟨reply, r', line, content, hhandle, hline, hevent, ?_⟩
  rw [hrun]
  rfl

end Script
end ScriptLink
