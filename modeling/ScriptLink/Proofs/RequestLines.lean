import ScriptLink.Proofs.Conversation

/-! # Requests on the line

    The message of an accepted operation can always be written, as one line of ASCII with a newline at its end alone.
    So lines that follow each other are told apart by their newlines, and each is read as the message that it was, with
    the halves of surrogate pairs in its texts joined: numbers keep their bits, and keys their places as long as no
    two of a mapping become equal. Main statement: `requests_survive`. -/

namespace ScriptLink

namespace Host

/-! ### Joined values -/

mutual

/-- A value in whose texts and keys the halves of surrogate pairs are joined. -/
def Value.joined : Value → Value
  | .scalar (.text t kind) => .scalar (.text t.join kind)
  | .sequence kind items => .sequence kind (joinedItems items)
  | .mapping kind entries => .mapping kind (joinedEntries entries)
  | value => value

/-- The items of a sequence, joined. -/
def joinedItems : List Value → List Value
  | [] => []
  | item :: rest => item.joined :: joinedItems rest

/-- The entries of a mapping, joined. -/
def joinedEntries : List (Value × Value) → List (Value × Value)
  | [] => []
  | (key, value) :: rest => (key.joined, value.joined) :: joinedEntries rest

end

mutual

/-- Whether no two keys of a mapping in a value become equal when they are joined. -/
def Value.JoinsApart : Value → Prop
  | .sequence _ items => ItemsJoinApart items
  | .mapping _ entries => ((texts entries).map fun entry => entry.1.join).Nodup ∧ EntriesJoinApart entries
  | .scalar _ | .again _ | .beyond _ => True

/-- `Value.JoinsApart` for each item of a sequence. -/
def ItemsJoinApart : List Value → Prop
  | [] => True
  | item :: rest => item.JoinsApart ∧ ItemsJoinApart rest

/-- `Value.JoinsApart` for each value of a mapping. -/
def EntriesJoinApart : List (Value × Value) → Prop
  | [] => True
  | (_, value) :: rest => value.JoinsApart ∧ EntriesJoinApart rest

end

/-- The names of members that are read back are those of the members, joined. -/
theorem names_retoldMembers (numeral : Double → Json) (members : List (Text × Json)) :
    (Json.retoldMembers numeral members).map Prod.fst =
      (texts (ofJsonMembers members)).map fun entry => entry.1.join := by
  induction members with
  | nil => rfl
  | cons member rest ih =>
    obtain ⟨name, value⟩ := member
    rw [Json.retoldMembers, List.map_cons, ih, ofJsonMembers, texts_cons rfl, List.map_cons]

mutual

/-- A JSON value whose keys stay apart is read back as itself, joined. -/
theorem ofJson_retold : ∀ j : Json, (Value.ofJson j).JoinsApart → .ofJson (j.retold .float) = (Value.ofJson j).joined
  | .null, _ | .bool _, _ | .int _, _ | .float _, _ | .text _, _ => rfl
  | .array items, h => congrArg (Value.sequence .list) (ofJsonItems_retold items h)
  | .object members, ⟨hnames, hvalues⟩ => by
    have hnodup : ((Json.retoldMembers .float members).map Prod.fst).Nodup := by
      rw [names_retoldMembers]
      exact hnames
    rw [Json.retold, Members.ofList_of_nodup hnodup]
    exact congrArg (Value.mapping .dict) (ofJsonMembers_retold members hvalues)

theorem ofJsonItems_retold : ∀ items : List Json, ItemsJoinApart (ofJsonItems items) →
    ofJsonItems (Json.retoldItems .float items) = joinedItems (ofJsonItems items)
  | [], _ => rfl
  | item :: rest, h => by
    rw [Json.retoldItems, ofJsonItems, ofJson_retold item h.1, ofJsonItems_retold rest h.2]
    rfl

theorem ofJsonMembers_retold : ∀ members : List (Text × Json), EntriesJoinApart (ofJsonMembers members) →
    ofJsonMembers (Json.retoldMembers .float members) = joinedEntries (ofJsonMembers members)
  | [], _ => rfl
  | (_, value) :: rest, h => by
    rw [Json.retoldMembers, ofJsonMembers, ofJson_retold value h.1, ofJsonMembers_retold rest h.2]
    rfl

end

end Host

/-! ### One request -/

/-- Whether a request is for an operation whose parts were accepted. -/
def Request.Accepted (r : Request) : Prop :=
  ∃ g operation, Operation.payload g operation = .ok r.payload ∧ r.operation = .text operation.requestName

/-- A request as it is read: with its id and its payload joined. -/
def Request.joined (r : Request) : Request :=
  { r with id := r.id.join, payload := r.payload.joined }

/-- The message that the peer reads on a line, as a value of the caller. -/
def messageOn? (line : List UInt8) : Option Host.Value :=
  ((Utf8.decode line).bind (Json.read? Script.requestNesting)).map .ofJson

namespace Request
variable {r : Request} {rs : List Request}

/-- The message of a request is a JSON value. -/
theorem Accepted.exists_json (h : r.Accepted) : ∃ j, r.toValue = .ofJson j ∧ j.Fits Script.requestNesting := by
  obtain ⟨g, operation, hpayload, hname⟩ := h
  obtain ⟨j, hj, hfits⟩ := Operation.exists_json_payload hpayload
  refine ⟨.object [(.ofString "type", .text operation.requestName), (.ofString "event_id", .text r.id),
    (.ofString "payload", j)], ?_, ?_⟩
  · rw [toValue, hname, hj]
    rfl
  · refine Json.Fits.mono _ (show 2 * Wire.maxDepth + 3 + 1 ≤ Script.requestNesting by decide) ?_
    exact ⟨trivial, trivial, hfits, trivial⟩

theorem Accepted.joinsApart_toValue (h : r.Accepted) (hpayload : r.payload.JoinsApart) : r.toValue.JoinsApart := by
  obtain ⟨_, operation, -, hname⟩ := h
  have hnames : ([.ofString "type", .ofString "event_id", .ofString "payload"].map Text.join).Nodup := by decide
  rw [toValue, hname]
  exact ⟨hnames, trivial, trivial, hpayload, trivial⟩

theorem Accepted.joined_toValue (h : r.Accepted) : r.toValue.joined = r.joined.toValue := by
  obtain ⟨_, operation, -, hname⟩ := h
  have htype : (Host.Value.text operation.requestName).joined = .text operation.requestName := by
    cases operation <;> rfl
  have hnames : Host.joinedEntries [(.text (.ofString "type"), .text operation.requestName),
      (.text (.ofString "event_id"), .text r.id), (.text (.ofString "payload"), r.payload)] =
      [(.text (.ofString "type"), (Host.Value.text operation.requestName).joined),
        (.text (.ofString "event_id"), .text r.id.join), (.text (.ofString "payload"), r.payload.joined)] := rfl
  rw [toValue, toValue, joined, hname, Host.Value.joined, hnames, htype]

/-- The line of an accepted request is ASCII, ends with its only newline, and is read as the message joined. -/
theorem Accepted.exists_line (h : r.Accepted) : ∃ body, r.line = .ok (body ++ [0x0A]) ∧ (0x0A : UInt8) ∉ body ∧
    (∀ b ∈ body ++ [0x0A], b < 0x80) ∧ (r.payload.JoinsApart →
      messageOn? body = some r.joined.toValue) := by
  obtain ⟨j, hj, hfits⟩ := h.exists_json
  obtain ⟨text, hwrite, hspells⟩ := Json.write_ofJson j hfits
  have hgraphic := Json.isGraphic_write _ hwrite
  rw [← hj] at hwrite
  refine ⟨Utf8.encode text, ?_, hgraphic.newline_notMem, ?_, fun hapart => ?_⟩
  · rw [line, hwrite]
    exact congrArg Except.ok (List.flatMap_append ..)
  · intro b hb
    rcases List.mem_append.mp hb with hb | hb
    · rw [hgraphic.encode_eq] at hb
      obtain ⟨c, hc, rfl⟩ := List.mem_map.mp hb
      have hc : 0x20 ≤ c.val ∧ c.val < 0x7F := hgraphic c hc
      rw [UInt8.lt_iff_toNat_lt, Utf8.toNat_toUInt8 (by omega)]
      exact Nat.lt_trans hc.2 (by decide)
    · rw [List.mem_singleton.mp hb]
      decide
  · have hjoined := h.joinsApart_toValue hapart
    rw [hj] at hjoined
    rw [messageOn?, hgraphic.decode_encode, Option.bind_some, hspells.read?, Option.map_some,
      Host.ofJson_retold j hjoined, ← hj, h.joined_toValue]

/-- The lines of accepted requests, without their newlines. -/
theorem exists_lines (h : ∀ r ∈ rs, r.Accepted ∧ r.payload.JoinsApart) : ∃ bodies : List (List UInt8),
    rs.mapM line = .ok (bodies.map (· ++ [0x0A])) ∧ (∀ body ∈ bodies, (0x0A : UInt8) ∉ body) ∧
      bodies.map messageOn? = rs.map fun r => some r.joined.toValue := by
  induction rs with
  | nil => exact ⟨[], rfl, List.forall_mem_nil _, rfl⟩
  | cons r rest ih =>
    obtain ⟨⟨haccepted, hapart⟩, hrest⟩ := List.forall_mem_cons.mp h
    obtain ⟨body, hline, hnewline, -, hread⟩ := haccepted.exists_line
    obtain ⟨bodies, hlines, hnewlines, hreads⟩ := ih hrest
    refine ⟨body :: bodies, ?_, List.forall_mem_cons.mpr ⟨hnewline, hnewlines⟩, ?_⟩
    · rw [List.mapM_cons, hline, hlines]
      rfl
    · rw [List.map_cons, List.map_cons, hread hapart, hreads]

/-- Requests survive the line. Whatever operation is accepted, its payload can be written, and the line of its message
    is ASCII with one newline, at its end. The lines of any requests in a row are told apart by the newlines, and are
    read as the messages in order: of the same type, with id and payload joined, and an id of digits as it was. -/
theorem requests_survive :
    (∀ g (operation : Operation) payload, operation.payload g = .ok payload →
      (∃ text, Json.write payload = .ok text) ∧ ∀ serial id, ∃ body,
        line ⟨serial, id, .text operation.requestName, payload⟩ = .ok (body ++ [0x0A]) ∧ (0x0A : UInt8) ∉ body ∧
        ∀ b ∈ body ++ [0x0A], b < 0x80) ∧
    (∀ rs : List Request, (∀ r ∈ rs, r.Accepted ∧ r.payload.JoinsApart) → ∃ lines bodies, rs.mapM line = .ok lines ∧
      linesOfChunk [] lines.flatten = (bodies, []) ∧
      bodies.map messageOn? = rs.map fun r => some (toValue ⟨r.serial, r.id.join, r.operation, r.payload.joined⟩)) ∧
    ∀ digits : Text, digits.IsDigits → digits.join = digits := by
  refine ⟨fun g operation payload h => ⟨Operation.exists_write_payload h, fun serial id => ?_⟩, fun rs h => ?_,
    fun digits h => (Text.IsGraphic.digits h).join_eq⟩
  · have haccepted : Accepted ⟨serial, id, .text operation.requestName, payload⟩ := ⟨g, operation, h, rfl⟩
    obtain ⟨body, hline, hnewline, hascii, -⟩ := haccepted.exists_line
    exact ⟨body, hline, hnewline, hascii⟩
  · obtain ⟨bodies, hlines, hnewlines, hreads⟩ := exists_lines h
    refine ⟨_, bodies, hlines, ?_, hreads⟩
    rw [← List.flatMap_def]
    exact linesOfChunk_unlines hnewlines

/-- A mapping with a negative zero under the two halves of a pair, and a half by itself under another key. -/
def parcel : Host.Graph where
  objects := #[.mapping .ordered [(.text [0xD83D, 0xDE00], .scalar (.float (.signed true 0) none)),
    (.text (.ofString "a"), .scalar (.text [0xD83D] .wrapped))]]

/-- What is sent for a call with the mapping; `key` is its first key. -/
def parcelPayload (key : Text) : Host.Value :=
  Operation.record [("name", .text (.ofString "f")), ("args", .sequence .list [Wire.tagged "object" (.mapping .dict
    [(.text key, Wire.tagged "number" (.float (.signed true 0))),
      (.text (.ofString "a"), Wire.tagged "string" (.text [0xD83D]))])])]

theorem parcel_survives : (parcelPayload [0xD83D, 0xDE00]).JoinsApart ∧ ∃ lines bodies,
    [⟨0, .ofString "7", .text (.ofString "call_prop"), parcelPayload [0xD83D, 0xDE00]⟩,
      ⟨1, .ofString "8", .text (.ofString "call_prop"), parcelPayload [0xD83D, 0xDE00]⟩].mapM line = .ok lines ∧
    linesOfChunk [] lines.flatten = (bodies, []) ∧
    bodies.map messageOn? =
      [some (toValue ⟨0, .ofString "7", .text (.ofString "call_prop"), parcelPayload [0x1F600]⟩),
        some (toValue ⟨1, .ofString "8", .text (.ofString "call_prop"), parcelPayload [0x1F600]⟩)] := by
  have hnode : Wire.Node.ofArgument parcel (.object 0) =
      .ok (.object [([0xD83D, 0xDE00], .number (.signed true 0)), (.ofString "a", .string [0xD83D])]) := rfl
  have hpayload : Operation.payload parcel (.callProp (.scalar (.text (.ofString "f") .plain)) [.object 0]) =
      .ok (parcelPayload [0xD83D, 0xDE00]) := by
    rw [Operation.payload, List.mapM_cons, hnode]
    rfl
  have hapart : (parcelPayload [0xD83D, 0xDE00]).JoinsApart := by
    refine ⟨by decide, trivial, ⟨⟨by decide, trivial, ⟨by decide, ⟨by decide, trivial, trivial, trivial⟩,
      ⟨by decide, trivial, trivial, trivial⟩, trivial⟩, trivial⟩, trivial⟩, trivial⟩
  have haccepted (serial : ℕ) (id : Text) :
      Accepted ⟨serial, id, .text (.ofString "call_prop"), parcelPayload [0xD83D, 0xDE00]⟩ :=
    ⟨parcel, .callProp (.scalar (.text (.ofString "f") .plain)) [.object 0], hpayload, rfl⟩
  have hsmile : Text.join [0xD83D, 0xDE00] = [0x1F600] := by decide
  have hjoined (key : Text) : (parcelPayload key).joined = parcelPayload key.join := by
    have hhalf : Text.join [0xD83D] = [0xD83D] := by decide
    simp only [parcelPayload, Operation.record, Wire.tagged, List.map_cons, List.map_nil, Host.Value.text,
      Host.Value.float, Host.Value.joined, Host.joinedEntries, Host.joinedItems, hhalf]
    rfl
  obtain ⟨lines, bodies, hlines, hsplit, hread⟩ := requests_survive.2.1 _
    (List.forall_mem_cons.mpr ⟨⟨haccepted 0 (.ofString "7"), hapart⟩,
      List.forall_mem_cons.mpr ⟨⟨haccepted 1 (.ofString "8"), hapart⟩, List.forall_mem_nil _⟩⟩)
  refine ⟨hapart, lines, bodies, hlines, hsplit, ?_⟩
  rw [hread, List.map_cons, List.map_singleton, hjoined, hsmile]
  rfl

end Request

end ScriptLink
