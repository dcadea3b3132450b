import ScriptLink.Proofs.JsonText
import ScriptLink.Script.Handler
import ScriptLink.Wire.Decode

/-! # Nodes on their way

    A node crosses the link as text, in either direction. `received` is the caller's value that a node of the script
    comes to, and `joined` the node that a node of the caller is on the other side. Neither crossing fails on a node
    that the link has made, as it is nested no deeper than `maxDepth`. Main statements: `decode_received` and
    `read?_joined`. -/

namespace ScriptLink.Wire
open Json (Fits ItemsFit MembersFit retold retoldItems retoldMembers Spells)

mutual

/-- Whether a node has at most so many containers inside each other. -/
def Node.Within : Nat → Node → Prop
  | room + 1, .array items => ItemsWithin room items
  | room + 1, .object members => MembersWithin room members
  | 0, .array _ | 0, .object _ => False
  | _, .null | _, .boolean _ | _, .number _ | _, .string _ | _, .complex => True

/-- `Node.Within` for each node of an array. -/
def ItemsWithin : Nat → List Node → Prop
  | _, [] => True
  | room, item :: rest => item.Within room ∧ ItemsWithin room rest

/-- `Node.Within` for the node of each member. -/
def MembersWithin : Nat → List (Text × Node) → Prop
  | _, [] => True
  | room, (_, node) :: rest => node.Within room ∧ MembersWithin room rest

end

theorem itemsWithin_iff {room : Nat} {items : List Node} :
    ItemsWithin room items ↔ ∀ item ∈ items, item.Within room := by
  induction items with
  | nil => simp [ItemsWithin]
  | cons item rest ih => rw [ItemsWithin, ih, List.forall_mem_cons]

theorem membersWithin_iff {room : Nat} {members : List (Text × Node)} :
    MembersWithin room members ↔ ∀ member ∈ members, member.2.Within room := by
  induction members with
  | nil => simp [MembersWithin]
  | cons member rest ih =>
    obtain ⟨name, node⟩ := member
    rw [MembersWithin, ih, List.forall_mem_cons]

/-- A double is written as a word just when it is not finite. -/
theorem isFinite_of_numberWord? {d : Double} (h : numberWord? d = none) : d.isFinite = true := by
  cases d with
  | nan => cases h
  | signed negative magnitude =>
    rw [numberWord?] at h
    simpa [Double.isFinite] using h

theorem numberWord?_cases {d : Double} {word : Text} (h : numberWord? d = some word) :
    d = .nan ∧ word = .ofString "NaN" ∨
      ∃ negative, d = .infinity negative ∧ word = .ofString (if negative then "-Infinity" else "Infinity") := by
  cases d with
  | nan => exact .inl ⟨rfl, (Option.some.inj h).symm⟩
  | signed negative magnitude =>
    rw [numberWord?] at h
    split at h
    case isTrue hinfinite =>
      obtain rfl : magnitude = Fin.last infinityCode := Fin.ext hinfinite
      exact .inr ⟨negative, rfl, (Option.some.inj h).symm⟩
    case isFalse => cases h

theorem numberOfWord?_of_numberWord? {d : Double} {word : Text} (h : numberWord? d = some word) :
    numberOfWord? word.join = some d ∧ d.clearZeroSign = d := by
  rcases numberWord?_cases h with ⟨rfl, rfl⟩ | ⟨negative, rfl, rfl⟩
  · decide
  · cases negative <;> decide

mutual

/-- The JSON form of a node takes two containers for each of the node's, and one more. -/
theorem fits_toJson : ∀ {room : Nat} (node : Node), node.Within room → Fits (2 * room + 1) node.toJson
  | _, .null, _ => ⟨trivial, trivial⟩
  | _, .complex, _ => ⟨trivial, trivial⟩
  | _, .boolean _, _ => ⟨trivial, trivial, trivial⟩
  | _, .string _, _ => ⟨trivial, trivial, trivial⟩
  | room, .number d, _ => by
    refine ⟨trivial, ?_, trivial⟩
    rcases h : numberWord? d with _ | word
    · exact isFinite_of_numberWord? h
    · trivial
  | room + 1, .array items, h => ⟨trivial, itemsFit_toJson items h, trivial⟩
  | room + 1, .object members, h => ⟨trivial, membersFit_toJson members h, trivial⟩

theorem itemsFit_toJson : ∀ {room : Nat} (items : List Node), ItemsWithin room items →
    ItemsFit (2 * room + 1) (itemsToJson items)
  | _, [], _ => trivial
  | _, item :: rest, h => ⟨fits_toJson item h.1, itemsFit_toJson rest h.2⟩

theorem membersFit_toJson : ∀ {room : Nat} (members : List (Text × Node)), MembersWithin room members →
    MembersFit (2 * room + 1) (membersToJson members)
  | _, [], _ => trivial
  | _, (_, node) :: rest, h => ⟨fits_toJson node h.1, membersFit_toJson rest h.2⟩

end

/-! ### From the script to the caller -/

mutual

/-- The caller's value that a node of the script comes to. -/
def Node.received : Node → Host.Value
  | .null => .none
  | .boolean b => .scalar (.bool b)
  | .number d => .float d.clearZeroSign
  | .string t => .text t.join
  | .array items => .sequence .list (receivedItems items)
  | .object members =>
    .mapping .dict ((Members.ofList (receivedMembers members)).map fun member => (.text member.1, member.2))
  | .complex => .scalar .marker

/-- The values that the nodes of an array come to. -/
def receivedItems : List Node → List Host.Value
  | [] => []
  | item :: rest => item.received :: receivedItems rest

/-- The values that the nodes of an object come to, before those under equal names are merged. -/
def receivedMembers : List (Text × Node) → List (Text × Host.Value)
  | [] => []
  | (name, node) :: rest => (name.join, node.received) :: receivedMembers rest

end

/-- The values that nodes come to, one by one. -/
theorem receivedItems_eq (items : List Node) : receivedItems items = items.map Node.received := by
  induction items with
  | nil => rfl
  | cons item rest ih => rw [receivedItems, ih, List.map_cons]

theorem receivedMembers_eq (members : List (Text × Node)) :
    receivedMembers members = members.map fun member => (member.1.join, member.2.received) := by
  induction members with
  | nil => rfl
  | cons member rest ih =>
    obtain ⟨name, node⟩ := member
    rw [receivedMembers, ih, List.map_cons]

/-- Named values keep their names, if these are different and the same on the other side. -/
theorem retold_jsonRecord (numeral : Double → Json) (names : List String) {fields : List (String × Json)}
    (hnames : fields.map Prod.fst = names) (hjoin : ∀ name ∈ names, (Text.ofString name).join = .ofString name)
    (hdistinct : (names.map Text.ofString).Nodup) :
    retold numeral (Script.jsonRecord fields) =
      Script.jsonRecord (fields.map fun field => (field.1, retold numeral field.2)) := by
  subst hnames
  rw [List.map_map] at hdistinct
  have hmembers : retoldMembers numeral (fields.map fun field => (.ofString field.1, field.2)) =
      fields.map fun field => (.ofString field.1, retold numeral field.2) := by
    clear hdistinct
    induction fields with
    | nil => rfl
    | cons field rest ih =>
      rw [List.map_cons, List.forall_mem_cons] at hjoin
      rw [List.map_cons, List.map_cons, retoldMembers, hjoin.1, ih hjoin.2]
  rw [Script.jsonRecord, retold, hmembers, Members.ofList_of_nodup, Script.jsonRecord, List.map_map]
  · rfl
  · rw [List.map_map]
    exact hdistinct

theorem retold_tagged (numeral : Double → Json) {tag : String} (h : (Text.ofString tag).join = .ofString tag)
    (content : Json) :
    retold numeral (.object [(.ofString "t", .text (.ofString tag)), (.ofString "v", content)]) =
      .object [(.ofString "t", .text (.ofString tag)), (.ofString "v", retold numeral content)] := by
  have hrecord := retold_jsonRecord numeral ["t", "v"]
    (show [("t", Json.text (.ofString tag)), ("v", content)].map Prod.fst = _ from rfl) (by decide) (by decide)
  rwa [List.map_cons, List.map_singleton, retold, h] at hrecord

/-- The tagged form of a content whose value the tag gives. -/
theorem decode_scalar {tag : String} {expected : ContentTag} {content : Host.Scalar} {value : Host.Value}
    (htag : Reading.ofTag (some (.ofString tag)) = .content expected)
    (h : decodeScalar? expected content = some (.ok value)) : decode (tagged tag (.scalar content)) = .ok value := by
  have hlookup : (Host.lookup? [(Host.Value.text (.ofString "t"), Host.Value.text (.ofString tag)),
      (.text (.ofString "v"), .scalar content)] (.ofString "t")).bind Host.Value.likeText? = some (.ofString tag) := rfl
  have hskip : decodeContent expected [(.text (.ofString "t"), .text (.ofString tag)),
      (.text (.ofString "v"), .scalar content)] = decodeScalar? expected content := rfl
  rw [tagged, decode, hlookup, htag]
  simp only [hskip, h, Option.getD_some]

theorem decode_array (items : List Host.Value) :
    decode (tagged "array" (.sequence .list items)) = (decodeItems items).map (.sequence .list) := rfl

theorem decode_object (entries : List (Host.Value × Host.Value)) :
    decode (tagged "object" (.mapping .dict entries)) = (decodeEntries entries).map (.mapping .dict) := rfl

/-- A number node is read as its double, whatever form the number has in text. -/
theorem decode_number {d : Double} {j : Json} (h : (∃ n, j = .int n ∧ Double.ofInt n = d) ∨ j = .float d)
    (hd : d.isFinite = true) : decode (tagged "number" (.ofJson j)) = .ok (.float d) := by
  rcases h with ⟨n, rfl, hn⟩ | rfl
  · refine decode_scalar rfl ?_
    have hfinite : Double.ofInt? n = some d := by rw [Double.ofInt?, hn, if_pos hd]
    simp only [decodeScalar?, hfinite]
  · exact decode_scalar rfl rfl

/-- The entries of a mapping under texts, each of which can be read, can be read together. -/
theorem decodeEntries_of_forall₂ {members : Members Json} {entries : Members Host.Value}
    (h : List.Forall₂ (fun member entry => member.1 = entry.1 ∧ decode (.ofJson member.2) = .ok entry.2) members
      entries) :
    decodeEntries (Host.ofJsonMembers members) = .ok (entries.map fun entry => (.text entry.1, entry.2)) := by
  induction h with
  | nil => rfl
  | @cons member entry rest rest' hm _ ih =>
    obtain ⟨name, j⟩ := member
    obtain ⟨rfl, hdecode⟩ := hm
    rw [Host.ofJsonMembers, decodeEntries, hdecode, ih]
    rfl

theorem isFinite_clearZeroSign {d : Double} (h : d.isFinite = true) : d.clearZeroSign.isFinite = true := by
  rw [Double.clearZeroSign]
  split
  · decide
  · exact h

mutual

/-- What a node of the script is read back as in JSON, is read as the value that the node comes to. -/
theorem decode_received : ∀ node : Node,
    decode (.ofJson (retold Layout.script.rereads node.toJson)) = .ok node.received
  | .null => rfl
  | .complex => rfl
  | .boolean _ => rfl
  | .number d => by
    rw [Node.toJson, retold_tagged _ (by decide), Node.received]
    rcases h : numberWord? d with _ | word
    · have hd := isFinite_of_numberWord? h
      exact decode_number (Layout.rereads_script hd) (isFinite_clearZeroSign hd)
    · obtain ⟨hword, hclear⟩ := numberOfWord?_of_numberWord? h
      rw [hclear]
      exact decode_scalar rfl (congrArg (Option.map _) hword)
  | .string t => by
    rw [Node.toJson, retold_tagged _ (by decide), Node.received]
    exact decode_scalar rfl rfl
  | .array items => by
    rw [Node.toJson, retold_tagged _ (by decide), Node.received]
    exact (decode_array _).trans (congrArg (Except.map _) (decodeItems_received items))
  | .object members => by
    rw [Node.toJson, retold_tagged _ (by decide), Node.received]
    have hentries := decodeEntries_of_forall₂
      (Members.forall₂_ofList (fun _ _ h => h.1) (decodeMembers_received members))
    exact (decode_object _).trans (congrArg (Except.map _) hentries)

theorem decodeItems_received : ∀ items : List Node,
    decodeItems (Host.ofJsonItems (retoldItems Layout.script.rereads (itemsToJson items))) = .ok (receivedItems items)
  | [] => rfl
  | item :: rest => by
    rw [itemsToJson, retoldItems, Host.ofJsonItems, decodeItems, decode_received item, decodeItems_received rest]
    rfl

theorem decodeMembers_received : ∀ members : List (Text × Node),
    List.Forall₂ (fun member entry => member.1 = entry.1 ∧ decode (.ofJson member.2) = .ok entry.2)
      (retoldMembers Layout.script.rereads (membersToJson members)) (receivedMembers members)
  | [] => .nil
  | (_, node) :: rest => .cons ⟨rfl, decode_received node⟩ (decodeMembers_received rest)

end

/-- What an object with different names comes to. -/
theorem received_object {named : List (Units × Node)} (h : (named.map Prod.fst).Nodup) :
    (Node.object (named.map fun member => (member.1.toText, member.2))).received =
      .mapping .dict (named.map fun member => (.text member.1.toText, member.2.received)) := by
  have hreceived : receivedMembers (named.map fun member => (member.1.toText, member.2)) =
      named.map fun member => (member.1.toText, member.2.received) := by
    rw [receivedMembers_eq, List.map_map]
    exact List.map_congr_left fun member _ => congrArg (·, member.2.received) (Text.join_toText member.1)
  have hdistinct : ((named.map fun member => (member.1.toText, member.2.received)).map Prod.fst).Nodup := by
    have h := h.map Text.toText_injective
    rw [List.map_map] at h
    rw [List.map_map]
    exact h
  rw [Node.received, hreceived, Members.ofList_of_nodup hdistinct, List.map_map]
  rfl

/-- A node of the script arrives at the caller. -/
theorem read?_received {node : Node} (h : node.Within maxDepth) :
    ∃ j, Json.read? Json.nestingLimit (Json.compact node.toJson) = some j ∧
      decode (.ofJson j) = .ok node.received := by
  have hfits : Fits Json.nestingLimit node.toJson := Json.Fits.mono _ (by decide) (fits_toJson node h)
  exact ⟨_, (Json.spells_compact _ hfits).read?, decode_received node⟩

/-! ### From the caller to the script -/

mutual

/-- A node of the caller as it is on the other side. -/
def Node.joined : Node → Node
  | .null => .null
  | .boolean b => .boolean b
  | .number d => .number d
  | .string t => .string t.join
  | .array items => .array (joinedItems items)
  | .object members => .object (Members.ofList (joinedMembers members))
  | .complex => .complex

/-- The nodes of an array on the other side. -/
def joinedItems : List Node → List Node
  | [] => []
  | item :: rest => item.joined :: joinedItems rest

/-- The members of an object on the other side, before those under equal names are merged. -/
def joinedMembers : List (Text × Node) → List (Text × Node)
  | [] => []
  | (name, node) :: rest => (name.join, node.joined) :: joinedMembers rest

end

/-- The nodes of an array on the other side, one by one. -/
theorem joinedItems_eq (items : List Node) : joinedItems items = items.map Node.joined := by
  induction items with
  | nil => rfl
  | cons item rest ih => rw [joinedItems, ih, List.map_cons]

theorem joinedMembers_eq (members : List (Text × Node)) :
    joinedMembers members = members.map fun member => (member.1.join, member.2.joined) := by
  induction members with
  | nil => rfl
  | cons member rest ih =>
    obtain ⟨name, node⟩ := member
    rw [joinedMembers, ih, List.map_cons]

mutual

theorem within_joined : ∀ {room : Nat} (node : Node), node.Within room → node.joined.Within room
  | room, .null, _ | room, .boolean _, _ | room, .number _, _ | room, .string _, _ | room, .complex, _ => by
    cases room <;> trivial
  | _ + 1, .array items, h => itemsWithin_joined items h
  | _ + 1, .object members, h =>
    membersWithin_iff.mpr fun _ hm =>
      membersWithin_iff.mp (membersWithin_joined members h) _ (Members.mem_of_mem_ofList hm)

theorem itemsWithin_joined : ∀ {room : Nat} (items : List Node), ItemsWithin room items →
    ItemsWithin room (joinedItems items)
  | _, [], _ => trivial
  | _, item :: rest, h => ⟨within_joined item h.1, itemsWithin_joined rest h.2⟩

theorem membersWithin_joined : ∀ {room : Nat} (members : List (Text × Node)), MembersWithin room members →
    MembersWithin room (joinedMembers members)
  | _, [], _ => trivial
  | _, (_, node) :: rest, h => ⟨within_joined node h.1, membersWithin_joined rest h.2⟩

end

/-- The mappings that the nodes of an array are written as, one by one. -/
theorem itemsToValues_eq (items : List Node) : itemsToValues items = items.map Node.toValue := by
  induction items with
  | nil => rfl
  | cons item rest ih => rw [itemsToValues, ih, List.map_cons]

mutual

/-- The mapping that a node is written as, is its form in JSON. -/
theorem ofJson_toJson : ∀ node : Node, .ofJson node.toJson = node.toValue
  | .null | .complex | .boolean _ | .string _ => rfl
  | .number d => by
    rw [Node.toJson, Node.toValue, numberContent]
    cases numberWord? d <;> rfl
  | .array items => congrArg (fun values => tagged "array" (.sequence .list values)) (ofJson_itemsToJson items)
  | .object members =>
    congrArg (fun entries => tagged "object" (.mapping .dict entries)) (ofJson_membersToJson members)

theorem ofJson_itemsToJson : ∀ items : List Node, Host.ofJsonItems (itemsToJson items) = itemsToValues items
  | [] => rfl
  | item :: rest => by
    rw [itemsToJson, Host.ofJsonItems, ofJson_toJson item, ofJson_itemsToJson rest]
    rfl

theorem ofJson_membersToJson : ∀ members : List (Text × Node),
    Host.ofJsonMembers (membersToJson members) = membersToEntries members
  | [] => rfl
  | (_, node) :: rest => by
    rw [membersToJson, Host.ofJsonMembers, ofJson_toJson node, ofJson_membersToJson rest]
    rfl

end

/-- Members in JSON are the members' nodes in JSON, one by one. -/
theorem membersToJson_of_forall₂ {members : List (Text × Json)} {nodes : List (Text × Node)}
    (h : List.Forall₂ (fun member node => member.1 = node.1 ∧ member.2 = node.2.toJson) members nodes) :
    members = membersToJson nodes := by
  induction h with
  | nil => rfl
  | @cons member node _ _ hm _ ih =>
    obtain ⟨name, j⟩ := member
    obtain ⟨rfl, rfl⟩ := hm
    rw [membersToJson, ih]

mutual

/-- What a node of the caller is read back as in JSON, is the node that it is on the other side. -/
theorem retold_toJson : ∀ node : Node, retold .float node.toJson = node.joined.toJson
  | .null | .complex | .boolean _ => rfl
  | .number d => by
    rw [Node.toJson, retold_tagged _ (by decide), Node.joined, Node.toJson]
    rcases h : numberWord? d with _ | word
    · rfl
    · rcases numberWord?_cases h with ⟨rfl, rfl⟩ | ⟨negative, rfl, rfl⟩
      · rfl
      · cases negative <;> rfl
  | .string t => by rw [Node.toJson, retold_tagged _ (by decide), Node.joined, Node.toJson, retold]
  | .array items => by
    rw [Node.toJson, retold_tagged _ (by decide), Node.joined, Node.toJson, retold, retold_itemsToJson items]
  | .object members => by
    rw [Node.toJson, retold_tagged _ (by decide), Node.joined, Node.toJson, retold,
      membersToJson_of_forall₂ (Members.forall₂_ofList (fun _ _ h => h.1) (retold_membersToJson members))]

theorem retold_itemsToJson : ∀ items : List Node,
    retoldItems .float (itemsToJson items) = itemsToJson (joinedItems items)
  | [] => rfl
  | item :: rest => by
    rw [itemsToJson, retoldItems, retold_toJson item, retold_itemsToJson rest]
    rfl

theorem retold_membersToJson : ∀ members : List (Text × Node),
    List.Forall₂ (fun member node => member.1 = node.1 ∧ member.2 = node.2.toJson)
      (retoldMembers .float (membersToJson members)) (joinedMembers members)
  | [] => .nil
  | (_, node) :: rest => .cons ⟨rfl, retold_toJson node⟩ (retold_membersToJson rest)

end

/-- A node of the caller can be written, and arrives at the script. -/
theorem read?_joined {node : Node} (h : node.Within maxDepth) :
    ∃ text, Json.write node.toValue = .ok text ∧
      Json.read? Script.requestNesting text = some node.joined.toJson := by
  have hfits : Fits Script.requestNesting node.toJson := Json.Fits.mono _ (by decide) (fits_toJson node h)
  obtain ⟨text, hwrite, hspells⟩ := Json.write_ofJson node.toJson hfits
  rw [ofJson_toJson] at hwrite
  rw [retold_toJson] at hspells
  exact ⟨text, hwrite, hspells.read?⟩

end ScriptLink.Wire
