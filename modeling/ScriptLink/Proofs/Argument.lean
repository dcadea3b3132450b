import ScriptLink.Engine.Loop
import ScriptLink.Operation
import ScriptLink.Proofs.Denotation
import ScriptLink.Proofs.Replies
import ScriptLink.Script.Sample

/-! # Arguments that come back

    An argument of a call is converted to a node, written, read, built in the script's realm, handed to a function,
    and what the function gives goes all the way back. `Host.Value.norm` is the value that a value comes back as when
    the function gives its argument. Main statement: an accepted argument whose keys are apart arrives as the value
    that it denotes, and comes back as its norm. -/

namespace ScriptLink

namespace Script
variable {α : Type}

/-- Named values in the order of properties. -/
def inPropertyOrder (members : List (Units × α)) : List (Units × α) :=
  (inOrder (members.map Prod.fst)).filterMap fun name => members.find? fun member => member.1 = name

theorem mem_of_mem_inPropertyOrder {members : List (Units × α)} {member : Units × α}
    (h : member ∈ inPropertyOrder members) : member ∈ members := by
  obtain ⟨name, -, hfind⟩ := List.mem_filterMap.mp h
  exact List.mem_of_find?_eq_some hfind

theorem names_inPropertyOrder (members : List (Units × α)) :
    (inPropertyOrder members).map Prod.fst = inOrder (members.map Prod.fst) := by
  have found (names : List Units) (h : ∀ name ∈ names, name ∈ members.map Prod.fst) :
      (names.filterMap fun name => members.find? fun member => member.1 = name).map Prod.fst = names := by
    induction names with
    | nil => rfl
    | cons name names ih =>
      obtain ⟨member, hm, rfl⟩ := List.mem_map.mp (h name List.mem_cons_self)
      have hsome : (members.find? fun other => other.1 = member.1).isSome := by
        rw [List.find?_isSome]
        exact ⟨member, hm, by simp⟩
      obtain ⟨found, hfound⟩ := Option.isSome_iff_exists.mp hsome
      have hname : found.1 = member.1 := by simpa using List.find?_some hfound
      simp only [List.filterMap_cons, hfound, List.map_cons, hname]
      rw [ih fun name hn => h name (List.mem_cons_of_mem _ hn)]
  exact found _ fun name hn => mem_inOrder.mp hn

theorem inPropertyOrder_of_no_index {members : List (Units × α)} (h : ∀ name ∈ members.map Prod.fst, indexOf? name = none)
    (hdistinct : (members.map Prod.fst).Nodup) : inPropertyOrder members = members := by
  rw [inPropertyOrder, inOrder_of_no_index h, List.filterMap_map]
  conv_rhs => rw [← List.filterMap_some (l := members)]
  exact List.filterMap_congr fun member hm => Members.find?_of_distinct hdistinct hm

/-- What is found under names in order, is unfolded in the order of properties. -/
theorem Realm.Unfolds.of_isRecord {r : Realm} {ref : Ref} {path : List Ref} {members : List (Units × Value)}
    {named : List (Units × Host.Value)} (hpath : ref ∉ path) (hroom : path.length < Wire.maxDepth)
    (hrecord : r.IsRecord ref members) (hnames : members.map Prod.fst = inOrder (named.map Prod.fst))
    (h : ∀ name w value, (name, w) ∈ members → (name, value) ∈ named → r.Unfolds (ref :: path) w value) :
    r.Unfolds path (.object ref)
      (.mapping .dict ((inPropertyOrder named).map fun member => (.text member.1.toText, member.2))) := by
  have hsorted : members.map Prod.fst = (inPropertyOrder named).map Prod.fst := by
    rw [hnames, names_inPropertyOrder]
  have hlength : members.length = (inPropertyOrder named).length := by simpa using congrArg List.length hsorted
  rw [← Realm.zipWith_of_names (fun name value => (Host.Value.text name.toText, value)) hsorted]
  refine .record hpath hroom hrecord (by rw [List.length_map, hlength]) fun n hn hn' => ?_
  rw [List.getElem_map]
  have hname := List.getElem_of_eq hsorted (i := n) (by simpa using hn)
  simp only [List.getElem_map] at hname
  refine h members[n].1 members[n].2 _ (List.getElem_mem hn) ?_
  rw [hname]
  exact mem_of_mem_inPropertyOrder (List.getElem_mem (hlength ▸ hn))

end Script

namespace Host
open Script (inPropertyOrder)

/-! ### The norm of a value -/

/-- A scalar that comes back: numbers as floats without a sign of zero, texts as plain ones with their pairs joined. -/
def Scalar.norm : Scalar → Scalar
  | .int n _ => .float (Double.ofInt n).clearZeroSign Option.none
  | .float d _ => .float d.clearZeroSign Option.none
  | .text t _ => .text t.join .plain
  | s => s

mutual

/-- A value that comes back: sequences as lists, and mappings as dictionaries in the order of properties. -/
def Value.norm : Value → Value
  | .scalar s => .scalar s.norm
  | .sequence _ items => .sequence .list (normItems items)
  | .mapping _ entries =>
    .mapping .dict ((inPropertyOrder (normEntries entries)).map fun member => (.text member.1.toText, member.2))
  | .again shape => .again shape
  | .beyond shape => .beyond shape

/-- The items of a sequence that comes back. -/
def normItems : List Value → List Value
  | [] => []
  | item :: rest => item.norm :: normItems rest

/-- The entries of a mapping that comes back, by the units of their keys. -/
def normEntries : List (Value × Value) → List (Units × Value)
  | [] => []
  | (key, value) :: rest =>
    match key.likeText? with
    | some name => (name.toUnits, value.norm) :: normEntries rest
    | Option.none => normEntries rest

end

theorem normItems_eq (items : List Value) : normItems items = items.map Value.norm := by
  induction items with
  | nil => rfl
  | cons item rest ih => rw [normItems, ih, List.map_cons]

theorem normEntries_eq (entries : List (Value × Value)) :
    normEntries entries = (texts entries).map fun entry => (entry.1.toUnits, entry.2.norm) := by
  induction entries with
  | nil => rfl
  | cons entry rest ih =>
    obtain ⟨key, value⟩ := entry
    rw [normEntries]
    cases h : key.likeText? with
    | none =>
      rw [texts, List.filterMap_cons_none (by rw [h]; rfl)]
      exact ih
    | some name => rw [texts_cons h, List.map_cons, ← ih]

end Host

namespace Wire
open Script (Realm inPropertyOrder)
open Host (texts)

variable {r : Realm} {lo hi base room : Nat} {value : Host.Value} {node : Node} {v : Script.Value}
  {path : List Script.Ref}

theorem mem_crossed {entries : List (Text × Host.Value)} (h : Members.Apart entries) {name : Text}
    (hm : (name, value) ∈ entries) : (name.join, value) ∈ Members.crossed entries := by
  rw [Members.crossed_of_nodup h.distinct]
  exact List.mem_map_of_mem (f := fun entry : Text × Host.Value => (entry.1.join, entry.2)) hm

/-- The value that comes back holds no marker. -/
theorem Arrives.unmarked (h : Arrives value node) (hk : value.KeysApart) : ¬ value.norm.Part (.scalar .marker) := by
  induction h with
  | scalar h =>
    intro hp
    rw [Host.Value.norm] at hp
    rcases ofScalar_cases h with ⟨rfl, -⟩ | ⟨b, rfl, -⟩ | ⟨n, _, d, rfl, -, -⟩ | ⟨d, _, rfl, -⟩ | ⟨t, kind, rfl, -⟩ <;>
      cases hp.of_scalar
  | sequence hlength _ ih =>
    intro hp
    rw [Host.Value.norm] at hp
    rcases hp.of_sequence with he | ⟨item, hm, hp⟩
    · cases he
    · rw [Host.normItems_eq] at hm
      obtain ⟨item, hitem, rfl⟩ := List.mem_map.mp hm
      obtain ⟨n, hn, rfl⟩ := List.mem_iff_getElem.mp hitem
      exact ih n hn (hlength ▸ hn) (hk.of_part (.item .whole hitem)) hp
  | @mapping kind entries members _ hnames _ ih =>
    intro hp
    rw [Host.Value.norm] at hp
    rcases hp.of_mapping with he | ⟨entry, hm, hp⟩
    · cases he
    · obtain ⟨member, hmember, rfl⟩ := List.mem_map.mp hm
      have hnamed := Script.mem_of_mem_inPropertyOrder hmember
      rw [Host.normEntries_eq] at hnamed
      obtain ⟨⟨name, value⟩, htext, rfl⟩ := List.mem_map.mp hnamed
      obtain ⟨key, hkey, -⟩ := Host.mem_texts.mp htext
      obtain ⟨n, hn, hn', rfl, -⟩ := exists_place hnames (mem_crossed (hk kind entries .whole) htext)
      exact ih n hn hn' (hk.of_part (.value .whole hkey)) hp

theorem not_mem_of_outside {ref : Nat} (hpath : ∀ n : Nat, n ∈ path → n < lo ∨ hi ≤ n) (hlo : lo ≤ ref)
    (hhi : ref < hi) : ref ∉ path := by
  intro hm
  have := hpath ref hm
  omega

/-- The parts of an object have numbers of their own, so it is no part of itself. -/
theorem outside_cons {lo' hi' ref : Nat} (hpath : ∀ n : Nat, n ∈ path → n < lo ∨ hi ≤ n) (hlo : lo ≤ lo')
    (hhi : hi' ≤ hi) (href : ref < lo' ∨ hi' ≤ ref) (n : Nat) (hm : n ∈ ref :: path) : n < lo' ∨ hi' ≤ n := by
  rcases List.mem_cons.mp hm with rfl | hm
  · exact href
  · have := hpath n hm
    omega

/-- What is built for a value whose keys are apart unfolds to the value's norm. -/
theorem Arrives.unfolds (h : Arrives value node) (hk : value.KeysApart) (hv : r.Builds lo hi node v)
    (hr : r.Ready base) (hbase : base ≤ lo) (hwithin : node.Within room) (hlength : path.length + room = maxDepth)
    (hpath : ∀ n : Nat, n ∈ path → n < lo ∨ hi ≤ n) : r.Unfolds path v value.norm := by
  induction h generalizing lo hi v room path with
  | scalar h =>
    rw [Host.Value.norm]
    rcases ofScalar_cases h with ⟨rfl, rfl⟩ | ⟨b, rfl, rfl⟩ | ⟨n, _, d, rfl, hd, rfl⟩ | ⟨d, _, rfl, rfl⟩ |
      ⟨t, kind, rfl, rfl⟩ <;> cases hv
    · exact .null
    · exact .boolean b
    · rw [Host.Scalar.norm, ← Double.eq_of_ofInt? hd]
      exact .number d
    · exact .number d
    · have htext : r.Unfolds path (.string t.join.toUnits) _ := .string t.join.toUnits
      rwa [Text.toText_toUnits, Text.join_join] at htext
  | @sequence kind items nodes hitems _ ih =>
    cases hv with
    | @array _ _ ref _ elements hl hh hnature hown hlength' hbuilds =>
      cases room with
      | zero => exact hwithin.elim
      | succ room =>
        have hnot : ref ∉ path := not_mem_of_outside hpath hl hh
        rw [Host.Value.norm, Host.normItems_eq]
        refine .array hnot (by omega) (Realm.isArray_of_own hnature hown)
          (by rw [List.length_map, hitems, hlength']) fun n hn hn' => ?_
        rw [List.getElem_map]
        have hn' : n < items.length := by simpa using hn'
        refine ih n hn' (hlength' ▸ hn) (hk.of_part (.item .whole (List.getElem_mem hn'))) (hbuilds n (hlength' ▸ hn) hn)
          hbase (itemsWithin_iff.mp hwithin _ (List.getElem_mem (hlength' ▸ hn))) ?_
          (outside_cons hpath le_rfl hh.le (.inr le_rfl))
        rw [List.length_cons]
        omega
  | @mapping kind entries members hkeys hnames harrives ih =>
    have hvalue : Arrives (.mapping kind entries) (.object members) := .mapping hkeys hnames harrives
    have hdenotes := (hvalue.denotes hv hr hbase).of_keysApart hk
    have hbuildable := hvalue.buildable
    cases hv with
    | @object _ _ ref _ assigned hl hh hnature hproperties hassigned hbuilds =>
      cases room with
      | zero => exact hwithin.elim
      | succ room =>
        have hnot : ref ∉ path := not_mem_of_outside hpath hl hh
        -- Which names there are, and in which order, is what the object denotes already.
        have hrecord := hr.isRecord_built (hbase.trans hl) hnature hproperties hassigned hbuildable.1
        cases hdenotes with
        | mapping _ hrecord' hordered _ =>
          obtain rfl := hrecord.unique hrecord'
          rw [Host.Value.norm]
          refine .of_isRecord hnot (by omega) hrecord ?_ fun name w normal hw hnamed => ?_
          · rw [Host.normEntries_eq, hordered, List.map_map]
            rfl
          · rw [Host.normEntries_eq] at hnamed
            obtain ⟨⟨name, value⟩, htext, he⟩ := List.mem_map.mp hnamed
            obtain ⟨rfl, rfl⟩ := Prod.mk.inj he
            obtain ⟨key, hkey, -⟩ := Host.mem_texts.mp htext
            obtain ⟨n, hn, hn', rfl, hmember⟩ := exists_place hnames (mem_crossed (hk kind entries .whole) htext)
            have hassigned : (members[n].1.toUnits, w) ∈ assigned := by
              rwa [hmember, Text.toUnits_join]
            refine ih n hn hn' (hk.of_part (.value .whole hkey))
              (hbuilds members[n].1 members[n].2 w (List.getElem_mem hn') hassigned)
              (hbase.trans (hl.trans (Nat.le_succ _))) (membersWithin_iff.mp hwithin _ (List.getElem_mem hn')) ?_
              (outside_cons hpath (hl.trans (Nat.le_succ _)) le_rfl (.inl (Nat.lt_succ_self _)))
            rw [List.length_cons]
            omega

end Wire

namespace Script

/-! ### A call of a function that gives its argument -/

/-- A global name that holds a function of a script, which gives its only argument and does nothing else. -/
def HoldsIdentity (scripts : Scripts) (r : Realm) (name : Units) : Prop :=
  ∃ ref number held text, r.get Intrinsic.global.ref (.name name) = .ok (.object ref) ∧
    (r.object ref).nature = .function (.scripted number held) text ∧
    r.get ref (.ofString "apply") = .ok Intrinsic.functionApply.value ∧
    ∀ v, scripts.call number held Intrinsic.global.value [v] = pure v

/-- The payload of a call with one argument. -/
def callPayload (name : Text) (node : Wire.Node) : Json :=
  jsonRecord [("name", .text name), ("args", .array [node.toJson])]

/-- The message of a call with one argument. -/
def callMessage (id name : Text) (node : Wire.Node) : Json :=
  jsonRecord [("type", .text (.ofString "call_prop")), ("event_id", .text id), ("payload", callPayload name node)]

variable {scripts : Scripts} {r r' : Realm}

theorem field_callPayload {name : Text} {node : Wire.Node} {first label : String} {j : Json}
    (h : (label, j) ∈ [("name", Json.text name), ("args", .array [node.toJson])]) :
    field (callPayload name node) first label = pure (some j) :=
  congrArg pure (find?_record ["name", "args"] rfl (by decide) h)

theorem gives_nameText (name : Text) (node : Wire.Node) :
    (nameText scripts (callPayload name node)).Gives r name.toUnits r := by
  rw [nameText, field_callPayload List.mem_cons_self]
  rfl

theorem gives_arguments (name : Text) (node : Wire.Node) :
    (field (callPayload name node) "name" "args").Gives r (some (.array [node.toJson])) r := by
  rw [field_callPayload (List.mem_cons_of_mem _ List.mem_cons_self)]
  rfl

theorem routine?_of_nature {ref : Ref} {routine : Routine} {text : Units}
    (h : (r.object ref).nature = .function routine text) :
    r.routine? ref = some (ref, routine) := by
  rw [Realm.routine?, Realm.steps, Realm.routineFrom?, h]

/-- The call of a function of a script. -/
theorem gives_invoke {ref : Ref} {number : Nat} {held arguments : List Value} {receiver v : Value} {text : Units}
    (hnature : (r.object ref).nature = .function (.scripted number held) text)
    (hcall : (scripts.call number held receiver arguments).Gives r v r') :
    (invoke scripts callDepth ref receiver arguments).Gives r v r' := by
  rw [show callDepth = 19999 + 1 from rfl, invoke]
  have hget : Run.Gives (get : Run Realm) r r r := rfl
  refine hget.bind ?_
  rw [routine?_of_nature hnature]
  exact hcall

/-- A call of a function that gives its argument comes to the node of the argument's value. -/
theorem gives_callGlobal {name : Text} {node answer : Wire.Node} {v : Value} (h : HoldsIdentity scripts r name.toUnits)
    (hdecode : (decode scripts node.toJson).Gives r v r') (hgrows : r.Grows r') (hencode : encode r' v = .ok answer) :
    (callGlobal scripts (callPayload name node)).Gives r answer r' := by
  obtain ⟨ref, number, held, _, hget, hnature, happly, hcall⟩ := h
  have hcallable : r.callable ref = true := by
    rw [Realm.callable, routine?_of_nature hnature]
    rfl
  have hlt : ref < r.objects.size := by
    by_contra hle
    rw [Realm.object, Array.getElem?_eq_none (Nat.not_lt.mp hle)] at hnature
    cases hnature
  have hinvoke : (invoke scripts callDepth ref Intrinsic.global.value [v]).Gives r' v r' := by
    refine gives_invoke ((hgrows.object ref hlt).symm ▸ hnature) ?_
    rw [hcall]
    exact Run.gives_pure v r'
  have harguments : (argumentValues scripts (some (.array [node.toJson]))).Gives r [v] r' := by
    rw [argumentValues, decodeItems, decodeItems, List.mapM_cons, List.mapM_nil]
    exact hdecode.bind ((Run.gives_pure _ _).bind (Run.gives_pure _ _))
  have hget' : Run.Gives (get : Run Realm) r r r := rfl
  rw [callGlobal]
  refine (gives_nameText name node).bind ((gives_arguments name node).bind ((Run.gives_look hget).bind ?_))
  refine hget'.bind ?_
  rw [hcallable]
  refine (Run.gives_look happly).bind (harguments.bind ?_)
  unfold applyGlobally
  rw [if_pos rfl]
  exact hinvoke.bind (Run.gives_look hencode)

/-- The text of the message of a call is the message as it arrives at the script. -/
theorem spells_callMessage {node : Wire.Node} (h : node.Within Wire.maxDepth) (id name : Text) :
    ∃ text, Json.write (.ofJson (callMessage id name node)) = .ok text ∧
      Json.Spells requestNesting text (callMessage id.join name.join node.joined) := by
  have hfits : Json.Fits requestNesting (callMessage id name node) := by
    refine Json.Fits.mono _ (show 2 * Wire.maxDepth + 1 + 3 ≤ requestNesting by decide) ?_
    exact ⟨trivial, trivial, ⟨trivial, ⟨Wire.fits_toJson node h, trivial⟩, trivial⟩, trivial⟩
  obtain ⟨text, hwrite, hspells⟩ := Json.write_ofJson _ hfits
  have hpayload : Json.retold .float (callPayload name node) = callPayload name.join node.joined := by
    rw [callPayload, Wire.retold_jsonRecord _ ["name", "args"] rfl (by decide) (by decide)]
    simp only [List.map_cons, List.map_nil, Json.retold, Json.retoldItems, Wire.retold_toJson]
    rfl
  have hmessage : Json.retold .float (callMessage id name node) = callMessage id.join name.join node.joined := by
    rw [callMessage, Wire.retold_jsonRecord _ ["type", "event_id", "payload"] rfl (by decide) (by decide)]
    simp only [List.map_cons, List.map_nil, Json.retold, hpayload, show (Text.ofString "call_prop").join =
      .ofString "call_prop" by decide]
    rfl
  exact ⟨text, hwrite, hmessage ▸ hspells⟩

/-- The message of a call can be written, and arrives at the script. -/
theorem read?_callMessage {node : Wire.Node} (h : node.Within Wire.maxDepth) (id name : Text) :
    ∃ text, Json.write (.ofJson (callMessage id name node)) = .ok text ∧
      Json.read? requestNesting text = some (callMessage id.join name.join node.joined) := by
  obtain ⟨text, hwrite, hspells⟩ := spells_callMessage h id name
  exact ⟨text, hwrite, hspells.read?⟩

/-- A call of a function that gives its argument is answered by the node of the argument's value. -/
theorem handle_callMessage (id name : Text) {node answer : Wire.Node} {v : Value}
    (h : HoldsIdentity scripts r name.toUnits) (hdecode : (decode scripts node.toJson).Gives r v r')
    (hgrows : r.Grows r') (hencode : encode r' v = .ok answer) :
    handle scripts (callMessage id name node) r =
      (some ((Reply.result answer).toJson (some (.text id))), r') := by
  have hcall : (callGlobal scripts (callPayload name node)).run r = (.ok answer, r') :=
    gives_callGlobal h hdecode hgrows hencode
  have hreply : replyTo scripts (.ofString "call_prop") (callPayload name node) r = (.result answer, r') := by
    rw [replyTo, show RequestType.ofName? (.ofString "call_prop") = some .callProp by decide]
    simp only [RequestType.run, hcall]
  have hpart {label : String} {j : Json} (hm : (label, j) ∈ [("type", Json.text (.ofString "call_prop")),
      ("event_id", .text id), ("payload", callPayload name node)]) :=
    find?_record ["type", "event_id", "payload"] rfl (by decide) hm
  have htext : (do textOf scripts callDepth (← fieldValue (some (.text (.ofString "call_prop")))) : Run Units).run r =
      (.ok (.ofString "call_prop"), r) := rfl
  rw [callMessage, jsonRecord, handle]
  simp only [hpart List.mem_cons_self, hpart (List.mem_cons_of_mem _ List.mem_cons_self),
    hpart (List.mem_cons_of_mem _ (List.mem_cons_of_mem _ List.mem_cons_self)), Option.getD_some]
  rw [htext]
  simp only [hreply]

/-- The answer to a call can be read, and gives the value that its node comes to. -/
theorem read?_reply {node : Wire.Node} (h : node.Within Wire.maxDepth) (id : Text) :
    ∃ j, Json.read? Json.nestingLimit (Json.compact ((Reply.result node).toJson (some (.text id)))) = some j ∧
      ∃ result, Answer.ofMessage? (.ofJson j) = some (.result result, .text id.join) ∧
        Wire.decode result = .ok node.received := by
  have hfits : Json.Fits Json.nestingLimit (answer "result" "result" node.toJson id) :=
    Json.Fits.mono _ (show 2 * Wire.maxDepth + 1 + 2 ≤ Json.nestingLimit by decide)
      (fits_answer (Wire.fits_toJson node h) id)
  have hretold : Json.retold Layout.script.rereads (answer "result" "result" node.toJson id) =
      answer "result" "result" (Json.retold Layout.script.rereads node.toJson) id.join :=
    retold_answer (by decide) (by decide) Layout.script.rereads node.toJson id
  refine ⟨_, (Json.spells_compact _ hfits).read?, .ofJson (Json.retold Layout.script.rereads node.toJson), ?_,
    Wire.decode_received node⟩
  have hpart {label : String} {j : Json} (hm : (label, j) ∈ [("type", Json.text (.ofString "result")),
      ("payload", jsonRecord [("result", Json.retold Layout.script.rereads node.toJson)]),
      ("event_id", .text id.join)]) :=
    lookup?_record ["type", "payload", "event_id"] rfl (by decide) hm
  have hresult := lookup?_record ["result"] (show [("result", Json.retold Layout.script.rereads node.toJson)].map
    Prod.fst = _ from rfl) (by decide) List.mem_cons_self
  rw [hretold, answer, jsonRecord, Host.Value.ofJson, Answer.ofMessage?, hpart List.mem_cons_self,
    hpart (List.mem_cons_of_mem _ List.mem_cons_self),
    hpart (List.mem_cons_of_mem _ (List.mem_cons_of_mem _ List.mem_cons_self)), jsonRecord, Host.Value.ofJson]
  simp only [Host.Value.ofJson, Host.Value.likeText?, Host.Value.text, Option.bind_eq_bind, Option.bind_some,
    Answer.ofPayload?, hresult, if_pos, Option.map_some]

/-- What is made for an accepted argument in an unspoilt realm. -/
theorem makes_argument (scripts : Scripts) {g : Host.Graph} {item : Host.Item} {node : Wire.Node}
    (h : Wire.Node.ofArgument g item = .ok node) (hr : r.Unspoilt) :
    node.Within Wire.maxDepth ∧ Wire.Arrives (g.value item) node.joined ∧
      ∃ v r', (decode scripts node.joined.toJson).Gives r v r' ∧ r'.Ready r.objects.size ∧ r.Grows r' ∧
        r'.Builds r.objects.size r'.objects.size node.joined v := by
  obtain ⟨hwithin, harrives⟩ := Wire.arrives_of_ofItem h (Wire.maxDepth_le_room _)
    (List.nil_subset _) (List.nil_subset _)
  exact ⟨hwithin, harrives, Realm.makes_decode _ harrives.buildable r hr.ready⟩

/-- An accepted argument whose keys are apart arrives as the value that it denotes, and a call of a function that gives
    its argument ends with the argument's norm, which holds no marker. The realm stays unspoilt. -/
theorem argument_comes_back {g : Host.Graph} {item : Host.Item} {node : Wire.Node}
    (hnode : Wire.Node.ofArgument g item = .ok node) (hkeys : (g.value item).KeysApart) (hr : r.Unspoilt) :
    (∃ text j v r', Json.write node.toValue = .ok text ∧ Json.read? requestNesting text = some j ∧
      (decode scripts j).run r = (.ok v, r') ∧ r'.Unspoilt ∧ r'.Denotes id (g.value item) v) ∧
    (∀ serial id name kind, HoldsIdentity scripts r name.toUnits →
      ∃ payload text message reply r' answer result,
        (Operation.callProp (.scalar (.text name kind)) [item]).payload g = .ok payload ∧
        Json.write (Request.toValue ⟨serial, id, .text (.ofString "call_prop"), payload⟩) = .ok text ∧
        Json.read? requestNesting text = some message ∧
        handle scripts message r = (some reply, r') ∧ r'.Unspoilt ∧
        Json.read? Json.nestingLimit (Json.compact reply) = some answer ∧
        Answer.ofMessage? (.ofJson answer) = some (.result result, .text id.join) ∧
        (Operation.callProp (.scalar (.text name kind)) [item]).value result = .ok (g.value item).norm) ∧
    ¬ (g.value item).norm.Part (.scalar .marker) := by
  obtain ⟨hwithin, harrives, v, r', hgives, hready, hgrows, hbuilds⟩ := makes_argument scripts hnode hr
  refine ⟨?_, fun serial id name kind hidentity => ?_, harrives.unmarked hkeys⟩
  · obtain ⟨text, hwrite, hread⟩ := Wire.read?_joined hwithin
    exact ⟨text, _, v, r', hwrite, hread, hgives, hr.of_grows hgrows,
      (harrives.denotes hbuilds hready le_rfl).of_keysApart hkeys⟩
  · -- What was built is data, so its node comes to its unfolding, which is the norm.
    obtain ⟨answer, hencode, hanswer, hunfolds⟩ := encodeWithin_unfolded (List.length_nil ▸ Nat.zero_add Wire.maxDepth)
      (hbuilds.isData hready le_rfl harrives.buildable)
    have hnorm : answer.received = (g.value item).norm :=
      hunfolds.unique (harrives.unfolds hkeys hbuilds hready le_rfl (Wire.within_joined node hwithin) rfl
        (List.forall_mem_nil _))
    obtain ⟨text, hwrite, hread⟩ := read?_callMessage hwithin id name
    have hhandle := handle_callMessage id.join name.join ((Text.toUnits_join name).symm ▸ hidentity) hgives hgrows
      hencode
    obtain ⟨j, hreply, result, hmessage, hdecode⟩ := read?_reply hanswer id.join
    rw [Text.join_join] at hmessage
    have hvalue : .ofJson (callMessage id name node) = Request.toValue ⟨serial, id, .text (.ofString "call_prop"),
        Operation.record [("name", .text name), ("args", .sequence .list [node.toValue])]⟩ := by
      rw [← Wire.ofJson_toJson node]
      rfl
    refine ⟨_, text, _, _, r', j, result, ?_, hvalue ▸ hwrite, hread, hhandle, hr.of_grows hgrows, hreply, hmessage, ?_⟩
    · rw [Operation.payload, List.mapM_cons, hnode]
      rfl
    · rw [Operation.value, hdecode, hnorm]
      simp

/-- A context in which a script has assigned a function that gives its argument to a global name. -/
def echoing : Realm :=
  ((Realm.initial.add (Sample.firstArgument.object [])).2).define Intrinsic.global.ref
    (Realm.ordinary (.ofString "echo") (.object Realm.initial.objects.size))

/-- Scripts whose functions are samples, and whose sources give nothing. -/
def samples : Scripts := Sample.scripts (fun _ _ => return .undefined) 1

theorem unspoilt_echoing : echoing.Unspoilt :=
  (Realm.unspoilt_initial.of_grows (Realm.grows_add _ _)).define_global rfl (by decide)

theorem holdsIdentity_echoing : HoldsIdentity samples echoing (.ofString "echo") :=
  ⟨Realm.initial.objects.size, Sample.firstArgument.number, [], Sample.sourceText, by decide +kernel, by decide +kernel,
    by decide +kernel, fun _ => rfl⟩

/-- A tuple of a negative zero, a smile in two surrogates in an object that wraps it, and a mapping. -/
def offered : Host.Graph where
  objects := #[.sequence .tuple [.scalar (.float (.signed true 0) none), .scalar (.text [0xD83D, 0xDE00] .wrapped),
    .object 1], .mapping .ordered [(.text (.ofString "b"), .scalar .none), (.text (.ofString "a"), .scalar (.bool true))]]

theorem value_offered : offered.value (.object 0) = .sequence .tuple [.float (.signed true 0),
    .scalar (.text [0xD83D, 0xDE00] .wrapped), .mapping .ordered [(.text (.ofString "b"), .none),
      (.text (.ofString "a"), .scalar (.bool true))]] := rfl

theorem keysApart_offered : (offered.value (.object 0)).KeysApart := by
  rw [value_offered]
  refine Host.Value.keysApart_sequence fun item hm => ?_
  simp only [List.mem_cons, List.not_mem_nil, or_false] at hm
  rcases hm with rfl | rfl | rfl
  · exact Host.Value.keysApart_scalar _
  · exact Host.Value.keysApart_scalar _
  · refine Host.Value.keysApart_mapping ⟨by decide, by decide⟩ fun entry hm => ?_
    simp only [List.mem_cons, List.not_mem_nil, or_false] at hm
    rcases hm with rfl | rfl <;> exact Host.Value.keysApart_scalar _

/-- The tuple comes back as a list, the zero without its sign, and the smile in one piece. -/
theorem offered_comes_back : ∃ node, Wire.Node.ofArgument offered (.object 0) = .ok node ∧
    (offered.value (.object 0)).KeysApart ∧ echoing.Unspoilt ∧ HoldsIdentity samples echoing (.ofString "echo") ∧
    ∃ payload text message reply r' answer result,
      (Operation.callProp (.scalar (.text (.ofString "echo") .plain)) [.object 0]).payload offered = .ok payload ∧
      Json.write (Request.toValue ⟨0, .ofString "id", .text (.ofString "call_prop"), payload⟩) = .ok text ∧
      Json.read? requestNesting text = some message ∧
      handle samples message echoing = (some reply, r') ∧
      Json.read? Json.nestingLimit (Json.compact reply) = some answer ∧
      Answer.ofMessage? (.ofJson answer) = some (.result result, .text (.ofString "id")) ∧
      (Operation.callProp (.scalar (.text (.ofString "echo") .plain)) [.object 0]).value result =
        .ok (.sequence .list [.float (.signed false 0), .text [0x1F600],
          .mapping .dict [(.text (.ofString "b"), .none), (.text (.ofString "a"), .scalar (.bool true))]]) := by
  have hnode : Wire.Node.ofArgument offered (.object 0) = .ok (.array [.number (.signed true 0),
      .string [0xD83D, 0xDE00], .object [(.ofString "b", .null), (.ofString "a", .boolean true)]]) := rfl
  have hnorm : (offered.value (.object 0)).norm = .sequence .list [.float (.signed false 0), .text [0x1F600],
      .mapping .dict [(.text (.ofString "b"), .none), (.text (.ofString "a"), .scalar (.bool true))]] := by
    have hentries : Host.normEntries [(.text (.ofString "b"), .none), (.text (.ofString "a"), .scalar (.bool true))] =
        [(.ofString "b", .none), (.ofString "a", .scalar (.bool true))] := rfl
    have hmapping : (Host.Value.mapping .ordered [(.text (.ofString "b"), .none),
        (.text (.ofString "a"), .scalar (.bool true))]).norm =
        .mapping .dict [(.text (.ofString "b"), .none), (.text (.ofString "a"), .scalar (.bool true))] := by
      rw [Host.Value.norm, hentries, inPropertyOrder_of_no_index (by decide) (by decide)]
      rfl
    have hzero : Double.clearZeroSign (.signed true 0) = .signed false 0 := by decide
    have hsmile : Text.join [0xD83D, 0xDE00] = [0x1F600] := by decide
    rw [value_offered, Host.Value.norm, Host.normItems, Host.normItems, Host.normItems, hmapping, Host.normItems]
    simp only [Host.Value.float, Host.Value.text, Host.Value.norm, Host.Scalar.norm, hzero, hsmile]
  obtain ⟨payload, text, message, reply, r', answer, result, hpayload, hwrite, hread, hhandle, -, hreply, hmessage,
    hvalue⟩ := (argument_comes_back hnode keysApart_offered unspoilt_echoing).2.1 0 (.ofString "id") (.ofString "echo")
      .plain holdsIdentity_echoing
  exact ⟨_, hnode, keysApart_offered, unspoilt_echoing, holdsIdentity_echoing, payload, text, message, reply, r', answer,
    result, hpayload, hwrite, hread, hhandle, hreply, hmessage, hnorm ▸ hvalue⟩

end Script

end ScriptLink
