import ScriptLink.Proofs.LiveCall
import ScriptLink.Proofs.Trees

/-! # Values of scripts that go back

    What the caller gets for a value of a script is in the form that a crossing gives to values: plain classes, floats
    without a sign of zero, joined texts, and keys in the order of properties. If nothing in it is the marker, it can
    be passed on, and another crossing changes nothing: `Value.Image.norm_eq`. Main statement: a function that gives
    its argument gives it back as it is. -/

namespace ScriptLink
open Script (inOrder prototypeName inPropertyOrder assignedMembers)

/-! ### The form that a crossing gives -/

namespace Host

/-- What the caller gets for values of scripts that the marker does not stand in, with room for so many containers
    inside each other. -/
inductive Value.Image : Nat → Value → Prop
  | none {room : Nat} : Image room .none
  | bool {room : Nat} (b : Bool) : Image room (.scalar (.bool b))
  | float {room : Nat} {d : Double} : d.clearZeroSign = d → Image room (.float d)
  | text {room : Nat} (us : Units) : Image room (.text us.toText)
  | list {room : Nat} {items : List Value} : (∀ item ∈ items, Image room item) → Image (room + 1) (.sequence .list items)
  | dict {room : Nat} {members : List (Units × Value)} : inOrder (members.map Prod.fst) = members.map Prod.fst →
      (members.map Prod.fst).Nodup → prototypeName ∉ members.map Prod.fst → (∀ member ∈ members, Image room member.2) →
      Image (room + 1) (.mapping .dict (members.map fun member => (.text member.1.toText, member.2)))

variable {room : Nat} {v w : Value}

theorem texts_named {α : Type} (members : List (Units × α)) :
    texts (members.map fun member => (Value.text member.1.toText, member.2)) =
      members.map fun member => (member.1.toText, member.2) := by
  induction members with
  | nil => rfl
  | cons member rest ih => rw [List.map_cons, texts_cons rfl, ih, List.map_cons]

/-- Names that stand in the order of properties are left there. -/
theorem inPropertyOrder_of_inOrder {members : List (Units × Value)}
    (hordered : inOrder (members.map Prod.fst) = members.map Prod.fst) (hdistinct : (members.map Prod.fst).Nodup) :
    inPropertyOrder members = members := by
  rw [inPropertyOrder, hordered, List.filterMap_map]
  conv_rhs => rw [← List.filterMap_some (l := members)]
  exact List.filterMap_congr fun member hm => Members.find?_of_distinct hdistinct hm

namespace Value.Image

/-- A crossing changes nothing in what has crossed before. -/
theorem norm_eq (h : v.Image room) : v.norm = v := by
  induction h with
  | none | bool => rfl
  | float hd => simp only [Value.float, norm, Scalar.norm, hd]
  | text us => simp only [Value.text, norm, Scalar.norm, Text.join_toText]
  | @list room items _ ih =>
    rw [norm, normItems_eq]
    exact congrArg _ ((List.map_congr_left ih).trans (List.map_id' items))
  | @dict room members hordered hdistinct _ _ ih =>
    have hentries : normEntries (members.map fun member => (Value.text member.1.toText, member.2)) = members := by
      rw [normEntries_eq, texts_named, List.map_map]
      refine (List.map_congr_left fun member hm => ?_).trans (List.map_id members)
      rw [Function.comp_apply, Text.toUnits_toText, ih member hm]
      rfl
    rw [norm, hentries, inPropertyOrder_of_inOrder hordered hdistinct]

theorem tree (h : v.Image room) : v.Tree room := by
  induction h with
  | none | bool | float | text => exact .scalar _
  | list _ ih => exact .sequence ih
  | dict _ _ _ _ ih =>
    refine .mapping fun entry hm => ?_
    obtain ⟨member, hmember, rfl⟩ := List.mem_map.mp hm
    exact ih member hmember

theorem of_mapping {kind : MappingKind} {entries : List (Value × Value)} (h : (mapping kind entries).Image room) :
    ∃ below, ∃ members : List (Units × Value),
      entries = members.map (fun member => (.text member.1.toText, member.2)) ∧ (members.map Prod.fst).Nodup ∧
      prototypeName ∉ members.map Prod.fst ∧ ∀ member ∈ members, member.2.Image below := by
  generalize he : mapping kind entries = value at h
  cases h with
  | none | bool | float | text | list => cases he
  | dict _ hdistinct hprototype hmembers =>
    cases he
    exact ⟨_, _, rfl, hdistinct, hprototype, hmembers⟩

theorem of_part (h : v.Image room) (hw : v.Part w) : ∃ below, w.Image below := by
  induction hw with
  | whole => exact ⟨room, h⟩
  | item _ hm ih =>
    obtain ⟨below, himage⟩ := ih
    cases himage with
    | list hitems => exact ⟨_, hitems _ hm⟩
  | value _ hm ih =>
    obtain ⟨_, himage⟩ := ih
    obtain ⟨below, members, rfl, -, -, hmembers⟩ := himage.of_mapping
    obtain ⟨member, hmember, he⟩ := List.mem_map.mp hm
    cases he
    exact ⟨below, hmembers member hmember⟩

theorem passable (h : v.Image Wire.maxDepth) : v.Passable where
  tree := h.tree
  scalars s hpart := by
    obtain ⟨below, himage⟩ := h.of_part hpart
    cases himage <;> trivial
  keys kind entries hpart entry hentry := by
    obtain ⟨below, himage⟩ := h.of_part hpart
    obtain ⟨-, members, rfl, -⟩ := himage.of_mapping
    obtain ⟨member, -, rfl⟩ := List.mem_map.mp hentry
    rfl

theorem keysApart (h : v.Image room) : v.KeysApart := by
  intro kind entries hpart
  obtain ⟨below, himage⟩ := h.of_part hpart
  obtain ⟨-, members, rfl, hdistinct, hprototype, -⟩ := himage.of_mapping
  rw [texts_named]
  refine ⟨fun hm => hprototype ?_, ?_⟩
  · simp only [List.map_map, List.mem_map, Function.comp_apply] at hm
    obtain ⟨member, hmember, hname⟩ := hm
    rw [← Members.toUnits_eq_prototypeName, Text.toUnits_toText] at hname
    exact hname ▸ List.mem_map_of_mem hmember
  · have hnames : (members.map fun member => (member.1.toText, member.2)).map (fun entry => entry.1.join) =
        (members.map Prod.fst).map Units.toText := by simp [Text.join_toText]
    rw [hnames]
    exact hdistinct.map Text.toText_injective

theorem keysDistinct (h : v.Image room) : v.KeysDistinct := by
  intro kind entries hpart
  have hnames : (texts entries).map (fun entry => entry.1.join) = ((texts entries).map Prod.fst).map Text.join := by
    rw [List.map_map]
    rfl
  have hjoined := (h.keysApart kind entries hpart).distinct
  rw [hnames] at hjoined
  exact hjoined.of_map

end Value.Image

end Host

/-! ### What the caller gets is in this form -/

namespace Script
variable {r : Realm} {ref : Ref} {path : List Ref} {v : Value} {value : Host.Value} {room : Nat}

theorem Realm.inOrder_keys {names : List Units} (h : r.keys ref = .ok names) : inOrder names = names := by
  have from_ (steps : Nat) (ref : Ref) (names : List Units) (h : r.keysFrom steps ref = .ok names) :
      inOrder names = names := by
    induction steps generalizing ref with
    | zero =>
      cases h
      exact inOrder_of_no_index (List.forall_mem_nil _)
    | succ steps ih =>
      rw [Realm.keysFrom] at h
      split at h
      · cases h
      · exact ih _ h
      · cases h
        exact inOrder_inOrder _
  exact from_ _ _ _ h

/-- Without the marker, what the caller gets is in the form of a crossing. -/
theorem Realm.Receives.image (hr : r.WellKeyed) (h : r.Receives assignedMembers path v value)
    (hplain : ¬ value.Part (.scalar .marker)) (hroom : path.length + room = Wire.maxDepth) : value.Image room := by
  induction h generalizing room with
  | primitive hv h =>
    cases h with
    | undefined | null => exact .none
    | boolean b => exact .bool b
    | number d => exact .float (Double.clearZeroSign_idem d)
    | string us => exact .text us
    | symbol | bigint | other | again | beyond => exact absurd .whole hplain
    | array | record => exact absurd rfl (hv _)
  | marker => exact absurd .whole hplain
  | array _ hpath _ hlength _ ih =>
    obtain ⟨below, rfl⟩ : ∃ below, room = below + 1 := ⟨room - 1, by omega⟩
    refine .list fun item hm => ?_
    obtain ⟨n, hn, rfl⟩ := List.mem_iff_getElem.mp hm
    refine ih n (hlength ▸ hn) hn (fun hpart => hplain (Host.Value.Part.trans (.item .whole hm) hpart)) ?_
    rw [List.length_cons]
    omega
  | @object path ref members values _ hpath hreads hlength _ ih =>
    obtain ⟨below, rfl⟩ : ∃ below, room = below + 1 := ⟨room - 1, by omega⟩
    -- The entries are named by the members that are kept, in the order of the object's own keys.
    set named := List.zipWith (fun member value => (member.1, value)) (assignedMembers members) values with hnamed
    have hentries : List.zipWith (fun member value => (Host.Value.text member.1.toText, value)) (assignedMembers members)
        values = named.map fun member => (.text member.1.toText, member.2) := by rw [hnamed, List.map_zipWith]
    have hnames : named.map Prod.fst = (members.map Prod.fst).filter fun name => name ≠ prototypeName := by
      refine List.ext_getElem ?_ fun n hn hn' => ?_
      · simp [hnamed, hlength, assignedMembers, List.filter_map, Function.comp_def]
      · simp [hnamed, assignedMembers, List.filter_map, Function.comp_def]
    rw [hentries] at hplain ⊢
    refine .dict ?_ ?_ ?_ fun member hm => ?_
    · rw [hnames, inOrder_filter_ne Realm.indexOf?_prototypeName, Realm.inOrder_keys hreads.keys]
    · rw [hnames]
      exact (hr.nodup_keys hreads.keys).filter _
    · rw [hnames]
      simp
    · have hpart : (Host.Value.mapping .dict (named.map fun member => (.text member.1.toText, member.2))).Part member.2 :=
        .value .whole (List.mem_map_of_mem (f := fun member : Units × Host.Value => (_, member.2)) hm)
      obtain ⟨n, hn, rfl⟩ := List.mem_iff_getElem.mp hm
      have hn' : n < values.length := by
        simp only [hnamed, List.length_zipWith] at hn
        omega
      simp only [hnamed, List.getElem_zipWith] at hpart ⊢
      refine ih n (hlength ▸ hn') hn' (fun hmarker => hplain (hpart.trans hmarker)) ?_
      rw [List.length_cons]
      omega

end Script

/-! ### The way there and back -/

namespace Live
variable {scripts : Script.Scripts} {live : Live} {g : Host.Graph} {item : Host.Item} {node : Wire.Node} {name : Text}

/-- A function that gives its argument gives the argument's norm, and everything is as it was before the call. -/
theorem perform_echo (h : live.AtRest) (hr : live.realm.Unspoilt) (hnode : Wire.Node.ofArgument g item = .ok node)
    (hkeys : (g.value item).KeysApart) (hidentity : Script.HoldsIdentity scripts live.realm name.toUnits)
    (kind : Host.TextKind) :
    ∃ live', live.perform scripts g (.callProp (.scalar (.text name kind)) [item]) =
        (some (.ok (g.value item).norm), live') ∧ live'.AtRest ∧ live'.realm.Unspoilt := by
  obtain ⟨hwithin, harrives, v, r', hgives, hready, hgrows, hbuilds⟩ := Script.makes_argument scripts hnode hr
  -- What was built is data, so its node comes to its unfolding, which is the norm.
  obtain ⟨answer, hencode, hanswer, hunfolds⟩ := Script.encodeWithin_unfolded
    (List.length_nil ▸ Nat.zero_add Wire.maxDepth) (hbuilds.isData hready le_rfl harrives.buildable)
  have hnorm : answer.received = (g.value item).norm :=
    hunfolds.unique (harrives.unfolds hkeys hbuilds hready le_rfl (Wire.within_joined node hwithin) rfl
      (List.forall_mem_nil _))
  have hpayload : (Operation.callProp (.scalar (.text name kind)) [item]).payload g =
      .ok (Operation.record [("name", .text name), ("args", .sequence .list [node.toValue])]) := by
    rw [Operation.payload, List.mapM_cons, hnode]
    rfl
  set id := live.session.ids live.session.requests with hid
  have hvalue : .ofJson (Script.callMessage id name node) =
      (live.nextRequest (.callProp (.scalar (.text name kind)) [item])
        (Operation.record [("name", .text name), ("args", .sequence .list [node.toValue])])).toValue := by
    rw [← Wire.ofJson_toJson node]
    rfl
  obtain ⟨text, hwrite, hspells⟩ := Script.spells_callMessage hwithin id name
  have hhandle := Script.handle_callMessage id.join name.join ((Text.toUnits_join name).symm ▸ hidentity) hgives hgrows
    hencode
  rw [hid, h.ids, ← hid] at hspells hhandle
  obtain ⟨s', hperform, hrest⟩ := perform_replied h hpayload (hvalue ▸ hwrite) hspells hhandle hanswer
  refine ⟨⟨s', r'⟩, hperform.trans ?_, hrest, hr.of_grows hgrows⟩
  simp [Script.Reply.outcome, Except.bind, Operation.value, Wire.decode_received, hnorm]

end Live

namespace Script

/-- Where the marker stands nowhere in what the caller gets for a value of a script, it can go back: it stands in some
    graph, wherever it stands it is accepted as an argument, and a function that gives its argument gives it back as
    it is. -/
theorem image_comes_back (scripts : Scripts) {r : Realm} {v : Value} {node : Wire.Node} (hr : r.WellKeyed)
    (hencode : encode r v = .ok node) :
    ∃ j value, Json.read? Json.nestingLimit (Json.compact node.toJson) = some j ∧
      Wire.decode (.ofJson j) = .ok value ∧
      (¬ value.Part (.scalar .marker) →
        (∃ g item, Host.Graph.KeysDistinct g ∧ g.value item = value) ∧
        ∀ g item, Host.Graph.value g item = value →
          (∃ argument, Wire.Node.ofArgument g item = .ok argument) ∧
          ∀ (live : Live) (name : Text) (kind : Host.TextKind), live.AtRest → live.realm.Unspoilt →
            HoldsIdentity scripts live.realm name.toUnits →
            ∃ live', live.perform scripts g (.callProp (.scalar (.text name kind)) [item]) =
                (some (.ok value), live') ∧ live'.AtRest ∧ live'.realm.Unspoilt) := by
  have hroom : ([] : List Ref).length + Wire.maxDepth = Wire.maxDepth := Nat.zero_add _
  obtain ⟨hwithin, hreceives⟩ := receives_of_encodeWithin hr hroom hencode
  obtain ⟨j, hread, hdecode⟩ := Wire.read?_received hwithin
  refine ⟨j, node.received, hread, hdecode, fun hplain => ?_⟩
  have himage : node.received.Image Wire.maxDepth := hreceives.image hr hplain hroom
  refine ⟨Host.exists_graph himage.tree himage.keysDistinct, fun g item hvalue => ?_⟩
  rw [← hvalue] at himage
  obtain ⟨argument, hargument⟩ := Wire.ofArgument_iff_acceptable.mpr (Host.acceptable_of_value himage.passable)
  refine ⟨⟨argument, hargument⟩, fun live name kind hrest hunspoilt hidentity => ?_⟩
  rw [← hvalue, ← himage.norm_eq]
  exact live.perform_echo hrest hunspoilt hargument himage.keysApart hidentity kind

/-- A live session whose script has assigned a function that gives its argument to a global name. -/
def echo : Live := ⟨.resting, echoing⟩

theorem atRest_echo : echo.AtRest where
  session := Session.atRest_resting
  unfinished := rfl
  ids n := (Text.IsGraphic.ofNat n).join_eq

theorem plain_object_comes_back : strewn.WellKeyed ∧ encode strewn (.object 0) = .ok (.object [(.ofString "a", .null)]) ∧
    ∃ g item live', Host.Graph.value g item = .mapping .dict [(.text (.ofString "a"), .none)] ∧
      echo.perform samples g (.callProp (.scalar (.text (.ofString "echo") .plain)) [item]) =
        (some (.ok (.mapping .dict [(.text (.ofString "a"), .none)])), live') := by
  obtain ⟨j, value, hread, hdecode, hback⟩ := image_comes_back samples wellKeyed_strewn encode_strewn
  have hwithin : (Wire.Node.object [(.ofString "a", .null)]).Within Wire.maxDepth := ⟨trivial, trivial⟩
  obtain ⟨j', hread', hdecode'⟩ := Wire.read?_received hwithin
  obtain rfl := Option.some.inj (hread'.symm.trans hread)
  obtain rfl : .mapping .dict [(.text (.ofString "a"), .none)] = value := Except.ok.inj (hdecode'.symm.trans hdecode)
  have hplain : ¬ (Host.Value.mapping .dict [(.text (.ofString "a"), .none)]).Part (.scalar .marker) := by
    intro hpart
    rcases hpart.of_mapping with he | ⟨entry, hm, hpart⟩
    · cases he
    · obtain rfl := List.mem_singleton.mp hm
      cases hpart.of_scalar
  obtain ⟨⟨g, item, -, hvalue⟩, hall⟩ := hback hplain
  obtain ⟨live', hperform, -, -⟩ := (hall g item hvalue).2 echo (.ofString "echo") .plain atRest_echo unspoilt_echoing
    holdsIdentity_echoing
  exact ⟨wellKeyed_strewn, encode_strewn, g, item, live', hvalue, hperform⟩

end Script

end ScriptLink
