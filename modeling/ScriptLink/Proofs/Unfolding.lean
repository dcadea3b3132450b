import ScriptLink.Proofs.Crossing
import ScriptLink.Proofs.Objects

/-! # What a script's value comes to

    A value of a script is a graph: of arrays, of plain objects, of scalars and of other things, in which anything can
    be shared and can lead back to where it came from. `Unfolds` says what the caller gets for it: its unfolding into a
    tree, with the marker in place of all that is none of these, of whatever stands inside itself, and of whatever
    stands below `maxDepth` containers. Main statement: the caller gets for a graph of data its unfolding, and nothing
    else. -/

namespace ScriptLink.Script

namespace Realm

/-! ### Arrays, plain objects and other things -/

/-- Whether a value is what stands under a name of an object: in a data property, or nothing at all. -/
inductive Holds (r : Realm) (ref : Ref) (name : Units) : Value → Prop
  | hole : r.find ref (.name name) = .ok none → Holds r ref name .undefined
  | data {owner : Ref} {property : Property} {v : Value} : r.find ref (.name name) = .ok (some (owner, property)) →
      property.slot = .value v → Holds r ref name v

/-- An array with these elements, holes among them being undefined. -/
structure IsArray (r : Realm) (ref : Ref) (elements : List Value) : Prop where
  isArray : r.isArray ref = .ok true
  length : r.lengthOf ref = .ok elements.length
  holds : ∀ n (h : n < elements.length), r.Holds ref (nameOfIndex n) elements[n]

/-- A plain object with these members: its own enumerable properties with names, each a data property. -/
structure IsRecord (r : Realm) (ref : Ref) (members : List (Units × Value)) : Prop where
  callable : r.callable ref = false
  isArray : r.isArray ref = .ok false
  tag : r.tagOf ref = .ok (.ofString "Object")
  keys : r.keys ref = .ok (members.map Prod.fst)
  distinct : (members.map Prod.fst).Nodup
  holds : ∀ member ∈ members, r.Holds ref member.1 member.2

/-- A function, or an object of another tag than that of plain objects. -/
def IsOther (r : Realm) (ref : Ref) : Prop :=
  r.callable ref = true ∨ r.isArray ref = .ok false ∧ ∃ tag, r.tagOf ref = .ok tag ∧ tag ≠ .ofString "Object"

/-- Whether a value stands somewhere in the graph below a value. -/
inductive Reaches (r : Realm) (v : Value) : Value → Prop
  | refl : Reaches r v v
  | element {ref : Ref} {elements : List Value} {w : Value} : Reaches r v (.object ref) → r.IsArray ref elements →
      w ∈ elements → Reaches r v w
  | member {ref : Ref} {members : List (Units × Value)} {name : Units} {w : Value} : Reaches r v (.object ref) →
      r.IsRecord ref members → (name, w) ∈ members → Reaches r v w

/-- A graph of data: arrays, plain objects without a member under the name of the prototype, scalars, and other
    things. -/
def IsData (r : Realm) (v : Value) : Prop :=
  ∀ ref, r.Reaches v (.object ref) →
    (∃ elements, r.IsArray ref elements) ∨
      (∃ members, r.IsRecord ref members ∧ prototypeName ∉ members.map Prod.fst) ∨ r.IsOther ref

/-- The caller's value for a value that stands below the containers of `path`. -/
inductive Unfolds (r : Realm) : (path : List Ref) → Value → Host.Value → Prop
  | undefined {path : List Ref} : Unfolds r path .undefined .none
  | null {path : List Ref} : Unfolds r path .null .none
  | boolean {path : List Ref} (b : Bool) : Unfolds r path (.boolean b) (.scalar (.bool b))
  | number {path : List Ref} (d : Double) : Unfolds r path (.number d) (.float d.clearZeroSign)
  | string {path : List Ref} (us : Units) : Unfolds r path (.string us) (.text us.toText)
  | symbol {path : List Ref} (s : Symbol) : Unfolds r path (.symbol s) (.scalar .marker)
  | bigint {path : List Ref} (n : Int) : Unfolds r path (.bigint n) (.scalar .marker)
  | other {path : List Ref} {ref : Ref} : r.IsOther ref → Unfolds r path (.object ref) (.scalar .marker)
  | again {path : List Ref} {ref : Ref} : ref ∈ path → Unfolds r path (.object ref) (.scalar .marker)
  | beyond {path : List Ref} {ref : Ref} : Wire.maxDepth ≤ path.length →
      Unfolds r path (.object ref) (.scalar .marker)
  | array {path : List Ref} {ref : Ref} {elements : List Value} {items : List Host.Value} : ref ∉ path →
      path.length < Wire.maxDepth → r.IsArray ref elements → items.length = elements.length →
      (∀ n (h : n < elements.length) (h' : n < items.length), Unfolds r (ref :: path) elements[n] items[n]) →
      Unfolds r path (.object ref) (.sequence .list items)
  | record {path : List Ref} {ref : Ref} {members : List (Units × Value)} {values : List Host.Value} : ref ∉ path →
      path.length < Wire.maxDepth → r.IsRecord ref members → values.length = members.length →
      (∀ n (h : n < members.length) (h' : n < values.length), Unfolds r (ref :: path) members[n].2 values[n]) →
      Unfolds r path (.object ref)
        (.mapping .dict (List.zipWith (fun member value => (.text member.1.toText, value)) members values))

/-! ### A value has one unfolding -/

variable {r : Realm} {ref : Ref} {path : List Ref} {v w : Value}

theorem Holds.get {name : Units} (h : r.Holds ref name v) : r.get ref (.name name) = .ok v := by
  cases h with
  | hole hf => simp only [Realm.get, hf]
  | data hf hs => simp only [Realm.get, hf, hs, Realm.read]

theorem routineFrom?_of_isArrayFrom {steps : Nat} (h : r.isArrayFrom steps ref = .ok true) :
    r.routineFrom? steps ref = none := by
  induction steps generalizing ref with
  | zero => rfl
  | succ steps ih =>
    rw [isArrayFrom] at h
    rw [routineFrom?]
    cases hn : (r.object ref).nature with
    | proxy target =>
      rw [hn] at h
      cases target with
      | none => cases h
      | some target => exact ih h
    | function routine =>
      rw [hn] at h
      cases h
    | _ => rfl

/-- An array cannot be called. -/
theorem callable_of_isArray (h : r.isArray ref = .ok true) : r.callable ref = false := by
  rw [Realm.callable, Realm.routine?, routineFrom?_of_isArrayFrom h]
  rfl

/-- An array, or a proxy of one, with what is read as its elements. -/
structure ReadsElements (r : Realm) (ref : Ref) (elements : List Value) : Prop where
  isArray : r.isArray ref = .ok true
  length : r.lengthOf ref = .ok elements.length
  get : ∀ n (h : n < elements.length), r.get ref (.name (nameOfIndex n)) = .ok elements[n]

/-- A plain object with what is read as its members: its own enumerable properties with names. -/
structure ReadsMembers (r : Realm) (ref : Ref) (members : List (Units × Value)) : Prop where
  callable : r.callable ref = false
  isArray : r.isArray ref = .ok false
  tag : r.tagOf ref = .ok (.ofString "Object")
  keys : r.keys ref = .ok (members.map Prod.fst)
  get : ∀ member ∈ members, r.get ref (.name member.1) = .ok member.2

variable {elements elements' : List Value} {members members' : List (Units × Value)}

theorem IsArray.reads (h : r.IsArray ref elements) : r.ReadsElements ref elements :=
  ⟨h.isArray, h.length, fun n hn => (h.holds n hn).get⟩

theorem IsRecord.reads (h : r.IsRecord ref members) : r.ReadsMembers ref members :=
  ⟨h.callable, h.isArray, h.tag, h.keys, fun member hm => (h.holds member hm).get⟩

theorem ReadsElements.unique (h : r.ReadsElements ref elements) (h' : r.ReadsElements ref elements') :
    elements = elements' := by
  refine List.ext_getElem (Except.ok.inj (h.length.symm.trans h'.length)) fun n hn hn' => ?_
  exact Except.ok.inj ((h.get n hn).symm.trans (h'.get n hn'))

theorem ReadsMembers.unique (h : r.ReadsMembers ref members) (h' : r.ReadsMembers ref members') :
    members = members' := by
  have hnames := Except.ok.inj (h.keys.symm.trans h'.keys)
  have hlength : members.length = members'.length := by simpa using congrArg List.length hnames
  refine List.ext_getElem hlength fun n hn hn' => ?_
  have hname : members[n].1 = members'[n].1 := by
    have := List.getElem_of_eq hnames (i := n) (by simpa using hn)
    simpa using this
  have hvalue := h.get _ (List.getElem_mem hn)
  rw [hname, h'.get _ (List.getElem_mem hn')] at hvalue
  exact Prod.ext hname (Except.ok.inj hvalue).symm

theorem ReadsElements.not_readsMembers (h : r.ReadsElements ref elements) (h' : r.ReadsMembers ref members) :
    False := by
  have := h.isArray.symm.trans h'.isArray
  cases this

theorem ReadsElements.not_isOther (h : r.ReadsElements ref elements) (h' : r.IsOther ref) : False := by
  rcases h' with hc | ⟨ha, -⟩
  · rw [callable_of_isArray h.isArray] at hc
    cases hc
  · have := h.isArray.symm.trans ha
    cases this

theorem ReadsMembers.not_isOther (h : r.ReadsMembers ref members) (h' : r.IsOther ref) : False := by
  rcases h' with hc | ⟨-, tag, ht, hne⟩
  · rw [h.callable] at hc
    cases hc
  · exact hne (Except.ok.inj (ht.symm.trans h.tag))

theorem ReadsElements.partsOf (h : r.ReadsElements ref elements) :
    r.partsOf ref = .ok (.elements elements.length) := by
  simp only [Realm.partsOf, h.isArray, h.length, bind, Except.bind, pure, Except.pure, if_true]

theorem ReadsMembers.partsOf (h : r.ReadsMembers ref members) : r.partsOf ref = .ok (.members (members.map Prod.fst)) := by
  simp only [Realm.partsOf, h.isArray, h.tag, h.keys, bind, Except.bind, pure, Except.pure, Bool.false_eq_true,
    if_false, if_true]

theorem IsArray.unique (h : r.IsArray ref elements) (h' : r.IsArray ref elements') : elements = elements' :=
  h.reads.unique h'.reads

theorem IsRecord.unique (h : r.IsRecord ref members) (h' : r.IsRecord ref members') : members = members' :=
  h.reads.unique h'.reads

/-- No value has two unfoldings. -/
theorem Unfolds.unique {value value' : Host.Value} (h : r.Unfolds path v value) (h' : r.Unfolds path v value') :
    value = value' := by
  induction h generalizing value' with
  | undefined | null | boolean | number | string | symbol | bigint => cases h'; rfl
  | other ho =>
    cases h' with
    | other | again | beyond => rfl
    | array _ _ ha => exact (ha.reads.not_isOther ho).elim
    | record _ _ hr => exact (hr.reads.not_isOther ho).elim
  | again hp =>
    cases h' with
    | other | again | beyond => rfl
    | array hn | record hn => exact (hn hp).elim
  | beyond hl =>
    cases h' with
    | other | again | beyond => rfl
    | array _ hs | record _ hs => exact (Nat.not_lt.mpr hl hs).elim
  | array hn hs ha hlength _ ih =>
    cases h' with
    | other ho => exact (ha.reads.not_isOther ho).elim
    | again hp => exact (hn hp).elim
    | beyond hl => exact (Nat.not_lt.mpr hl hs).elim
    | record _ _ hr => exact (ha.reads.not_readsMembers hr.reads).elim
    | array _ _ ha' hlength' hitems =>
      obtain rfl := ha.unique ha'
      refine congrArg _ (List.ext_getElem (hlength.trans hlength'.symm) fun n h₁ h₂ => ?_)
      exact ih n (hlength ▸ h₁) h₁ (hitems n (hlength ▸ h₁) h₂)
  | record hn hs hr hlength _ ih =>
    cases h' with
    | other ho => exact (hr.reads.not_isOther ho).elim
    | again hp => exact (hn hp).elim
    | beyond hl => exact (Nat.not_lt.mpr hl hs).elim
    | array _ _ ha => exact (ha.reads.not_readsMembers hr.reads).elim
    | record _ _ hr' hlength' hvalues =>
      obtain rfl := hr.unique hr'
      refine congrArg (fun values => Host.Value.mapping .dict (List.zipWith _ _ values))
        (List.ext_getElem (hlength.trans hlength'.symm) fun n h₁ h₂ => ?_)
      exact ih n (hlength ▸ h₁) h₁ (hvalues n (hlength ▸ h₁) h₂)

/-! ### Graphs -/

theorem Reaches.trans {u : Value} (h : r.Reaches u v) (h' : r.Reaches v w) : r.Reaches u w := by
  induction h' with
  | refl => exact h
  | element _ ha hm ih => exact .element ih ha hm
  | member _ hr hm ih => exact .member ih hr hm

theorem IsData.of_reaches (h : r.IsData v) (hw : r.Reaches v w) : r.IsData w := fun ref href =>
  h ref (hw.trans href)

/-- A set of values that holds whatever its arrays and plain objects hold is a graph of data. -/
theorem isData_of_closed {S : Value → Prop} (hv : S v) (h : ∀ ref, S (.object ref) →
    (∃ elements, r.IsArray ref elements ∧ ∀ w ∈ elements, S w) ∨
      (∃ members, r.IsRecord ref members ∧ prototypeName ∉ members.map Prod.fst ∧ ∀ member ∈ members, S member.2) ∨
        r.IsOther ref) : r.IsData v := by
  have closed : ∀ w, r.Reaches v w → S w := by
    intro w hw
    induction hw with
    | refl => exact hv
    | element _ ha hm ih =>
      rcases h _ ih with ⟨elements, ha', hall⟩ | ⟨members, hr, -⟩ | ho
      · exact hall _ (ha.unique ha' ▸ hm)
      · exact (ha.reads.not_readsMembers hr.reads).elim
      · exact (ha.reads.not_isOther ho).elim
    | member _ hr hm ih =>
      rcases h _ ih with ⟨elements, ha, -⟩ | ⟨members, hr', -, hall⟩ | ho
      · exact (ha.reads.not_readsMembers hr.reads).elim
      · exact hall _ (hr.unique hr' ▸ hm)
      · exact (hr.reads.not_isOther ho).elim
  intro ref href
  rcases h ref (closed _ href) with ⟨elements, ha, -⟩ | ⟨members, hr, hprototype, -⟩ | ho
  · exact .inl ⟨elements, ha⟩
  · exact .inr (.inl ⟨members, hr, hprototype⟩)
  · exact .inr (.inr ho)

/-! ### The conversion unfolds -/

/-- A conversion of each of some values, all of which go well, goes well as a whole. -/
theorem mapM_ok {α β : Type} {f : α → Except Thrown β} {P : α → β → Prop} {values : List α}
    (h : ∀ a ∈ values, ∃ b, f a = .ok b ∧ P a b) : ∃ results, values.mapM f = .ok results ∧ List.Forall₂ P values results := by
  induction values with
  | nil => exact ⟨[], rfl, .nil⟩
  | cons a values ih =>
    obtain ⟨b, hb, hp⟩ := h a List.mem_cons_self
    obtain ⟨results, hr, hall⟩ := ih fun a ha => h a (List.mem_cons_of_mem _ ha)
    refine ⟨b :: results, ?_, .cons hp hall⟩
    rw [List.mapM_cons, hb, hr]
    rfl

/-- Values under the same names can be paired with the names of the one or of the other. -/
theorem zipWith_of_names {κ α β γ : Type} {members : List (κ × α)} {named : List (κ × β)} (f : κ → β → γ)
    (h : members.map Prod.fst = named.map Prod.fst) :
    List.zipWith (fun member value => f member.1 value) members (named.map Prod.snd) =
      named.map fun member => f member.1 member.2 := by
  induction named generalizing members with
  | nil => rw [List.map_nil, List.zipWith_nil_right, List.map_nil]
  | cons first named ih =>
    cases members with
    | nil => cases h
    | cons member members =>
      obtain ⟨hfirst, hrest⟩ := List.cons.inj h
      rw [List.map_cons, List.zipWith_cons_cons, ih hrest, List.map_cons, show member.1 = first.1 from hfirst]

end Realm

/-- A node that a script's value was converted to: no deeper than there was room, and its value the unfolding. -/
def Unfolded (r : Realm) (room : Nat) (path : List Ref) (v : Value) (node : Wire.Node) : Prop :=
  node.Within room ∧ r.Unfolds path v node.received

variable {r : Realm} {ref : Ref} {room : Nat} {path : List Ref}

theorem unfolded_marker {v : Value} (h : r.Unfolds path v (.scalar .marker)) : Unfolded r room path v .complex :=
  ⟨by cases room <;> trivial, h⟩

/-- An array whose elements are converted to their unfoldings is converted to its own. -/
theorem encodeWithin_array {elements : List Value} (hpath : ref ∉ path) (hroom : path.length + (room + 1) = Wire.maxDepth)
    (h : r.IsArray ref elements)
    (ih : ∀ v ∈ elements, ∃ node, encodeWithin r room (ref :: path) v = .ok node ∧ Unfolded r room (ref :: path) v node) :
    ∃ node, encodeWithin r (room + 1) path (.object ref) = .ok node ∧
      Unfolded r (room + 1) path (.object ref) node := by
  -- The elements are read one by one, and the read of each is the first half of its conversion.
  have each : ∀ n ∈ List.range elements.length, ∃ node,
      (do encodeWithin r room (ref :: path) (← r.get ref (.name (nameOfIndex n)))) = Except.ok node ∧
        ∀ hn : n < elements.length, Unfolded r room (ref :: path) elements[n] node := by
    intro n hn
    have hn := List.mem_range.mp hn
    obtain ⟨node, hnode, hunfolded⟩ := ih elements[n] (List.getElem_mem hn)
    refine ⟨node, ?_, fun _ => hunfolded⟩
    rw [(h.holds n hn).get]
    exact hnode
  obtain ⟨nodes, hnodes, hall⟩ := Realm.mapM_ok each
  have hlength : nodes.length = elements.length := by simpa using hall.length_eq.symm
  have hnode (n : Nat) (hn : n < elements.length) (hn' : n < nodes.length) :
      Unfolded r room (ref :: path) elements[n] nodes[n] := by
    have := hall.get (i := n) (by simpa using hn) hn'
    simp only [List.get_eq_getElem, List.getElem_range] at this
    exact this hn
  refine ⟨.array nodes, ?_, ?_, ?_⟩
  · have hparts := h.reads.partsOf
    have hcallable := Realm.callable_of_isArray h.isArray
    simp only [encodeWithin, hcallable, hpath, Bool.false_eq_true, or_self, if_false, hparts, bind, Except.bind]
    exact congrArg (fun result => Except.bind result fun nodes => Except.ok (Wire.Node.array nodes)) hnodes
  · refine Wire.itemsWithin_iff.mpr fun item hitem => ?_
    obtain ⟨n, hn, rfl⟩ := List.mem_iff_getElem.mp hitem
    exact (hnode n (hlength ▸ hn) hn).1
  · rw [Wire.Node.received, Wire.receivedItems_eq]
    refine .array hpath (by omega) h (by rw [List.length_map, hlength]) fun n hn hn' => ?_
    rw [List.getElem_map]
    exact (hnode n hn (by simpa using hn')).2

/-- A plain object whose members are converted to their unfoldings is converted to its own. -/
theorem encodeWithin_record {members : List (Units × Value)} (hpath : ref ∉ path)
    (hroom : path.length + (room + 1) = Wire.maxDepth) (h : r.IsRecord ref members)
    (hprototype : prototypeName ∉ members.map Prod.fst)
    (ih : ∀ member ∈ members, ∃ node, encodeWithin r room (ref :: path) member.2 = .ok node ∧
      Unfolded r room (ref :: path) member.2 node) :
    ∃ node, encodeWithin r (room + 1) path (.object ref) = .ok node ∧
      Unfolded r (room + 1) path (.object ref) node := by
  have each : ∀ member ∈ members, ∃ named : Units × Wire.Node,
      (do let node ← encodeWithin r room (ref :: path) (← r.get ref (.name member.1)); return (member.1, node)) =
          Except.ok named ∧
        named.1 = member.1 ∧ Unfolded r room (ref :: path) member.2 named.2 := by
    intro member hm
    obtain ⟨node, hnode, hunfolded⟩ := ih member hm
    refine ⟨(member.1, node), ?_, rfl, hunfolded⟩
    rw [(h.holds member hm).get]
    exact congrArg (fun result => Except.bind result fun node => Except.ok (member.1, node)) hnode
  obtain ⟨named, hnamed, hall⟩ := Realm.mapM_ok each
  have hlength : named.length = members.length := hall.length_eq.symm
  have hnode (n : Nat) (hn : n < members.length) (hn' : n < named.length) :
      named[n].1 = members[n].1 ∧ Unfolded r room (ref :: path) members[n].2 named[n].2 := hall.get hn hn'
  have hnames : named.map Prod.fst = members.map Prod.fst := by
    refine List.ext_getElem (by simpa using hlength) fun n hn hn' => ?_
    rw [List.getElem_map, List.getElem_map]
    exact (hnode n (by simpa using hn') (by simpa using hn)).1
  have hassigned : assignedMembers named = named := by
    refine List.filter_eq_self.mpr fun member hm => decide_eq_true fun he => hprototype ?_
    rw [← he, ← hnames]
    exact List.mem_map_of_mem hm
  refine ⟨.object (named.map fun member => (member.1.toText, member.2)), ?_, ?_, ?_⟩
  · have hparts := h.reads.partsOf
    simp only [encodeWithin, h.callable, hpath, Bool.false_eq_true, or_self, if_false, hparts, bind, Except.bind,
      List.mapM_map]
    refine (congrArg (fun result => Except.bind result fun named => Except.ok (Wire.Node.object
      ((assignedMembers named).map fun member => (member.1.toText, member.2)))) hnamed).trans ?_
    exact congrArg (fun named => Except.ok (Wire.Node.object
      (named.map fun member : Units × Wire.Node => (member.1.toText, member.2)))) hassigned
  · refine Wire.membersWithin_iff.mpr fun member hmember => ?_
    obtain ⟨named', hm, rfl⟩ := List.mem_map.mp hmember
    obtain ⟨n, hn, rfl⟩ := List.mem_iff_getElem.mp hm
    exact (hnode n (hlength ▸ hn) hn).2.1
  · have hpaired := Realm.zipWith_of_names (fun name value => (Host.Value.text name.toText, value))
      (show members.map Prod.fst = (named.map fun member => (member.1, member.2.received)).map Prod.fst by
        rw [List.map_map, ← hnames]
        rfl)
    rw [List.map_map, List.map_map] at hpaired
    rw [Wire.received_object (hnames ▸ h.distinct)]
    refine hpaired ▸ .record hpath (by omega) h (by rw [List.length_map, hlength]) fun n hn hn' => ?_
    rw [List.getElem_map]
    exact (hnode n hn (by simpa using hn')).2.2

/-- A value that is no object is converted by itself, with or without room for containers. -/
theorem encodeWithin_primitive {v : Value} (h : ∀ ref, v ≠ .object ref) :
    ∃ node, encodeWithin r room path v = .ok node ∧ Unfolded r room path v node := by
  cases v with
  | object ref => exact absurd rfl (h ref)
  | undefined => exact ⟨.null, by cases room <;> rfl, by cases room <;> trivial, .undefined⟩
  | null => exact ⟨.null, by cases room <;> rfl, by cases room <;> trivial, .null⟩
  | boolean b => exact ⟨.boolean b, by cases room <;> rfl, by cases room <;> trivial, .boolean b⟩
  | number d => exact ⟨.number d, by cases room <;> rfl, by cases room <;> trivial, .number d⟩
  | string us =>
    refine ⟨.string us.toText, by cases room <;> rfl, by cases room <;> trivial, ?_⟩
    rw [Wire.Node.received, Text.join_toText]
    exact .string us
  | symbol s => exact ⟨.complex, by cases room <;> rfl, unfolded_marker (.symbol s)⟩
  | bigint n => exact ⟨.complex, by cases room <;> rfl, unfolded_marker (.bigint n)⟩

/-- What is neither an array nor a plain object has no image. -/
theorem encodeWithin_other (h : r.IsOther ref) : encodeWithin r room path (.object ref) = .ok .complex := by
  cases room with
  | zero =>
    rw [encodeWithin]
    split <;> rfl
  | succ room =>
    rw [encodeWithin]
    split
    case isTrue => rfl
    case isFalse hnot =>
      rcases h with hc | ⟨ha, tag, ht, hne⟩
      · exact absurd (.inl hc) hnot
      · have hparts : r.partsOf ref = .ok .opaqueObject := by
          simp only [Realm.partsOf, ha, ht, hne, bind, Except.bind, pure, Except.pure, Bool.false_eq_true, if_false]
        rw [hparts]
        rfl

/-- A value of a graph of data is converted, and its node comes to the value's unfolding. -/
theorem encodeWithin_unfolded {v : Value} (hroom : path.length + room = Wire.maxDepth) (h : r.IsData v) :
    ∃ node, encodeWithin r room path v = .ok node ∧ Unfolded r room path v node := by
  -- The path grows by as much as the room shrinks.
  induction room generalizing path v with
  | zero =>
    cases v with
    | object ref =>
      refine ⟨.complex, ?_, unfolded_marker (.beyond (by omega))⟩
      rw [encodeWithin]
      split <;> rfl
    | _ => exact encodeWithin_primitive (by simp)
  | succ room ih =>
    cases v with
    | object ref =>
      by_cases hpath : ref ∈ path
      · refine ⟨.complex, ?_, unfolded_marker (.again hpath)⟩
        rw [encodeWithin, if_pos (.inr hpath)]
      · have hbelow : (ref :: path).length + room = Wire.maxDepth := by
          rw [List.length_cons]
          omega
        rcases h ref .refl with ⟨elements, ha⟩ | ⟨members, hr, hprototype⟩ | ho
        · exact encodeWithin_array hpath hroom ha fun w hw =>
            ih hbelow (h.of_reaches (.element .refl ha hw))
        · exact encodeWithin_record hpath hroom hr hprototype fun member hm =>
            ih hbelow (h.of_reaches (.member .refl hr hm))
        · exact ⟨.complex, encodeWithin_other ho, unfolded_marker (.other ho)⟩
    | _ => exact encodeWithin_primitive (by simp)

/-- The caller gets for a graph of data its unfolding, and nothing else: the conversion comes to an end, its result can
    be read from its text, and what the caller makes of it is a value just when it is the unfolding. -/
theorem receives_unfolding {r : Realm} {v : Value} (h : r.IsData v) :
    ∃ node, encode r v = .ok node ∧
      ∃ j, Json.read? Json.nestingLimit (Json.compact node.toJson) = some j ∧
        ∀ value, Wire.decode (.ofJson j) = .ok value ↔ r.Unfolds [] v value := by
  obtain ⟨node, hencode, hwithin, hunfolds⟩ := encodeWithin_unfolded (List.length_nil ▸ Nat.zero_add Wire.maxDepth) h
  obtain ⟨j, hread, hdecode⟩ := Wire.read?_received hwithin
  refine ⟨node, hencode, j, hread, fun value => ?_⟩
  rw [hdecode]
  constructor
  · intro he
    exact Except.ok.inj he ▸ hunfolds
  · intro hvalue
    rw [hunfolds.unique hvalue]

/-- A plain object with an array under two names, a hole in front of the array's only element, and the object itself
    under a third name. -/
def knot : Realm where
  objects := #[⟨.plain, none, [Realm.ordinary (.ofString "a") (.object 1), Realm.ordinary (.ofString "b") (.object 1),
    Realm.ordinary (.ofString "self") (.object 0)]⟩, ⟨.array 2, none, [Realm.ordinary (.ofString "1") (.boolean true)]⟩]
  bindings := []
  joining := []

/-- The array of the knot as the caller gets it. -/
def knotArray : Host.Value := .sequence .list [.none, .scalar (.bool true)]

theorem isRecord_knot : knot.IsRecord 0 [(.ofString "a", .object 1), (.ofString "b", .object 1),
    (.ofString "self", .object 0)] where
  callable := rfl
  isArray := rfl
  tag := rfl
  keys := by
    rw [Realm.keys_of_plain rfl]
    exact congrArg Except.ok (inOrder_of_no_index (by decide))
  distinct := by decide
  holds := by
    intro member hm
    simp only [List.mem_cons, List.not_mem_nil, or_false] at hm
    rcases hm with rfl | rfl | rfl <;> exact .data rfl rfl

theorem isArray_knot : knot.IsArray 1 [.undefined, .boolean true] where
  isArray := rfl
  length := Realm.lengthOf_of_nature rfl
  holds
    | 0, _ => .hole rfl
    | 1, _ => .data rfl rfl

/-- What is shared is unfolded wherever it stands, and only the way back ends in the marker. -/
theorem receives_knot : knot.IsData (.object 0) ∧
    ∃ node j, encode knot (.object 0) = .ok node ∧
      Json.read? Json.nestingLimit (Json.compact node.toJson) = some j ∧
      Wire.decode (.ofJson j) = .ok (.mapping .dict [(.text (.ofString "a"), knotArray),
        (.text (.ofString "b"), knotArray), (.text (.ofString "self"), .scalar .marker)]) := by
  have hdata : knot.IsData (.object 0) := by
    refine Realm.isData_of_closed (S := fun v => v ∈ [.object 0, .object 1, .undefined, .boolean true]) (by simp) ?_
    intro ref href
    simp only [List.mem_cons, Value.object.injEq, reduceCtorEq, List.not_mem_nil, or_false] at href
    rcases href with rfl | rfl
    · exact .inr (.inl ⟨_, isRecord_knot, by decide, by simp⟩)
    · exact .inl ⟨_, isArray_knot, by simp⟩
  have harray : knot.Unfolds [0] (.object 1) knotArray :=
    .array (by decide) (by decide) isArray_knot rfl fun
      | 0, _, _ => .undefined
      | 1, _, _ => .boolean true
  obtain ⟨node, hencode, j, hread, hvalue⟩ := receives_unfolding hdata
  refine ⟨hdata, node, j, hencode, hread, (hvalue _).mpr ?_⟩
  exact @Realm.Unfolds.record knot [] 0 _ [knotArray, knotArray, .scalar .marker] (by decide) (by decide) isRecord_knot
    rfl fun
    | 0, _, _ => harray
    | 1, _, _ => harray
    | 2, _, _ => .again (by decide)

end ScriptLink.Script
