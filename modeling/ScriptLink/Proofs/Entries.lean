import ScriptLink.Proofs.Argument

/-! # Entries that are lost

    Both sides build an object by assigning its properties one after the other, and an assignment to the name of the
    prototype makes no property. On the way to the script, entries are merged as well whose keys are the same once
    surrogate pairs are joined. Main statement: nothing else is lost, in either direction and at any depth. `Receives`
    says what the caller gets for any value of a script, if some of the properties of each object are kept. -/

namespace ScriptLink
namespace Script
namespace Realm

/-- What the caller gets for a value that stands below the containers of `path`, if `kept` are the members that are
    kept of those of a plain object. -/
inductive Receives (r : Realm) (kept : List (Units × Value) → List (Units × Value)) :
    List Ref → Value → Host.Value → Prop
  | primitive {path : List Ref} {v : Value} {value : Host.Value} : (∀ ref, v ≠ .object ref) →
      r.Unfolds path v value → Receives r kept path v value
  | marker {path : List Ref} {ref : Ref} : r.IsOther ref ∨ ref ∈ path ∨ Wire.maxDepth ≤ path.length →
      Receives r kept path (.object ref) (.scalar .marker)
  | array {path : List Ref} {ref : Ref} {elements : List Value} {items : List Host.Value} : ref ∉ path →
      path.length < Wire.maxDepth → r.ReadsElements ref elements → items.length = elements.length →
      (∀ n (h : n < elements.length) (h' : n < items.length), Receives r kept (ref :: path) elements[n] items[n]) →
      Receives r kept path (.object ref) (.sequence .list items)
  | object {path : List Ref} {ref : Ref} {members : List (Units × Value)} {values : List Host.Value} : ref ∉ path →
      path.length < Wire.maxDepth → r.ReadsMembers ref members → values.length = (kept members).length →
      (∀ n (h : n < (kept members).length) (h' : n < values.length),
        Receives r kept (ref :: path) (kept members)[n].2 values[n]) →
      Receives r kept path (.object ref)
        (.mapping .dict (List.zipWith (fun member value => (.text member.1.toText, value)) (kept members) values))

/-- The plain objects that are entered in a value that stands below the containers of `path`. -/
inductive Enters (r : Realm) : List Ref → Value → List (Units × Value) → Prop
  | here {path : List Ref} {ref : Ref} {members : List (Units × Value)} : ref ∉ path → path.length < Wire.maxDepth →
      r.ReadsMembers ref members → Enters r path (.object ref) members
  | element {path : List Ref} {ref : Ref} {elements : List Value} {w : Value} {members : List (Units × Value)} :
      ref ∉ path → path.length < Wire.maxDepth → r.ReadsElements ref elements → w ∈ elements →
      Enters r (ref :: path) w members → Enters r path (.object ref) members
  | member {path : List Ref} {ref : Ref} {above : List (Units × Value)} {member : Units × Value}
      {members : List (Units × Value)} : ref ∉ path → path.length < Wire.maxDepth → r.ReadsMembers ref above →
      member ∈ above → Enters r (ref :: path) member.2 members → Enters r path (.object ref) members

/-- Whether no plain object that is entered in a value has a property under the name of the prototype. -/
def NamesApart (r : Realm) (path : List Ref) (v : Value) : Prop :=
  ∀ members, r.Enters path v members → prototypeName ∉ members.map Prod.fst

/-- Whether no object has two properties under one key. -/
def WellKeyed (r : Realm) : Prop :=
  ∀ ref, ((r.object ref).properties.map Property.key).Nodup

variable {r : Realm} {ref : Ref} {path : List Ref} {v w : Value} {value : Host.Value} {room : Nat} {node : Wire.Node}

end Realm

/-! ### What a conversion that went well has done -/

/-- What lies between two lists of values, each of which has something in between with the other. -/
theorem exists_between {α β γ : Type} {P : α → β → Prop} {Q : β → γ → Prop} {xs : List α} {zs : List γ}
    (h : List.Forall₂ (fun x z => ∃ y, P x y ∧ Q y z) xs zs) : ∃ ys, List.Forall₂ P xs ys ∧ List.Forall₂ Q ys zs := by
  induction h with
  | nil => exact ⟨[], .nil, .nil⟩
  | cons hxz _ ih =>
    obtain ⟨y, hp, hq⟩ := hxz
    obtain ⟨ys, hps, hqs⟩ := ih
    exact ⟨y :: ys, .cons hp hps, .cons hq hqs⟩

variable {r : Realm} {ref : Ref} {path : List Ref} {v w : Value} {value : Host.Value} {room : Nat} {node : Wire.Node}

theorem of_partsOf {parts : Parts} (h : r.partsOf ref = .ok parts) :
    match parts with
    | .elements length => r.isArray ref = .ok true ∧ r.lengthOf ref = .ok length
    | .members names => r.isArray ref = .ok false ∧ r.tagOf ref = .ok (.ofString "Object") ∧ r.keys ref = .ok names
    | .opaqueObject => r.isArray ref = .ok false ∧ ∃ tag, r.tagOf ref = .ok tag ∧ tag ≠ .ofString "Object" := by
  obtain ⟨isArray, hisArray, h⟩ := Wire.bind_eq_ok.mp h
  cases isArray with
  | true =>
    obtain ⟨length, hlength, h⟩ := Wire.bind_eq_ok.mp h
    cases h
    exact ⟨hisArray, hlength⟩
  | false =>
    obtain ⟨tag, htag, h⟩ := Wire.bind_eq_ok.mp h
    split at h
    case isTrue he =>
      obtain ⟨names, hnames, h⟩ := Wire.bind_eq_ok.mp h
      cases h
      exact ⟨hisArray, he ▸ htag, hnames⟩
    case isFalse hne =>
      cases h
      exact ⟨hisArray, tag, htag, hne⟩

/-- The elements that were read in a conversion of an array. -/
theorem elements_of_mapM {length : Nat} {nodes : List Wire.Node}
    (h : ((List.range length).mapM fun n => do
      encodeWithin r room path (← r.get ref (.name (nameOfIndex n)))) = .ok nodes) :
    ∃ elements, elements.length = length ∧
      (∀ n (hn : n < elements.length), r.get ref (.name (nameOfIndex n)) = .ok elements[n]) ∧
      List.Forall₂ (fun v node => encodeWithin r room path v = .ok node) elements nodes := by
  obtain ⟨elements, hread, hnodes⟩ := exists_between
    ((Wire.forall₂_of_mapM h).imp fun n node hn => Wire.bind_eq_ok.mp hn)
  have hlength : elements.length = length := by simpa using hread.length_eq.symm
  refine ⟨elements, hlength, fun n hn => ?_, hnodes⟩
  have := hread.get (i := n) (by simpa using hlength ▸ hn) hn
  simpa using this

/-- The members that were read in a conversion of a plain object. -/
theorem members_of_mapM {names : List Units} {named : List (Units × Wire.Node)}
    (h : (names.mapM fun name => do
      let node ← encodeWithin r room path (← r.get ref (.name name))
      return (name, node)) = .ok named) :
    ∃ members : List (Units × Value), members.map Prod.fst = names ∧
      (∀ member ∈ members, r.get ref (.name member.1) = .ok member.2) ∧
      List.Forall₂ (fun member other => member.1 = other.1 ∧
        encodeWithin r room path member.2 = .ok other.2) members named := by
  have each (name : Units) (other : Units × Wire.Node) (h : (do
      let node ← encodeWithin r room path (← r.get ref (.name name))
      return (name, node)) = Except.ok other) :
      ∃ member : Units × Value, (name = member.1 ∧ r.get ref (.name member.1) = .ok member.2) ∧
        member.1 = other.1 ∧ encodeWithin r room path member.2 = .ok other.2 := by
    obtain ⟨v, hv, h⟩ := Wire.bind_eq_ok.mp h
    obtain ⟨node, hnode, h⟩ := Wire.bind_eq_ok.mp h
    cases h
    exact ⟨(name, v), ⟨rfl, hv⟩, rfl, hnode⟩
  obtain ⟨members, hread, hnamed⟩ := exists_between ((Wire.forall₂_of_mapM h).imp each)
  refine ⟨members, ?_, Wire.forall_of_forall₂ hread fun _ _ hm => hm.2, hnamed⟩
  clear h each hnamed
  induction hread with
  | nil => rfl
  | cons hm _ ih => rw [List.map_cons, ih, hm.1]

/-- The cases of the conversion of an object. -/
theorem cases_of_encodeWithin (h : encodeWithin r room path (.object ref) = .ok node) :
    (node = .complex ∧ (r.IsOther ref ∨ ref ∈ path ∨ room = 0)) ∨
    (∃ below elements nodes, room = below + 1 ∧ ref ∉ path ∧ r.ReadsElements ref elements ∧
      List.Forall₂ (fun v node => encodeWithin r below (ref :: path) v = .ok node) elements nodes ∧
      node = .array nodes) ∨
    (∃ below members named, room = below + 1 ∧ ref ∉ path ∧ r.ReadsMembers ref members ∧
      List.Forall₂ (fun member other => member.1 = other.1 ∧
        encodeWithin r below (ref :: path) member.2 = .ok other.2) members named ∧
      node = .object ((assignedMembers named).map fun member => (member.1.toText, member.2))) := by
  cases room with
  | zero =>
    rw [encodeWithin] at h
    split at h <;> cases h <;> exact .inl ⟨rfl, .inr (.inr rfl)⟩
  | succ below =>
    rw [encodeWithin] at h
    split at h
    case isTrue hstop =>
      cases h
      exact .inl ⟨rfl, hstop.imp .inl .inl⟩
    case isFalse hgo =>
      obtain ⟨hcallable, hpath⟩ := not_or.mp hgo
      obtain ⟨parts, hparts, h⟩ := Wire.bind_eq_ok.mp h
      have hreads := of_partsOf hparts
      cases parts with
      | elements length =>
        obtain ⟨nodes, hnodes, h⟩ := Wire.bind_eq_ok.mp h
        cases h
        obtain ⟨elements, rfl, hget, hall⟩ := elements_of_mapM hnodes
        exact .inr (.inl ⟨below, elements, nodes, rfl, hpath, ⟨hreads.1, hreads.2, hget⟩, hall, rfl⟩)
      | members names =>
        obtain ⟨named, hnamed, h⟩ := Wire.bind_eq_ok.mp h
        cases h
        obtain ⟨members, rfl, hget, hall⟩ := members_of_mapM hnamed
        exact .inr (.inr ⟨below, members, named, rfl, hpath,
          ⟨by simpa using hcallable, hreads.1, hreads.2.1, hreads.2.2, hget⟩, hall, rfl⟩)
      | opaqueObject =>
        cases h
        exact .inl ⟨rfl, .inl (.inr hreads)⟩

theorem key_of_listed {property : Property} {name : Units} (h : (match property.key with
    | .name name => if property.enumerable then some name else none
    | .symbol _ => none) = some name) : property.key = .name name := by
  cases hkey : property.key with
  | name own =>
    rw [hkey] at h
    simp only at h
    split at h <;> cases h
    rfl
  | symbol s =>
    rw [hkey] at h
    cases h

/-- No name stands twice among the names of an object's properties. -/
theorem Realm.WellKeyed.nodup_keys {names : List Units} (hr : r.WellKeyed) (h : r.keys ref = .ok names) :
    names.Nodup := by
  have own (ref : Ref) : (r.object ref).enumerableNames.Nodup := by
    rw [Object.enumerableNames, (inOrder_perm _).nodup_iff]
    refine List.Pairwise.filterMap _ (fun property other hne name hname otherName hother he => hne ?_)
      (List.pairwise_map.mp (hr ref))
    rw [key_of_listed hname, key_of_listed hother, he]
  have from_ (steps : Nat) (ref : Ref) (names : List Units) (h : r.keysFrom steps ref = .ok names) : names.Nodup := by
    induction steps generalizing ref with
    | zero =>
      cases h
      exact List.nodup_nil
    | succ steps ih =>
      rw [Realm.keysFrom] at h
      split at h
      · cases h
      · exact ih _ h
      · cases h
        exact own ref
  exact from_ _ _ _ h

/-- An object is received as it is converted, if all below it are. -/
theorem receives_object (hr : r.WellKeyed) (hroom : path.length + room = Wire.maxDepth)
    (h : encodeWithin r room path (.object ref) = .ok node)
    (ih : ∀ below, room = below + 1 → ∀ v node, encodeWithin r below (ref :: path) v = .ok node →
      node.Within below ∧ r.Receives assignedMembers (ref :: path) v node.received) :
    node.Within room ∧ r.Receives assignedMembers path (.object ref) node.received := by
  rcases cases_of_encodeWithin h with ⟨rfl, hstop⟩ | ⟨below, elements, nodes, rfl, hpath, hreads, hall, rfl⟩ |
    ⟨below, members, named, rfl, hpath, hreads, hall, rfl⟩
  · refine ⟨by cases room <;> trivial, .marker (hstop.imp_right (Or.imp_right fun he => ?_))⟩
    omega
  · refine ⟨Wire.itemsWithin_iff.mpr (Wire.forall_of_forall₂ hall fun v node hn => (ih below rfl v node hn).1), ?_⟩
    rw [Wire.Node.received, Wire.receivedItems_eq]
    refine .array hpath (by omega) hreads (by rw [List.length_map, hall.length_eq]) fun n hn hn' => ?_
    rw [List.getElem_map]
    exact (ih below rfl _ _ (hall.get hn (by simpa using hn'))).2
  · have hkept : List.Forall₂ (fun member other => member.1 = other.1 ∧
        encodeWithin r below (ref :: path) member.2 = .ok other.2) (assignedMembers members) (assignedMembers named) :=
      List.rel_filter (fun _ _ hm => by simp [hm.1]) hall
    have hnames : (assignedMembers members).map Prod.fst = (assignedMembers named).map Prod.fst :=
      Wire.names_of_forall₂ (hkept.imp fun _ _ hm => hm.1)
    have hdistinct : ((assignedMembers named).map Prod.fst).Nodup := by
      rw [← hnames]
      exact (hr.nodup_keys hreads.keys).sublist (List.filter_sublist.map _)
    refine ⟨?_, ?_⟩
    · refine Wire.membersWithin_iff.mpr fun member hm => ?_
      obtain ⟨other, ho, rfl⟩ := List.mem_map.mp hm
      exact Wire.forall_of_forall₂ hkept (fun _ other ho => (ih below rfl _ _ ho.2).1) other ho
    · have hpaired := Realm.zipWith_of_names (fun name value => (Host.Value.text name.toText, value))
        (show (assignedMembers members).map Prod.fst =
          ((assignedMembers named).map fun member => (member.1, member.2.received)).map Prod.fst by
            rw [List.map_map, hnames]
            rfl)
      rw [List.map_map, List.map_map] at hpaired
      rw [Wire.received_object hdistinct]
      refine hpaired ▸ .object hpath (by omega) hreads (by rw [List.length_map, hkept.length_eq]) fun n hn hn' => ?_
      rw [List.getElem_map]
      exact (ih below rfl _ _ (hkept.get hn (by simpa using hn')).2).2

theorem receives_primitive {kept : List (Units × Value) → List (Units × Value)} (hv : ∀ ref, v ≠ .object ref)
    (h : encodeWithin r room path v = .ok node) : node.Within room ∧ r.Receives kept path v node.received := by
  obtain ⟨converted, hconverted, hwithin, hunfolds⟩ : ∃ node, encodeWithin r room path v = .ok node ∧
    Unfolded r room path v node := encodeWithin_primitive hv
  obtain rfl := Except.ok.inj (hconverted.symm.trans h)
  exact ⟨hwithin, .primitive hv hunfolds⟩

/-- What the caller gets for a value that was converted. -/
theorem receives_of_encodeWithin (hr : r.WellKeyed) (hroom : path.length + room = Wire.maxDepth)
    (h : encodeWithin r room path v = .ok node) :
    node.Within room ∧ r.Receives assignedMembers path v node.received := by
  -- The path grows by as much as the room shrinks.
  induction room generalizing path v node with
  | zero =>
    cases v with
    | object ref => exact receives_object hr hroom h fun below he => by cases he
    | _ => exact receives_primitive (by simp) h
  | succ room ih =>
    cases v with
    | object ref =>
      refine receives_object hr hroom h fun below he v node h => ?_
      obtain rfl := Nat.succ.inj he
      refine ih ?_ h
      rw [List.length_cons]
      omega
    | _ => exact receives_primitive (by simp) h

/-! ### Where all members are kept -/

theorem assignedMembers_eq_self {α : Type} {members : List (Units × α)} :
    assignedMembers members = members ↔ prototypeName ∉ members.map Prod.fst := by
  rw [assignedMembers, List.filter_eq_self]
  constructor
  · intro h hm
    obtain ⟨member, hmember, he⟩ := List.mem_map.mp hm
    exact of_decide_eq_true (h member hmember) he
  · exact fun h member hm => decide_eq_true fun he => h (he ▸ List.mem_map_of_mem hm)

namespace Realm
variable {kept : List (Units × Value) → List (Units × Value)} {elements : List Value} {members : List (Units × Value)}

/-- What can be read is entered, unless it stands below itself or too deep. -/
theorem not_stopped {ref : Ref} (hother : ¬ r.IsOther ref) (hpath : ref ∉ path) (hroom : path.length < Wire.maxDepth) :
    ¬ (r.IsOther ref ∨ ref ∈ path ∨ Wire.maxDepth ≤ path.length) := by
  rintro (ho | hp | hl)
  · exact hother ho
  · exact hpath hp
  · exact absurd hroom (Nat.not_lt.mpr hl)

theorem Receives.of_elements (h : r.Receives kept path (.object ref) value) (hpath : ref ∉ path)
    (hroom : path.length < Wire.maxDepth) (hreads : r.ReadsElements ref elements) :
    ∃ items : List Host.Value, value = .sequence .list items ∧ items.length = elements.length ∧
      ∀ n (h : n < elements.length) (h' : n < items.length), r.Receives kept (ref :: path) elements[n] items[n] := by
  cases h with
  | primitive hv => exact absurd rfl (hv ref)
  | marker hstop => exact absurd hstop (not_stopped hreads.not_isOther hpath hroom)
  | array _ _ hreads' hlength hitems =>
    obtain rfl := hreads.unique hreads'
    exact ⟨_, rfl, hlength, hitems⟩
  | object _ _ hreads' => exact (hreads.not_readsMembers hreads').elim

theorem Receives.of_members (h : r.Receives kept path (.object ref) value) (hpath : ref ∉ path)
    (hroom : path.length < Wire.maxDepth) (hreads : r.ReadsMembers ref members) :
    ∃ values : List Host.Value, value = .mapping .dict (List.zipWith
        (fun member value => (.text member.1.toText, value)) (kept members) values) ∧
      values.length = (kept members).length ∧
      ∀ n (h : n < (kept members).length) (h' : n < values.length),
        r.Receives kept (ref :: path) (kept members)[n].2 values[n] := by
  cases h with
  | primitive hv => exact absurd rfl (hv ref)
  | marker hstop => exact absurd hstop (not_stopped hreads.not_isOther hpath hroom)
  | array _ _ hreads' => exact (hreads'.not_readsMembers hreads).elim
  | object _ _ hreads' hlength hvalues =>
    obtain rfl := hreads.unique hreads'
    exact ⟨_, rfl, hlength, hvalues⟩

theorem map_snd_zipWith {α β γ : Type} (f : α → γ) {xs : List α} {ys : List β} (h : ys.length = xs.length) :
    (List.zipWith (fun x y => (f x, y)) xs ys).map Prod.snd = ys := by
  refine List.ext_getElem (by simp [h]) fun n hn hn' => ?_
  rw [List.getElem_map, List.getElem_zipWith]

/-- An object of which all members are kept has none that is lost. -/
theorem Receives.all_assigned (h : r.Receives assignedMembers path (.object ref) value)
    (h' : r.Receives id path (.object ref) value) (hpath : ref ∉ path) (hroom : path.length < Wire.maxDepth)
    (hreads : r.ReadsMembers ref members) :
    assignedMembers members = members ∧ ∃ values : List Host.Value, values.length = members.length ∧
      ∀ n (h : n < members.length) (h' : n < values.length),
        r.Receives assignedMembers (ref :: path) members[n].2 values[n] ∧
          r.Receives id (ref :: path) members[n].2 values[n] := by
  obtain ⟨values, rfl, hlength, hvalues⟩ := h.of_members hpath hroom hreads
  obtain ⟨values', he, hlength', hvalues'⟩ := h'.of_members hpath hroom hreads
  rw [id] at hlength'
  have hentries := Host.Value.mapping.inj he |>.2
  have hassigned : assignedMembers members = members := by
    have := congrArg List.length hentries
    rw [List.length_zipWith, List.length_zipWith, hlength, hlength', id, min_self, min_self] at this
    exact List.filter_sublist.eq_of_length this
  generalize assignedMembers members = assigned at *
  subst hassigned
  have hsame : values = values' := by
    have := congrArg (List.map Prod.snd) hentries
    rwa [id, map_snd_zipWith _ hlength, map_snd_zipWith _ hlength'] at this
  subst hsame
  exact ⟨rfl, values, hlength, fun n h h' => ⟨hvalues n h h', hvalues' n h h'⟩⟩

/-- Where all members are kept, none has the name of the prototype. -/
theorem Enters.apart (h : r.Enters path v members) (ha : r.Receives assignedMembers path v value)
    (hi : r.Receives id path v value) : prototypeName ∉ members.map Prod.fst := by
  induction h generalizing value with
  | here hpath hroom hreads => exact assignedMembers_eq_self.mp (ha.all_assigned hi hpath hroom hreads).1
  | element hpath hroom hreads hw _ ih =>
    obtain ⟨items, rfl, hlength, hitems⟩ := ha.of_elements hpath hroom hreads
    obtain ⟨items', he, -, hitems'⟩ := hi.of_elements hpath hroom hreads
    obtain rfl := (Host.Value.sequence.inj he).2
    obtain ⟨n, hn, rfl⟩ := List.mem_iff_getElem.mp hw
    exact ih (hitems n hn (hlength ▸ hn)) (hitems' n hn (hlength ▸ hn))
  | member hpath hroom hreads hm _ ih =>
    obtain ⟨-, values, hlength, hvalues⟩ := ha.all_assigned hi hpath hroom hreads
    obtain ⟨n, hn, rfl⟩ := List.mem_iff_getElem.mp hm
    exact ih (hvalues n hn (hlength ▸ hn)).1 (hvalues n hn (hlength ▸ hn)).2

/-- Where no member has the name of the prototype, all are kept. -/
theorem Receives.of_namesApart (h : r.Receives assignedMembers path v value) (hv : r.NamesApart path v) :
    r.Receives id path v value := by
  induction h with
  | primitive hobject h => exact .primitive hobject h
  | marker hstop => exact .marker hstop
  | array hpath hroom hreads hlength _ ih =>
    exact .array hpath hroom hreads hlength fun n h h' => ih n h h' fun members hm =>
      hv members (.element hpath hroom hreads (List.getElem_mem h) hm)
  | @object path ref members values hpath hroom hreads hlength _ ih =>
    have hassigned : assignedMembers members = members :=
      assignedMembers_eq_self.mpr (hv members (.here hpath hroom hreads))
    have hbelow : ∀ member ∈ members, r.NamesApart (ref :: path) member.2 := fun member hm others ho =>
      hv others (.member hpath hroom hreads hm ho)
    generalize assignedMembers members = assigned at *
    subst hassigned
    have hobject : r.Receives id path (.object ref) _ := .object hpath hroom hreads hlength fun n h h' =>
      ih n h h' (hbelow _ (List.getElem_mem h))
    exact hobject

theorem Receives.iff_namesApart (h : r.Receives assignedMembers path v value) :
    r.Receives id path v value ↔ r.NamesApart path v :=
  ⟨fun h' _ hm => hm.apart h h', h.of_namesApart⟩

end Realm

/-- On the way to the script, a mapping loses its entry under the name of the prototype, and of the entries whose keys
    are the same with their pairs joined all but one; on the way back, a plain object loses its member under the name of
    the prototype. All other entries arrive, each with its own value, so nothing is lost exactly where the keys of all
    mappings are apart, or the names of all plain objects. -/
theorem entries_kept_iff (scripts : Scripts) (r : Realm) :
    (r.Unspoilt → ∀ (g : Host.Graph) (item : Host.Item) (node : Wire.Node), Wire.Node.ofArgument g item = .ok node →
      ∃ text j v r', Json.write node.toValue = .ok text ∧ Json.read? requestNesting text = some j ∧
        (decode scripts j).run r = (.ok v, r') ∧ r'.Denotes Members.crossing (g.value item) v ∧
        (r'.Denotes id (g.value item) v ↔ (g.value item).KeysApart)) ∧
    (r.WellKeyed → ∀ (v : Value) (node : Wire.Node), encode r v = .ok node →
      ∃ j value, Json.read? Json.nestingLimit (Json.compact node.toJson) = some j ∧
        Wire.decode (.ofJson j) = .ok value ∧ r.Receives assignedMembers [] v value ∧
        (r.Receives id [] v value ↔ r.NamesApart [] v)) := by
  refine ⟨fun hr g item node hnode => ?_, fun hr v node hencode => ?_⟩
  · obtain ⟨hwithin, harrives, v, r', hgives, hready, -, hbuilds⟩ := makes_argument scripts hnode hr
    obtain ⟨text, hwrite, hread⟩ := Wire.read?_joined hwithin
    have hdenotes := harrives.denotes hbuilds hready le_rfl
    exact ⟨text, _, v, r', hwrite, hread, hgives, hdenotes, hdenotes.keysApart, hdenotes.of_keysApart⟩
  · obtain ⟨hwithin, hreceives⟩ := receives_of_encodeWithin hr (List.length_nil ▸ Nat.zero_add Wire.maxDepth) hencode
    obtain ⟨j, hread, hdecode⟩ := Wire.read?_received hwithin
    exact ⟨j, _, hread, hdecode, hreceives, hreceives.iff_namesApart⟩

/-- A mapping with an entry under the name of the prototype. -/
def lossy : Host.Graph where
  objects := #[.mapping .dict [(.text (.ofString "__proto__"), .scalar (.bool true)),
    (.text (.ofString "a"), .scalar .none)]]

/-- A plain object with an own property under the name of the prototype. -/
def strewn : Realm where
  objects := #[⟨.plain, none, [Realm.ordinary (.ofString "__proto__") (.boolean true),
    Realm.ordinary (.ofString "a") .null]⟩]
  bindings := []
  joining := []

theorem wellKeyed_strewn : strewn.WellKeyed
  | 0 => by decide
  | _ + 1 => List.nodup_nil

theorem isRecord_strewn :
    strewn.IsRecord 0 [(.ofString "__proto__", .boolean true), (.ofString "a", .null)] where
  callable := rfl
  isArray := rfl
  tag := rfl
  keys := by
    rw [Realm.keys_of_plain rfl]
    exact congrArg Except.ok (inOrder_of_no_index (by decide))
  distinct := by decide
  holds := by
    intro member hm
    simp only [List.mem_cons, List.not_mem_nil, or_false] at hm
    rcases hm with rfl | rfl <;> exact .data rfl rfl

theorem encode_strewn : encode strewn (.object 0) = .ok (.object [(.ofString "a", .null)]) := by
  rw [encode, show Wire.maxDepth = 99 + 1 from rfl, encodeWithin, isRecord_strewn.reads.partsOf]
  rfl

/-- The tuple arrives with all its entries, and of the plain object the other property. -/
theorem entries_kept_offered :
    echoing.Unspoilt ∧ strewn.WellKeyed ∧
    (∃ node, Wire.Node.ofArgument offered (.object 0) = .ok node ∧ ∃ text j v r', Json.write node.toValue = .ok text ∧
      Json.read? requestNesting text = some j ∧ (decode samples j).run echoing = (.ok v, r') ∧
      r'.Denotes id (offered.value (.object 0)) v) ∧
    ∃ node, encode strewn (.object 0) = .ok node ∧ ∃ j value,
      Json.read? Json.nestingLimit (Json.compact node.toJson) = some j ∧ Wire.decode (.ofJson j) = .ok value ∧
      strewn.Receives assignedMembers [] (.object 0) value := by
  have hnode : Wire.Node.ofArgument offered (.object 0) = .ok (.array [.number (.signed true 0),
      .string [0xD83D, 0xDE00], .object [(.ofString "b", .null), (.ofString "a", .boolean true)]]) := rfl
  obtain ⟨text, j, v, r', hwrite, hread, hdecode, -, hkept⟩ :=
    (entries_kept_iff samples echoing).1 unspoilt_echoing offered (.object 0) _ hnode
  obtain ⟨j', value, hread', hdecode', hreceives, -⟩ :=
    (entries_kept_iff samples strewn).2 wellKeyed_strewn (.object 0) _ encode_strewn
  exact ⟨unspoilt_echoing, wellKeyed_strewn,
    ⟨_, hnode, text, j, v, r', hwrite, hread, hdecode, hkept.mpr keysApart_offered⟩,
    _, encode_strewn, j', value, hread', hdecode', hreceives⟩

/-- The entry under the name of the prototype arrives neither at the script nor at the caller. -/
theorem entry_lost :
    (∃ node text j ref r', Wire.Node.ofArgument lossy (.object 0) = .ok node ∧ Json.write node.toValue = .ok text ∧
      Json.read? requestNesting text = some j ∧ (decode samples j).run Realm.initial = (.ok (.object ref), r') ∧
      r'.keys ref = .ok [.ofString "a"]) ∧
    strewn.keys 0 = .ok [.ofString "__proto__", .ofString "a"] ∧
    ∃ node j, encode strewn (.object 0) = .ok node ∧
      Json.read? Json.nestingLimit (Json.compact node.toJson) = some j ∧
      Wire.decode (.ofJson j) = .ok (.mapping .dict [(.text (.ofString "a"), .none)]) := by
  refine ⟨?_, ?_, ?_⟩
  · have hnode : Wire.Node.ofArgument lossy (.object 0) = .ok (.object [(.ofString "__proto__", .boolean true),
        (.ofString "a", .null)]) := rfl
    obtain ⟨hwithin, harrives, v, r', hgives, hready, -, hbuilds⟩ := makes_argument samples hnode Realm.unspoilt_initial
    obtain ⟨text, hwrite, hread⟩ := Wire.read?_joined hwithin
    have hvalue : lossy.value (.object 0) = .mapping .dict [(.text (.ofString "__proto__"), .scalar (.bool true)),
        (.text (.ofString "a"), .scalar .none)] := rfl
    have hdenotes := hvalue ▸ harrives.denotes hbuilds hready le_rfl
    cases hdenotes with
    | mapping _ hrecord hnames =>
      refine ⟨_, text, _, _, r', hnode, hwrite, hread, hgives, ?_⟩
      rw [hrecord.keys, hnames]
      exact congrArg Except.ok (inOrder_of_no_index (by decide))
  · exact isRecord_strewn.keys
  · obtain ⟨j, hread, hdecode⟩ := Wire.read?_received
      (show (Wire.Node.object [(.ofString "a", .null)]).Within Wire.maxDepth from ⟨trivial, trivial⟩)
    exact ⟨_, j, encode_strewn, hread, hdecode⟩

end Script
end ScriptLink
