import ScriptLink.Proofs.Assignment
import ScriptLink.Proofs.Unfolding

/-! # Nodes built in a realm

    A node of the caller becomes a value of the script: its containers become new objects, and the objects that were
    there stay as they are. Every object is made before or after all objects below it, so that no container stands
    inside itself. Main statement: in a ready realm every buildable node is built, and the realm stays ready. -/

namespace ScriptLink.Script

/-! ### Runs that go well -/

/-- A run that gives a value and leaves a realm, without anything being thrown. -/
def Run.Gives {α : Type} (run : Run α) (r : Realm) (a : α) (r' : Realm) : Prop := run.run r = (.ok a, r')

namespace Run
variable {α β : Type} {r r' r'' : Realm} {a : α} {b : β}

theorem gives_pure (a : α) (r : Realm) : Gives (pure a) r a r := rfl

theorem run_bind (run : Run α) (next : α → Run β) (r : Realm) :
    (run >>= next).run r = match run.run r with
      | (.ok a, r') => (next a).run r'
      | (.error thrown, r') => (.error thrown, r') := by
  change (ExceptT.bindCont next (run.run r).1) (run.run r).2 = _
  rcases run.run r with ⟨_ | _, _⟩ <;> rfl

theorem Gives.bind {run : Run α} {next : α → Run β} (h : run.Gives r a r') (h' : (next a).Gives r' b r'') :
    (run >>= next).Gives r b r'' := by
  unfold Gives
  rw [run_bind, show run.run r = _ from h]
  exact h'

theorem gives_alloc (o : Object) (r : Realm) : (alloc o).Gives r r.objects.size (r.add o).2 := rfl

theorem gives_modify (f : Realm → Realm) (r : Realm) : Gives (modify f : Run Unit) r () (f r) := rfl

theorem gives_look {f : Realm → Except Thrown α} (h : f r = .ok a) : (look f).Gives r a r := by
  have hget : Gives (get : Run Realm) r r r := rfl
  refine hget.bind ?_
  rw [h]
  rfl

theorem run_look_of_error {f : Realm → Except Thrown α} {thrown : Thrown} (h : f r = .error thrown) :
    (look f).run r = (.error thrown, r) := by
  have hget : (get : Run Realm).run r = (.ok r, r) := rfl
  rw [look, run_bind, hget]
  simp only [h]
  rfl

end Run

/-! ### Nodes and the values built for them -/

end ScriptLink.Script

namespace ScriptLink.Wire

mutual

/-- A node that can be built: nothing in it is complex, and no two members of an object have the same units. -/
def Node.Buildable : Node → Prop
  | .null | .boolean _ | .number _ | .string _ => True
  | .array items => ItemsBuildable items
  | .object members => (members.map fun member => member.1.toUnits).Nodup ∧ MembersBuildable members
  | .complex => False

/-- `Node.Buildable` for each node of an array. -/
def ItemsBuildable : List Node → Prop
  | [] => True
  | item :: rest => item.Buildable ∧ ItemsBuildable rest

/-- `Node.Buildable` for the node of each member. -/
def MembersBuildable : List (Text × Node) → Prop
  | [] => True
  | (_, node) :: rest => node.Buildable ∧ MembersBuildable rest

end

theorem itemsBuildable_iff {items : List Node} : ItemsBuildable items ↔ ∀ item ∈ items, item.Buildable := by
  induction items with
  | nil => simp [ItemsBuildable]
  | cons item rest ih => rw [ItemsBuildable, ih, List.forall_mem_cons]

theorem membersBuildable_iff {members : List (Text × Node)} :
    MembersBuildable members ↔ ∀ member ∈ members, member.2.Buildable := by
  induction members with
  | nil => simp [MembersBuildable]
  | cons member rest ih =>
    obtain ⟨name, node⟩ := member
    rw [MembersBuildable, ih, List.forall_mem_cons]

end ScriptLink.Wire

namespace ScriptLink.Script

/-- A value that was built for a node, its objects having the numbers from `lo` to before `hi`. An object has the
    names of the node's members in the order of properties, without that of the prototype. -/
inductive Realm.Builds (r : Realm) : (lo hi : Nat) → Wire.Node → Value → Prop
  | null {lo hi : Nat} : Builds r lo hi .null .null
  | boolean {lo hi : Nat} (b : Bool) : Builds r lo hi (.boolean b) (.boolean b)
  | number {lo hi : Nat} (d : Double) : Builds r lo hi (.number d) (.number d)
  | string {lo hi : Nat} (t : Text) : Builds r lo hi (.string t) (.string t.toUnits)
  | array {lo hi ref : Nat} {items : List Wire.Node} {elements : List Value} : lo ≤ ref → ref < hi →
      (r.object ref).nature = .array elements.length →
      (∀ n (h : n < elements.length), (r.object ref).own? (.name (nameOfIndex n)) =
        some (Realm.ordinary (.name (nameOfIndex n)) elements[n])) →
      elements.length = items.length →
      (∀ n (h : n < items.length) (h' : n < elements.length), Builds r lo ref items[n] elements[n]) →
      Builds r lo hi (.array items) (.object ref)
  | object {lo hi ref : Nat} {members : List (Text × Wire.Node)} {entries : List (Units × Value)} : lo ≤ ref →
      ref < hi → (r.object ref).nature = .plain →
      (r.object ref).properties = entries.map (fun entry => Realm.ordinary (.name entry.1) entry.2) →
      entries.map Prod.fst =
        (inOrder (members.map fun member => member.1.toUnits)).filter (fun name => name ≠ prototypeName) →
      (∀ name node v, (name, node) ∈ members → (name.toUnits, v) ∈ entries → Builds r (ref + 1) hi node v) →
      Builds r lo hi (.object members) (.object ref)

namespace Realm
variable {r r' r'' : Realm} {lo hi : Nat} {node : Wire.Node} {v : Value}

/-- Only the objects with the numbers of a value matter for it. -/
theorem Builds.congr {lo' hi' : Nat} (h : r.Builds lo hi node v)
    (hobject : ∀ ref, lo ≤ ref → ref < hi → r'.object ref = r.object ref) (hlo : lo' ≤ lo) (hhi : hi ≤ hi') :
    r'.Builds lo' hi' node v := by
  induction h generalizing lo' hi' with
  | null => exact .null
  | boolean b => exact .boolean b
  | number d => exact .number d
  | string t => exact .string t
  | array hl hh hnature hown hlength _ ih =>
    have ho := hobject _ hl hh
    refine .array (hlo.trans hl) (hh.trans_le hhi) (ho ▸ hnature) (ho ▸ hown) hlength fun n h h' => ?_
    exact ih n h h' (fun ref hl' hh' => hobject ref hl' (hh'.trans hh)) hlo le_rfl
  | object hl hh hnature hproperties hnames _ ih =>
    have ho := hobject _ hl hh
    refine .object (hlo.trans hl) (hh.trans_le hhi) (ho ▸ hnature) (ho ▸ hproperties) hnames fun name node v hm he => ?_
    exact ih name node v hm he (fun ref hl' hh' => hobject ref ((hl.trans (Nat.le_succ _)).trans hl') hh') le_rfl hhi

/-- The object of a built value has a number in its range. -/
theorem Builds.range {ref : Ref} (h : r.Builds lo hi node (.object ref)) : lo ≤ ref ∧ ref < hi := by
  cases h with
  | array hl hh => exact ⟨hl, hh⟩
  | object hl hh => exact ⟨hl, hh⟩

/-- A run that builds a node in every ready realm and keeps the realm ready. -/
def Makes (lo : Nat) (run : Run Value) (node : Wire.Node) : Prop :=
  ∀ r : Realm, r.Ready lo → ∃ v r', run.Gives r v r' ∧ r'.Ready lo ∧ r.Grows r' ∧
    r'.Builds r.objects.size r'.objects.size node v

/-- A run that gives a primitive for a node. -/
theorem makes_pure (h : ∀ {r : Realm} {lo hi : Nat}, r.Builds lo hi node v) : Makes lo (pure v) node := fun r hr =>
  ⟨v, r, Run.gives_pure v r, hr, .refl r, h⟩

/-! ### Arrays -/

/-- Nodes that are built one after the other. -/
theorem makes_each {runs : List (Run Value)} {nodes : List Wire.Node} (h : List.Forall₂ (Makes lo) runs nodes)
    (hr : r.Ready lo) : ∃ values r', (runs.mapM id).Gives r values r' ∧ r'.Ready lo ∧ r.Grows r' ∧
      List.Forall₂ (r'.Builds r.objects.size r'.objects.size) nodes values := by
  induction h generalizing r with
  | nil => exact ⟨[], r, by rw [List.mapM_nil]; exact Run.gives_pure [] r, hr, .refl r, .nil⟩
  | @cons run node runs nodes hrun _ ih =>
    obtain ⟨v, r₁, hgives, hready, hgrows, hbuilds⟩ := hrun r hr
    obtain ⟨values, r₂, hgives', hready', hgrows', hall⟩ := ih hready
    refine ⟨v :: values, r₂, ?_, hready', hgrows.trans hgrows', .cons ?_ ?_⟩
    · rw [List.mapM_cons]
      exact hgives.bind (hgives'.bind (Run.gives_pure _ _))
    · exact hbuilds.congr (fun ref _ hh => hgrows'.object ref hh) le_rfl hgrows'.size
    · exact hall.imp fun node v h => h.congr (fun _ _ _ => rfl) hgrows.size le_rfl

/-- The properties of a new array, by name. -/
theorem find?_elements (elements : List Value) (n : Nat) (h : n < elements.length) :
    (elements.zipIdx.map fun (element, n) => ordinary (.name (nameOfIndex n)) element).find?
      (fun property => property.key = .name (nameOfIndex n)) =
        some (ordinary (.name (nameOfIndex n)) elements[n]) := by
  rw [List.find?_eq_some_iff_getElem]
  refine ⟨by simp [ordinary], n, by simpa using h, by simp, fun m hm => ?_⟩
  have hne : nameOfIndex m ≠ nameOfIndex n := fun he => (Nat.ne_of_lt hm) (nameOfIndex_injective he)
  simpa [ordinary] using hne

theorem makes_array {runs : List (Run Value)} {items : List Wire.Node} (h : List.Forall₂ (Makes lo) runs items) :
    Makes lo (decodedArray runs) (.array items) := by
  intro r hr
  obtain ⟨values, r₁, hgives, hready, hgrows, hall⟩ := makes_each h hr
  let o : Object := ⟨.array values.length, some Intrinsic.arrayPrototype.ref,
    values.zipIdx.map fun (element, n) => ordinary (.name (nameOfIndex n)) element⟩
  have hproperties : o.properties = (values.zipIdx.map fun (element, n) => (nameOfIndex n, element)).map
      fun entry => ordinary (.name entry.1) entry.2 := by
    rw [List.map_map]
    rfl
  have hopen : o.Open := .of_entries (fun _ hn => by cases hn) hproperties
  have hadd := grows_add r₁ o
  have hsize := size_add r₁ o
  have hself : (r₁.add o).2.object r₁.objects.size = o := object_add_self r₁ o
  refine ⟨.object r₁.objects.size, (r₁.add o).2, hgives.bind ((Run.gives_alloc o r₁).bind (Run.gives_pure _ _)),
    hready.add hopen fun parent hp => Option.some.inj hp ▸ inPlay_arrayPrototype, hgrows.trans hadd, ?_⟩
  refine .array hgrows.size (by omega) (by rw [hself]) (fun n hn => ?_) hall.length_eq.symm fun n hn hn' => ?_
  · have hne : Key.name (nameOfIndex n) ≠ .name lengthName := fun he =>
      nameOfIndex_ne_lengthName n (Key.name.inj he)
    rw [hself, Object.own?]
    simp only [o, if_neg hne]
    exact find?_elements values n hn
  · exact (hall.get hn hn').congr (fun ref _ hh => hadd.object ref hh) le_rfl le_rfl

/-! ### Objects -/

/-- The assignment of the member with a name, as a step of a loop over names. -/
def assignMember (members : List (Units × Run Value)) (ref : Ref) (name : Units) : Run (ForInStep PUnit) :=
  match members.find? fun member => member.1 = name with
  | some member => do
    let v ← member.2
    modify fun r => r.assign ref (.name name) v
    pure (.yield PUnit.unit)
  | none => pure (.yield PUnit.unit)

theorem decodedObject_eq (members : List (Units × Run Value)) : decodedObject members = do
    let ref ← Run.newObject .objectPrototype
    forIn (inOrder (members.map Prod.fst)) PUnit.unit fun name _ => assignMember members ref name
    return .object ref := rfl

/-- A realm with an object to which some entries have been assigned. -/
structure Building (r : Realm) (lo ref : Nat) (done : List (Units × Value)) : Prop where
  ready : r.Ready lo
  low : lo ≤ ref
  high : ref < r.objects.size
  nature : (r.object ref).nature = .plain
  properties : (r.object ref).properties = done.map fun entry => ordinary (.name entry.1) entry.2

/-- A realm that has grown, one of whose objects may have changed as well. -/
structure GrowsAround (r : Realm) (ref : Ref) (r' : Realm) : Prop where
  size : r.objects.size ≤ r'.objects.size
  bindings : r'.bindings = r.bindings
  others : ∀ other < r.objects.size, other ≠ ref → r'.object other = r.object other

theorem GrowsAround.trans {ref : Ref} (h : r.GrowsAround ref r') (h' : r'.GrowsAround ref r'') :
    r.GrowsAround ref r'' :=
  ⟨h.size.trans h'.size, h'.bindings.trans h.bindings, fun other ho hne =>
    (h'.others other (ho.trans_le h.size) hne).trans (h.others other ho hne)⟩

/-- The runs that build the members of an object, by the members' names. -/
def MakesMembers (lo : Nat) (runs : List (Units × Run Value)) (members : List (Text × Wire.Node)) : Prop :=
  List.Forall₂ (fun run member => run.1 = member.1.toUnits ∧ Makes lo run.2 member.2) runs members

variable {ref : Nat} {done : List (Units × Value)} {runs : List (Units × Run Value)}
  {members : List (Text × Wire.Node)}

theorem MakesMembers.names (h : MakesMembers lo runs members) :
    runs.map Prod.fst = members.map fun member => member.1.toUnits := by
  induction h with
  | nil => rfl
  | cons hm _ ih => rw [List.map_cons, List.map_cons, hm.1, ih]

/-- The run under the name of a member is the one that builds it. -/
theorem MakesMembers.find? (h : MakesMembers lo runs members)
    (distinct : (members.map fun member => member.1.toUnits).Nodup) {name : Text} (hm : (name, node) ∈ members) :
    ∃ run, runs.find? (fun member => member.1 = name.toUnits) = some (name.toUnits, run) ∧ Makes lo run node := by
  induction h with
  | nil => cases hm
  | @cons run member runs members hrun _ ih =>
    obtain ⟨units, run⟩ := run
    rw [List.map_cons, List.nodup_cons] at distinct
    obtain ⟨rfl, hmakes⟩ := hrun
    rcases List.mem_cons.mp hm with rfl | hm
    · exact ⟨run, by simp, hmakes⟩
    · have hne : member.1.toUnits ≠ name.toUnits := fun he =>
        distinct.1 (he ▸ List.mem_map_of_mem (f := fun member : Text × Wire.Node => member.1.toUnits) hm)
      obtain ⟨found, hfound, hmakes⟩ := ih distinct.2 hm
      exact ⟨found, by rw [List.find?_cons_of_neg (by simpa using hne), hfound], hmakes⟩

/-- An assignment of a member appends an entry, or it sets the prototype. -/
theorem Building.assign (h : r.Building lo ref done) {name : Units} (hnew : name ∉ done.map Prod.fst)
    (hparent : name = prototypeName → (r.object ref).prototype = some Intrinsic.objectPrototype.ref)
    (hv : ∀ child, v = .object child → InPlay lo child) :
    (r.assign ref (.name name) v).Building lo ref (if name = prototypeName then done else done ++ [(name, v)]) ∧
      r.GrowsAround ref (r.assign ref (.name name) v) ∧
      (name ≠ prototypeName → ((r.assign ref (.name name) v).object ref).prototype = (r.object ref).prototype) := by
  have hkeys : ∀ old ∈ (r.object ref).properties, old.key ≠ .name name := by
    rw [h.properties]
    intro old hold he
    obtain ⟨entry, hentry, rfl⟩ := List.mem_map.mp hold
    exact hnew (Key.name.inj he ▸ List.mem_map_of_mem hentry)
  have around {o : Object} (hr : r.Reshapes ref o (r.assign ref (.name name) v)) :
      r.GrowsAround ref (r.assign ref (.name name) v) :=
    ⟨hr.size.ge, hr.bindings, fun other _ hne => hr.others other hne⟩
  by_cases hname : name = prototypeName
  · -- The name is inherited, with a setter behind it, and no own property comes of it.
    subst hname
    obtain ⟨prototype, hr, hprototype⟩ := h.ready.assign_prototype h.high h.nature (hparent rfl) hkeys v
    have hopen : Object.Open { r.object ref with prototype := prototype } :=
      .of_entries (fun _ hn => by cases h.nature.symm.trans hn) h.properties
    have hready := h.ready.reshape hr h.low hopen fun parent hp =>
      (hprototype parent hp).elim (fun he => he ▸ inPlay_objectPrototype) (hv parent)
    rw [if_pos rfl]
    refine ⟨⟨hready, h.low, hr.size.symm ▸ h.high, ?_, ?_⟩, around hr, fun hne => absurd rfl hne⟩
    · rw [hr.self]
      exact h.nature
    · rw [hr.self]
      exact h.properties
  · have hr := h.ready.assign_name h.low h.high hname h.nature hkeys v
    have hproperties : (r.object ref).properties ++ [ordinary (.name name) v] =
        (done ++ [(name, v)]).map fun entry => ordinary (.name entry.1) entry.2 := by
      rw [h.properties, List.map_append, List.map_singleton]
    have hopen : Object.Open { r.object ref with
        properties := (r.object ref).properties ++ [ordinary (.name name) v] } :=
      .of_entries (fun _ hn => by cases h.nature.symm.trans hn) hproperties
    have hready := h.ready.reshape hr h.low hopen fun parent hp => h.ready.prototype ref parent (inPlay_of_le h.low) hp
    rw [if_neg hname]
    refine ⟨⟨hready, h.low, hr.size.symm ▸ h.high, ?_, ?_⟩, around hr, fun _ => by rw [hr.self]⟩
    · rw [hr.self]
      exact h.nature
    · rw [hr.self]
      exact hproperties

/-- A step of the loop: the member's value is built, and assigned. -/
theorem Building.assignMember (h : r.Building lo ref done) (hruns : MakesMembers lo runs members)
    (distinct : (members.map fun member => member.1.toUnits).Nodup) {name : Text} (hm : (name, node) ∈ members)
    (hnew : name.toUnits ∉ done.map Prod.fst)
    (hparent : name.toUnits = prototypeName → (r.object ref).prototype = some Intrinsic.objectPrototype.ref) :
    ∃ v r', (assignMember runs ref name.toUnits).Gives r (.yield PUnit.unit) r' ∧
      r'.Building lo ref (if name.toUnits = prototypeName then done else done ++ [(name.toUnits, v)]) ∧
      r.GrowsAround ref r' ∧
      (name.toUnits ≠ prototypeName → (r'.object ref).prototype = (r.object ref).prototype) ∧
      r'.Builds (ref + 1) r'.objects.size node v := by
  obtain ⟨run, hfind, hmakes⟩ := hruns.find? distinct hm
  obtain ⟨v, r₁, hgives, hready, hgrows, hbuilds⟩ := hmakes r h.ready
  have hself : r₁.object ref = r.object ref := hgrows.object ref h.high
  have hbuilding : r₁.Building lo ref done :=
    ⟨hready, h.low, h.high.trans_le hgrows.size, hself ▸ h.nature, hself ▸ h.properties⟩
  have hchild : ∀ child, v = .object child → InPlay lo child := by
    rintro child rfl
    exact inPlay_of_le (h.ready.size.trans hbuilds.range.1)
  obtain ⟨hassigned, haround, hkept⟩ := hbuilding.assign hnew (hself ▸ hparent) hchild
  refine ⟨v, r₁.assign ref (.name name.toUnits) v, ?_, hassigned, ?_, hself ▸ hkept, ?_⟩
  · rw [Realm.assignMember, hfind]
    exact hgives.bind ((Run.gives_modify _ r₁).bind (Run.gives_pure _ _))
  · exact .trans ⟨hgrows.size, hgrows.bindings, fun other ho _ => hgrows.object other ho⟩ haround
  · have hhigh := h.high
    exact hbuilds.congr (fun other hl hh => haround.others other hh (by omega)) hhigh haround.size

/-- The loop over some names of members assigns the members, one after the other. -/
theorem Building.assignMembers (hruns : MakesMembers lo runs members)
    (distinct : (members.map fun member => member.1.toUnits).Nodup) {names : List Units} (hnames : names.Nodup)
    (hall : ∀ name ∈ names, name ∈ members.map fun member => member.1.toUnits) (h : r.Building lo ref done)
    (hnew : ∀ name ∈ names, name ∉ done.map Prod.fst)
    (hparent : prototypeName ∈ names → (r.object ref).prototype = some Intrinsic.objectPrototype.ref) :
    ∃ entries r', (forIn names PUnit.unit fun name _ => Realm.assignMember runs ref name : Run PUnit).Gives r .unit r' ∧
      r'.Building lo ref (done ++ entries) ∧ r.GrowsAround ref r' ∧
      entries.map Prod.fst = names.filter (fun name => name ≠ prototypeName) ∧
      ∀ name node v, (name, node) ∈ members → (name.toUnits, v) ∈ entries →
        r'.Builds (ref + 1) r'.objects.size node v := by
  -- What has been built for a name stays as the later names are assigned, since only `ref` changes.
  induction names generalizing r done with
  | nil =>
    refine ⟨[], r, by rw [List.forIn_nil]; exact Run.gives_pure _ r, by rwa [List.append_nil], ⟨le_rfl, rfl, fun _ _ _ => rfl⟩,
      rfl, fun _ _ _ _ he => by cases he⟩
  | cons units names ih =>
    obtain ⟨⟨name, node⟩, hm, rfl⟩ := List.mem_map.mp (hall units List.mem_cons_self)
    obtain ⟨hfresh, hnames⟩ := List.nodup_cons.mp hnames
    obtain ⟨v, r₁, hgives, hbuilding, haround, hkept, hbuilds⟩ := h.assignMember hruns distinct hm
      (hnew _ List.mem_cons_self) fun he => hparent (he ▸ List.mem_cons_self)
    have hnew' : ∀ other ∈ names,
        other ∉ (if name.toUnits = prototypeName then done else done ++ [(name.toUnits, v)]).map Prod.fst := by
      intro other ho
      have hdone := hnew other (List.mem_cons_of_mem _ ho)
      split
      case isTrue => exact hdone
      case isFalse =>
        rw [List.map_append, List.mem_append, not_or]
        exact ⟨hdone, fun he => hfresh ((show other = name.toUnits from List.mem_singleton.mp he) ▸ ho)⟩
    have hparent' : prototypeName ∈ names → (r₁.object ref).prototype = some Intrinsic.objectPrototype.ref := by
      intro hp
      rw [hkept fun he => hfresh (he ▸ hp)]
      exact hparent (List.mem_cons_of_mem _ hp)
    obtain ⟨entries, r₂, hloop, hbuilding', haround', hentries, hbuilt⟩ := ih hnames
      (fun other ho => hall other (List.mem_cons_of_mem _ ho)) hbuilding hnew' hparent'
    have hgives' : (forIn (name.toUnits :: names) PUnit.unit fun name _ => Realm.assignMember runs ref name :
        Run PUnit).Gives r .unit r₂ := by
      rw [List.forIn_cons]
      exact hgives.bind hloop
    have hfirst : r₂.Builds (ref + 1) r₂.objects.size node v :=
      hbuilds.congr (fun other hl hh => haround'.others other hh (by omega)) le_rfl haround'.size
    -- The name of the prototype leaves no entry, any other one an entry in front of the later ones.
    by_cases hname : name.toUnits = prototypeName
    · rw [if_pos hname] at hbuilding'
      refine ⟨entries, r₂, hgives', hbuilding', haround.trans haround', ?_, hbuilt⟩
      rw [hentries, List.filter_cons_of_neg (by simpa using hname)]
    · rw [if_neg hname, List.append_assoc] at hbuilding'
      refine ⟨(name.toUnits, v) :: entries, r₂, hgives', hbuilding', haround.trans haround', ?_, ?_⟩
      · rw [List.map_cons, hentries, List.filter_cons_of_pos (by simpa using hname)]
      · intro other node' w ho he
        rcases List.mem_cons.mp he with he | he
        · obtain ⟨hunits, rfl⟩ := Prod.mk.inj he
          obtain ⟨-, rfl⟩ := Prod.mk.inj (List.inj_on_of_nodup_map distinct ho hm hunits)
          exact hfirst
        · exact hbuilt other node' w ho he

theorem makes_object (hruns : MakesMembers lo runs members)
    (distinct : (members.map fun member => member.1.toUnits).Nodup) : Makes lo (decodedObject runs) (.object members) := by
  intro r hr
  let o : Object := ⟨.plain, some Intrinsic.objectPrototype.ref, []⟩
  have hself : (r.add o).2.object r.objects.size = o := object_add_self r o
  have hsize := size_add r o
  have hempty : o.properties = ([] : List (Units × Value)).map fun entry => ordinary (.name entry.1) entry.2 := rfl
  have hready : (r.add o).2.Ready lo :=
    hr.add (.of_entries (fun _ hn => by cases hn) hempty) fun parent hp => Option.some.inj hp ▸ inPlay_objectPrototype
  have hbuilding : (r.add o).2.Building lo r.objects.size [] :=
    ⟨hready, hr.size, by omega, by rw [hself], by rw [hself, hempty]⟩
  obtain ⟨entries, r', hloop, hbuilding', haround, hentries, hbuilt⟩ := hbuilding.assignMembers hruns distinct
    (nodup_inOrder distinct)
    (fun name hn => mem_inOrder.mp hn) (fun _ _ hm => by cases hm) fun _ => by rw [hself]
  have hgives : (decodedObject runs).Gives r (.object r.objects.size) r' := by
    rw [decodedObject_eq, hruns.names]
    exact (Run.gives_alloc o r).bind (hloop.bind (Run.gives_pure _ _))
  have hlow : r.objects.size ≤ r'.objects.size := by
    have := haround.size
    omega
  have hgrows : r.Grows r' := ⟨hlow, haround.bindings, fun ref href => by
    rw [haround.others ref (by omega) (by omega), (grows_add r o).object ref href]⟩
  exact ⟨.object r.objects.size, r', hgives, hbuilding'.ready, hgrows,
    .object le_rfl hbuilding'.high hbuilding'.nature hbuilding'.properties hentries hbuilt⟩

end Realm

/-! ### Nodes -/

section
variable (scripts : Scripts)

theorem numberOf_word {d : Double} {word : Text} (h : Wire.numberWord? d = some word) : numberOf word.toUnits = d := by
  rcases Wire.numberWord?_cases h with ⟨rfl, rfl⟩ | ⟨negative, rfl, rfl⟩
  · decide
  · cases negative <;> decide

theorem decode_number (d : Double) : decode scripts (Wire.Node.number d).toJson = pure (.number d) := by
  rw [Wire.Node.toJson]
  rcases h : Wire.numberWord? d with _ | word
  · rfl
  · have hword : decode scripts (.object [(.ofString "t", .text (.ofString "number")), (.ofString "v", .text word)]) =
        pure (.number (numberOf word.toUnits)) := rfl
    rw [hword, numberOf_word h]

end

namespace Realm
variable {r : Realm} {lo hi base : Nat} {node : Wire.Node} {v : Value} {scripts : Scripts}

mutual

/-- A buildable node is built. -/
theorem makes_decode : ∀ node : Wire.Node, node.Buildable → Makes lo (decode scripts node.toJson) node
  | .null, _ => makes_pure .null
  | .boolean b, _ => makes_pure (.boolean b)
  | .number d, _ => decode_number scripts d ▸ makes_pure (.number d)
  | .string t, _ => makes_pure (.string t)
  | .array items, h => makes_array (makes_decodeItems items h)
  | .object members, h => makes_object (makes_decodeMembers members h.2) h.1

theorem makes_decodeItems : ∀ items : List Wire.Node, Wire.ItemsBuildable items →
    List.Forall₂ (Makes lo) (decodeItems scripts (Wire.itemsToJson items)) items
  | [], _ => .nil
  | item :: rest, h => .cons (makes_decode item h.1) (makes_decodeItems rest h.2)

theorem makes_decodeMembers : ∀ members : List (Text × Wire.Node), Wire.MembersBuildable members →
    MakesMembers lo (decodeMembers scripts (Wire.membersToJson members)) members
  | [], _ => .nil
  | (_, node) :: rest, h => .cons ⟨rfl, makes_decode node h.1⟩ (makes_decodeMembers rest h.2)

end

/-! ### What has been built -/

theorem isArray_of_own {ref : Ref} {elements : List Value} (hnature : (r.object ref).nature = .array elements.length)
    (hown : ∀ n (h : n < elements.length), (r.object ref).own? (.name (nameOfIndex n)) =
      some (ordinary (.name (nameOfIndex n)) elements[n])) : r.IsArray ref elements where
  isArray := isArray_of_nature hnature
  length := lengthOf_of_nature hnature
  holds n h := .data (find_of_own (fun target ht => by cases hnature.symm.trans ht) (hown n h)) rfl

theorem enumerableNames_of_entries {o : Object} {entries : List (Units × Value)}
    (h : o.properties = entries.map fun entry => ordinary (.name entry.1) entry.2) :
    o.enumerableNames = inOrder (entries.map Prod.fst) := by
  rw [Object.enumerableNames, h, List.filterMap_map, ← List.filterMap_eq_map]
  rfl

/-- An object with ordinary properties in their order is a record. -/
theorem Ready.isRecord (hr : r.Ready lo) {ref : Ref} (href : InPlay lo ref) {entries : List (Units × Value)}
    (hnature : (r.object ref).nature = .plain)
    (hproperties : (r.object ref).properties = entries.map fun entry => ordinary (.name entry.1) entry.2)
    (hordered : inOrder (entries.map Prod.fst) = entries.map Prod.fst) (distinct : (entries.map Prod.fst).Nodup) :
    r.IsRecord ref entries where
  callable := callable_of_plain hnature
  isArray := isArray_of_plain hnature
  tag := by
    have hget : r.get ref (.symbol .toStringTag) = .ok .undefined := by rw [get, hr.find_tag href]
    exact tagOf_of_plain hnature ⟨_, hget, fun _ h => by cases h⟩
  keys := by rw [keys_of_plain hnature, enumerableNames_of_entries hproperties, hordered]
  distinct := distinct
  holds := by
    rintro ⟨name, v⟩ hm
    have hown : (r.object ref).own? (.name name) = some (ordinary (.name name) v) := by
      rw [Object.own?_of_plain hnature, hproperties, List.find?_map]
      have hfind := Members.find?_of_distinct distinct hm
      simp only [Function.comp_def, ordinary, Key.name.injEq, hfind, Option.map_some]
    exact .data (find_of_own (fun target ht => by cases hnature.symm.trans ht) hown) rfl

theorem indexOf?_prototypeName : indexOf? prototypeName = none := by decide

/-- The object that was built for a node is a record. -/
theorem Ready.isRecord_built (hr : r.Ready lo) {ref : Ref} (href : lo ≤ ref)
    {members : List (Text × Wire.Node)} {entries : List (Units × Value)}
    (hnature : (r.object ref).nature = .plain)
    (hproperties : (r.object ref).properties = entries.map fun entry => ordinary (.name entry.1) entry.2)
    (hnames : entries.map Prod.fst =
      (inOrder (members.map fun member => member.1.toUnits)).filter fun name => name ≠ prototypeName)
    (distinct : (members.map fun member => member.1.toUnits).Nodup) : r.IsRecord ref entries := by
  refine hr.isRecord (inPlay_of_le href) hnature hproperties ?_ (hnames ▸ (nodup_inOrder distinct).filter _)
  rw [hnames, inOrder_filter_ne indexOf?_prototypeName, inOrder_inOrder]

/-- What has been built for a node is a graph of data. -/
theorem Builds.isData (h : r.Builds lo hi node v) (hr : r.Ready base) (hbase : base ≤ lo) (hnode : node.Buildable) :
    r.IsData v := by
  refine isData_of_closed (S := fun w => ∃ lo hi node, base ≤ lo ∧ node.Buildable ∧ r.Builds lo hi node w)
    ⟨lo, hi, node, hbase, hnode, h⟩ ?_
  rintro ref ⟨lo, hi, node, hbase, hnode, h⟩
  cases h with
  | array hl hh hnature hown hlength hitems =>
    refine .inl ⟨_, isArray_of_own hnature hown, fun w hw => ?_⟩
    obtain ⟨n, hn, rfl⟩ := List.mem_iff_getElem.mp hw
    exact ⟨lo, ref, _, hbase, Wire.itemsBuildable_iff.mp hnode _ (List.getElem_mem (hlength ▸ hn)), hitems n (hlength ▸ hn) hn⟩
  | @object lo hi ref members entries hl hh hnature hproperties hnames hmembers =>
    refine .inr (.inl ⟨entries, hr.isRecord_built (hbase.trans hl) hnature hproperties hnames hnode.1, ?_, ?_⟩)
    · rw [hnames]
      simp
    · rintro ⟨name, w⟩ hw
      have hname : name ∈ members.map fun member => member.1.toUnits := by
        have := List.mem_map_of_mem (f := Prod.fst) hw
        rw [hnames] at this
        exact mem_inOrder.mp (List.mem_filter.mp this).1
      obtain ⟨⟨t, node⟩, hm, rfl⟩ := List.mem_map.mp hname
      exact ⟨ref + 1, hi, node, hbase.trans (hl.trans (Nat.le_succ ref)), Wire.membersBuildable_iff.mp hnode.2 _ hm,
        hmembers t node w hm hw⟩

end Realm

end ScriptLink.Script
