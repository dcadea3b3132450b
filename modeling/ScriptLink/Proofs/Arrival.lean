import ScriptLink.Proofs.Crossing
import ScriptLink.Wire.Encode

/-! # Values of the caller on the other side

    What of a value of the caller stands in the node that arrives at the script. Texts arrive with their surrogate
    pairs joined, so the entries of a mapping can be merged on the way: `Members.crossed` says what is left of them.
    Main statement: an accepted argument arrives, and is nested no deeper than `maxDepth`. -/

namespace ScriptLink

namespace Members
variable {α β : Type} {entries : List (Text × α)}

/-- Entries as they arrive: under joined names, and merged where names are equal. -/
def crossed (entries : List (Text × α)) : Members α :=
  ofList ((ofList entries).map fun entry => (entry.1.join, entry.2))

theorem nodup_crossed (entries : List (Text × α)) : (crossed entries).names.Nodup := nodup_ofList _

theorem mem_of_mem_crossed {name : Text} {value : α} (h : (name, value) ∈ crossed entries) :
    ∃ other, (other, value) ∈ entries ∧ name = other.join := by
  obtain ⟨⟨other, value⟩, hm, he⟩ := List.mem_map.mp (mem_of_mem_ofList h)
  obtain ⟨rfl, rfl⟩ := Prod.mk.inj he
  exact ⟨other, mem_of_mem_ofList hm, rfl⟩

/-- Names that stay different when they are joined are kept. -/
theorem crossed_of_nodup (h : (entries.map fun entry => entry.1.join).Nodup) :
    crossed entries = entries.map fun entry => (entry.1.join, entry.2) := by
  have hnames : (entries.map Prod.fst).Nodup := by
    have := h
    rw [show entries.map (fun entry => entry.1.join) = (entries.map Prod.fst).map Text.join by simp] at this
    exact this.of_map
  rw [crossed, ofList_of_nodup hnames, ofList_of_nodup]
  rwa [List.map_map]

theorem join_of_mem_crossed {name : Text} (h : name ∈ (crossed entries).names) : name.join = name := by
  obtain ⟨⟨name, value⟩, hm, rfl⟩ := List.mem_map.mp (show name ∈ (crossed entries).map Prod.fst from h)
  obtain ⟨other, -, rfl⟩ := mem_of_mem_crossed hm
  exact Text.join_join other

/-- Two names of entries that have arrived do not have the same units. -/
theorem nodup_units_crossed (entries : List (Text × α)) : ((crossed entries).names.map Text.toUnits).Nodup := by
  refine (nodup_crossed entries).map_on fun s hs t ht h => ?_
  rw [← join_of_mem_crossed hs, Text.join_eq_join_iff.mpr h, join_of_mem_crossed ht]

end Members

namespace Host
variable {α : Type}

/-- The entries of a mapping whose keys are texts, by text. -/
def texts (entries : List (Value × α)) : List (Text × α) :=
  entries.filterMap fun entry => entry.1.likeText?.map fun name => (name, entry.2)

theorem texts_cons {key : Value} {name : Text} (h : key.likeText? = some name) (value : α)
    (rest : List (Value × α)) : texts ((key, value) :: rest) = (name, value) :: texts rest := by
  rw [texts, List.filterMap_cons_some (by rw [h]; rfl)]
  rfl

/-- A container is followed with other containers above it; which of them matter for the next one depends on what it
    notices. -/
theorem Graph.unfold_object {g : Graph} {path blind : List Nat} {id : Nat} (depth : Nat) (hpath : id ∉ path)
    (hblind : id ∉ blind) : ∃ path' blind', path' ⊆ id :: path ∧ blind' ⊆ id :: blind ∧
      g.unfold (depth + 1) path blind (.object id) =
        match g.object id with
        | .sequence kind items => .sequence kind (items.map (g.unfold depth path' blind'))
        | .mapping kind entries =>
          .mapping kind (entries.map fun entry => (entry.1, g.unfold depth path' blind' entry.2)) := by
  rw [unfold]
  cases hguards : (g.object id).shape.guards with
  | true =>
    refine ⟨id :: path, [], List.Subset.refl _, List.nil_subset _, ?_⟩
    cases g.object id <;> simp only [if_true, hpath, if_false]
  | false =>
    refine ⟨path, id :: blind, List.subset_cons_self _ _, List.Subset.refl _, ?_⟩
    cases g.object id <;> simp only [Bool.false_eq_true, hblind, if_false]

end Host

namespace Wire
open Host (texts)

/-- The node that arrives for a value of the caller. -/
inductive Arrives : Host.Value → Node → Prop
  | scalar {s : Host.Scalar} {node : Node} : Node.ofScalar s = .ok node → Arrives (.scalar s) node.joined
  | sequence {kind : Host.SequenceKind} {items : List Host.Value} {nodes : List Node} : items.length = nodes.length →
      (∀ n (h : n < items.length) (h' : n < nodes.length), Arrives items[n] nodes[n]) →
      Arrives (.sequence kind items) (.array nodes)
  | mapping {kind : Host.MappingKind} {entries : List (Host.Value × Host.Value)} {members : List (Text × Node)} :
      (∀ entry ∈ entries, entry.1.likeText?.isSome) →
      (Members.crossed (texts entries)).names = members.map Prod.fst →
      (∀ n (h : n < (Members.crossed (texts entries)).length) (h' : n < members.length),
        Arrives (Members.crossed (texts entries))[n].2 members[n].2) →
      Arrives (.mapping kind entries) (.object members)

/-! ### What the conversion of an argument has gone through -/

theorem bind_eq_ok {ε α β : Type} {x : Except ε α} {f : α → Except ε β} {b : β} :
    x >>= f = .ok b ↔ ∃ a, x = .ok a ∧ f a = .ok b := by
  cases x with
  | error e =>
    constructor
    · intro h
      cases h
    · rintro ⟨_, h, _⟩
      cases h
  | ok a =>
    constructor
    · exact fun h => ⟨a, rfl, h⟩
    · rintro ⟨_, h, h'⟩
      cases h
      exact h'

/-- What one of each two paired values has, all of these values have. -/
theorem forall_of_forall₂ {α β : Type} {R : α → β → Prop} {P : β → Prop} {xs : List α} {ys : List β}
    (h : List.Forall₂ R xs ys) (hP : ∀ x y, R x y → P y) : ∀ y ∈ ys, P y := by
  induction h with
  | nil => exact List.forall_mem_nil _
  | cons hr _ ih => exact List.forall_mem_cons.mpr ⟨hP _ _ hr, ih⟩

theorem names_of_forall₂ {κ α β : Type} {members : List (κ × α)} {others : List (κ × β)}
    (h : List.Forall₂ (fun member other => member.1 = other.1) members others) :
    members.map Prod.fst = others.map Prod.fst := by
  induction h with
  | nil => rfl
  | cons hname _ ih => exact congrArg₂ List.cons hname ih

/-- A conversion of some values went well for each of them. -/
theorem forall₂_of_mapM {ε α β : Type} {f : α → Except ε β} {values : List α} {results : List β}
    (h : values.mapM f = .ok results) : List.Forall₂ (fun value result => f value = .ok result) values results := by
  induction values generalizing results with
  | nil =>
    rw [List.mapM_nil] at h
    cases h
    exact .nil
  | cons value values ih =>
    rw [List.mapM_cons, bind_eq_ok] at h
    obtain ⟨result, hresult, h⟩ := h
    obtain ⟨rest, hrest, h⟩ := bind_eq_ok.mp h
    cases h
    exact .cons hresult (ih hrest)

theorem keyName_eq_ok {room : Nat} {key : Host.Value} {name : Text} :
    keyName room key = .ok name ↔ key.likeText? = some name := by
  rw [keyName]
  cases key.likeText? with
  | none => cases key.unshown? room <;> constructor <;> intro h <;> cases h
  | some other => exact ⟨fun h => congrArg some (Except.ok.inj h), fun h => congrArg Except.ok (Option.some.inj h)⟩

/-- A conversion of some entries gave a name and a node for each of them, and put them together. -/
theorem forall₂_of_foldlM {room : Nat} {f : Host.Item → Except Refusal Node} {entries : List (Host.Value × Host.Item)}
    {before members : Members Node} (h : entries.foldlM (fun (members : Members Node) entry => do
      let name ← keyName room entry.1
      let node ← f entry.2
      return members.insert name node) before = .ok members) :
    ∃ named : List (Text × Node),
      List.Forall₂ (fun entry member => entry.1.likeText? = some member.1 ∧ f entry.2 = .ok member.2) entries named ∧
      members = named.foldl (fun members member => members.insert member.1 member.2) before := by
  induction entries generalizing before with
  | nil =>
    rw [List.foldlM_nil] at h
    cases h
    exact ⟨[], .nil, rfl⟩
  | cons entry entries ih =>
    rw [List.foldlM_cons, bind_eq_ok] at h
    obtain ⟨between, hstep, h⟩ := h
    obtain ⟨name, hname, hstep⟩ := bind_eq_ok.mp hstep
    obtain ⟨node, hnode, hstep⟩ := bind_eq_ok.mp hstep
    cases hstep
    obtain ⟨named, hall, rfl⟩ := ih h
    exact ⟨(name, node) :: named, .cons ⟨keyName_eq_ok.mp hname, hnode⟩ hall, rfl⟩

/-! ### Accepted arguments arrive -/

/-- What an entry of a mapping and a member of its node have in common. -/
def EntryArrives (room : Nat) (entry : Text × Host.Value) (member : Text × Node) : Prop :=
  entry.1 = member.1 ∧ member.2.Within room ∧ Arrives entry.2 member.2.joined

/-- The scalars that are accepted, with their nodes. -/
theorem ofScalar_cases {s : Host.Scalar} {node : Node} (h : Node.ofScalar s = .ok node) :
    s = .none ∧ node = .null ∨ (∃ b, s = .bool b ∧ node = .boolean b) ∨
      (∃ n subclass d, s = .int n subclass ∧ Double.ofInt? n = some d ∧ node = .number d) ∨
      (∃ d subclass, s = .float d subclass ∧ node = .number d) ∨
      ∃ t kind, s = .text t kind ∧ node = .string t := by
  cases s with
  | none => exact .inl ⟨rfl, (Except.ok.inj h).symm⟩
  | bool b => exact .inr (.inl ⟨b, rfl, (Except.ok.inj h).symm⟩)
  | int n subclass =>
    rw [Node.ofScalar] at h
    rcases hd : Double.ofInt? n with _ | d
    · rw [hd] at h
      cases h
    · rw [hd] at h
      exact .inr (.inr (.inl ⟨n, subclass, d, rfl, hd, (Except.ok.inj h).symm⟩))
  | float d subclass => exact .inr (.inr (.inr (.inl ⟨d, subclass, rfl, (Except.ok.inj h).symm⟩)))
  | text t kind => exact .inr (.inr (.inr (.inr ⟨t, kind, rfl, (Except.ok.inj h).symm⟩)))
  | bytes | marker | foreign => cases h

theorem arrives_scalar {s : Host.Scalar} {node : Node} {room : Nat} (h : Node.ofScalar s = .ok node) :
    node.Within room ∧ Arrives (.scalar s) node.joined := by
  refine ⟨?_, .scalar h⟩
  rcases ofScalar_cases h with ⟨-, rfl⟩ | ⟨_, -, rfl⟩ | ⟨_, _, _, -, -, rfl⟩ | ⟨_, _, -, rfl⟩ | ⟨_, _, -, rfl⟩ <;>
    cases room <;> trivial

theorem arrives_sequence {kind : Host.SequenceKind} {values : List Host.Value} {nodes : List Node} {room : Nat}
    (h : List.Forall₂ (fun value node => Node.Within room node ∧ Arrives value node.joined) values nodes) :
    (Node.array nodes).Within (room + 1) ∧ Arrives (.sequence kind values) (Node.array nodes).joined := by
  constructor
  · exact itemsWithin_iff.mpr (forall_of_forall₂ h fun _ _ h => h.1)
  · rw [Node.joined, joinedItems_eq]
    refine .sequence (by rw [List.length_map, h.length_eq]) fun n hn hn' => ?_
    rw [List.getElem_map]
    exact (h.get hn (by simpa using hn')).2

theorem arrives_mapping {kind : Host.MappingKind} {entries : List (Host.Value × Host.Value)}
    {named : List (Text × Node)} {room : Nat} (hkeys : ∀ entry ∈ entries, entry.1.likeText?.isSome)
    (h : List.Forall₂ (EntryArrives room) (texts entries) named) :
    (Node.object (Members.ofList named)).Within (room + 1) ∧
      Arrives (.mapping kind entries) (Node.object (Members.ofList named)).joined := by
  have hmerged := Members.forall₂_ofList (fun _ _ h => h.1) h
  constructor
  · exact membersWithin_iff.mpr (forall_of_forall₂ hmerged fun _ _ h => h.2.1)
  · have hjoined : List.Forall₂ (fun entry member => entry.1 = member.1 ∧ Arrives entry.2 member.2)
        ((Members.ofList (texts entries)).map fun entry => (entry.1.join, entry.2))
        (joinedMembers (Members.ofList named)) := by
      rw [joinedMembers_eq, List.forall₂_map_left_iff, List.forall₂_map_right_iff]
      exact hmerged.imp fun _ _ h => ⟨congrArg Text.join h.1, h.2.2⟩
    have hcrossed := Members.forall₂_ofList (fun _ _ h => h.1) hjoined
    refine .mapping hkeys ?_ fun n hn hn' => (hcrossed.get hn hn').2
    exact names_of_forall₂ (hcrossed.imp fun _ _ h => h.1)

/-- The entries of an accepted mapping arrive, whatever becomes of their names. -/
theorem forall₂_texts {entries : List (Host.Value × Host.Item)} {named : List (Text × Node)} {room : Nat}
    {below : Host.Item → Host.Value}
    (h : List.Forall₂ (fun entry member => entry.1.likeText? = some member.1 ∧ member.2.Within room ∧
      Arrives (below entry.2) member.2.joined) entries named) :
    (∀ entry ∈ entries.map fun entry => (entry.1, below entry.2), entry.1.likeText?.isSome) ∧
      List.Forall₂ (EntryArrives room) (texts (entries.map fun entry => (entry.1, below entry.2))) named := by
  induction h with
  | nil => exact ⟨List.forall_mem_nil _, .nil⟩
  | @cons entry member entries named hm _ ih =>
    obtain ⟨hkey, hnode⟩ := hm
    rw [List.map_cons, Host.texts_cons hkey]
    exact ⟨List.forall_mem_cons.mpr ⟨by rw [hkey]; rfl, ih.1⟩, .cons ⟨rfl, hnode⟩ ih.2⟩

/-- An induction over what is accepted. The conversion notices every container on the path, so where the value is
    followed at least as deep nothing is cut off, and a container shows what its items were converted for. -/
theorem ofItem_induction {g : Host.Graph} {P : Nat → Host.Value → Node → Prop}
    (scalar : ∀ {room s node}, Node.ofScalar s = .ok node → P room (.scalar s) node)
    (sequence : ∀ {room kind values nodes}, List.Forall₂ (P room) values nodes →
      P (room + 1) (.sequence kind values) (.array nodes))
    (mapping : ∀ {room id kind entries named} (below : Host.Item → Host.Value), g.object id = .mapping kind entries →
      List.Forall₂ (fun entry member => entry.1.likeText? = some member.1 ∧ P room (below entry.2) member.2)
        entries named →
      P (room + 1) (.mapping kind (entries.map fun entry => (entry.1, below entry.2))) (.object (Members.ofList named)))
    {room : Nat} {path : List Nat} {item : Host.Item} {node : Node} (h : Node.ofItem g room path item = .ok node)
    {depth : Nat} (hdepth : room ≤ depth) {seen blind : List Nat} (hseen : seen ⊆ path) (hblind : blind ⊆ path) :
    P room (g.unfold depth seen blind item) node := by
  induction room generalizing path item node depth seen blind with
  | zero =>
    cases item with
    | scalar s =>
      rw [Node.ofItem] at h
      rw [Host.Graph.unfold]
      exact scalar h
    | object id =>
      rw [Node.ofItem] at h
      split at h <;> cases h
  | succ room ih =>
    cases item with
    | scalar s =>
      rw [Node.ofItem] at h
      rw [Host.Graph.unfold]
      exact scalar h
    | object id =>
      rw [Node.ofItem] at h
      split at h
      case isTrue => cases h
      case isFalse hpath =>
        obtain ⟨depth, rfl⟩ : ∃ below, depth = below + 1 := ⟨depth - 1, by omega⟩
        obtain ⟨seen', blind', hseen', hblind', hunfold⟩ := Host.Graph.unfold_object (g := g) depth
          (fun hm => hpath (hseen hm)) (fun hm => hpath (hblind hm))
        have each (item : Host.Item) (node : Node) (h : Node.ofItem g room (id :: path) item = .ok node) :
            P room (g.unfold depth seen' blind' item) node :=
          ih h (by omega) (List.Subset.trans hseen' (List.cons_subset_cons id hseen))
            (List.Subset.trans hblind' (List.cons_subset_cons id hblind))
        rw [hunfold]
        cases hobject : g.object id with
        | sequence kind items =>
          rw [hobject] at h
          obtain ⟨nodes, hnodes, h⟩ := bind_eq_ok.mp h
          cases h
          refine sequence ?_
          rw [List.forall₂_map_left_iff]
          exact (forall₂_of_mapM hnodes).imp each
        | mapping kind entries =>
          rw [hobject] at h
          obtain ⟨members, hmembers, h⟩ := bind_eq_ok.mp h
          cases h
          obtain ⟨named, hall, rfl⟩ := forall₂_of_foldlM hmembers
          exact mapping _ hobject (hall.imp fun entry member hm => ⟨hm.1, each _ _ hm.2⟩)

/-- What is accepted arrives. -/
theorem arrives_of_ofItem {g : Host.Graph} {room : Nat} {path : List Nat} {item : Host.Item} {node : Node}
    (h : Node.ofItem g room path item = .ok node) {depth : Nat} (hdepth : room ≤ depth) {seen blind : List Nat}
    (hseen : seen ⊆ path) (hblind : blind ⊆ path) :
    node.Within room ∧ Arrives (g.unfold depth seen blind item) node.joined := by
  refine ofItem_induction (P := fun room value node => node.Within room ∧ Arrives value node.joined) arrives_scalar
    arrives_sequence (fun below _ hall => ?_) h hdepth hseen hblind
  obtain ⟨hkeys, htexts⟩ := forall₂_texts hall
  exact arrives_mapping hkeys htexts

end Wire

end ScriptLink
