import ScriptLink.Proofs.Trees

/-! # The tagged form read back

    What a node is read as, and what of the value that it was written for is left in that: the class of each number,
    text and container is lost, and nothing else. The other way round, a node is the only one that its value is
    written as, and the marker, which some nodes are read as, is written as none. -/

namespace ScriptLink

namespace Host

mutual

/-- What is left of a value in the tagged form: numbers are the nearest floats, and all classes are plain. -/
def Value.settled : Value → Value
  | .scalar (.int n _) => .float (.ofInt n)
  | .scalar (.float d _) => .float d
  | .scalar (.text t _) => .text t
  | .scalar s => .scalar s
  | .sequence _ items => .sequence .list (settledItems items)
  | .mapping _ entries => .mapping .dict (settledEntries entries)
  | .again shape => .again shape
  | .beyond shape => .beyond shape

/-- The settled items of a sequence. -/
def settledItems : List Value → List Value
  | [] => []
  | item :: rest => item.settled :: settledItems rest

/-- The settled entries of a mapping. -/
def settledEntries : List (Value × Value) → List (Value × Value)
  | [] => []
  | (key, value) :: rest => (key.settled, value.settled) :: settledEntries rest

end

theorem settledItems_eq (items : List Value) : settledItems items = items.map Value.settled := by
  induction items with
  | nil => rfl
  | cons item rest ih => rw [settledItems, ih, List.map_cons]

theorem settledEntries_eq (entries : List (Value × Value)) :
    settledEntries entries = entries.map fun entry => (entry.1.settled, entry.2.settled) := by
  induction entries with
  | nil => rfl
  | cons entry rest ih => rw [settledEntries, ih, List.map_cons]

theorem settled_of_likeText? {key : Value} {name : Text} (h : key.likeText? = some name) : key.settled = .text name := by
  cases key with
  | scalar s =>
    cases s <;> cases h
    rfl
  | sequence | mapping | again | beyond => cases h

end Host

namespace Wire

mutual

/-- The value that a node is read as. -/
def Node.value : Node → Host.Value
  | .null => .none
  | .boolean b => .scalar (.bool b)
  | .number d => .float d
  | .string t => .text t
  | .array items => .sequence .list (itemValues items)
  | .object members => .mapping .dict (memberValues members)
  | .complex => .scalar .marker

/-- The values of the nodes of an array. -/
def itemValues : List Node → List Host.Value
  | [] => []
  | item :: rest => item.value :: itemValues rest

/-- The entries for the nodes of an object. -/
def memberValues : List (Text × Node) → List (Host.Value × Host.Value)
  | [] => []
  | (name, node) :: rest => (.text name, node.value) :: memberValues rest

end

theorem itemValues_eq (items : List Node) : itemValues items = items.map Node.value := by
  induction items with
  | nil => rfl
  | cons item rest ih => rw [itemValues, ih, List.map_cons]

theorem memberValues_eq (members : List (Text × Node)) :
    memberValues members = members.map fun member => (.text member.1, member.2.value) := by
  induction members with
  | nil => rfl
  | cons member rest ih => rw [memberValues, ih, List.map_cons]

/-- The parts of a node: itself, the items of the arrays in it, and the members of the objects in it. -/
inductive Node.Part (node : Node) : Node → Prop
  | whole : Part node node
  | item {items : List Node} {part : Node} : Part node (.array items) → part ∈ items → Part node part
  | member {members : List (Text × Node)} {name : Text} {part : Node} : Part node (.object members) →
      (name, part) ∈ members → Part node part

/-- No name stands twice in an object of the node. -/
def Node.NamesDistinct (node : Node) : Prop :=
  ∀ members, node.Part (.object members) → (members.map Prod.fst).Nodup

variable {node part : Node} {value : Host.Value}

/-! ### Reading -/

mutual

theorem decode_toValue : ∀ node : Node, decode node.toValue = .ok node.value
  | .null => rfl
  | .complex => rfl
  | .boolean _ => rfl
  | .number d => by
    rw [Node.toValue, numberContent, Node.value]
    rcases h : numberWord? d with _ | word
    · exact decode_scalar rfl rfl
    · rcases numberWord?_cases h with ⟨rfl, rfl⟩ | ⟨negative, rfl, rfl⟩
      · rfl
      · cases negative <;> rfl
  | .string _ => rfl
  | .array items => by
    rw [Node.toValue, decode_array, decodeItems_toValues items]
    rfl
  | .object members => by
    rw [Node.toValue, decode_object, decodeEntries_toEntries members]
    rfl

theorem decodeItems_toValues : ∀ items : List Node, decodeItems (itemsToValues items) = .ok (itemValues items)
  | [] => rfl
  | item :: rest => by
    rw [itemsToValues, decodeItems, decode_toValue item, decodeItems_toValues rest]
    rfl

theorem decodeEntries_toEntries : ∀ members : List (Text × Node),
    decodeEntries (membersToEntries members) = .ok (memberValues members)
  | [] => rfl
  | (name, node) :: rest => by
    rw [membersToEntries, decodeEntries, decode_toValue node, decodeEntries_toEntries rest]
    rfl

end

/-- The node of a value is read as what is left of the value. -/
theorem Depicts.value_eq (h : Depicts value node) : node.value = value.settled := by
  induction h with
  | none | bool | float | text => rfl
  | @int n subclass d hd =>
    rw [Double.eq_of_ofInt? hd]
    rfl
  | sequence hlength _ ih =>
    rw [Node.value, Host.Value.settled, itemValues_eq, Host.settledItems_eq]
    refine congrArg _ (List.ext_getElem (by simp [hlength]) fun n hn hn' => ?_)
    rw [List.getElem_map, List.getElem_map]
    exact ih n (by simpa using hn') (by simpa using hn)
  | mapping hlength hkeys _ ih =>
    rw [Node.value, Host.Value.settled, memberValues_eq, Host.settledEntries_eq]
    refine congrArg _ (List.ext_getElem (by simp [hlength]) fun n hn hn' => ?_)
    have hentry := by simpa using hn'
    have hmember := by simpa using hn
    rw [List.getElem_map, List.getElem_map, Host.settled_of_likeText? (hkeys n hentry hmember), ih n hentry hmember]

/-! ### Writing again -/

theorem Depicts.unique {node' : Node} (h : Depicts value node) (h' : Depicts value node') : node = node' := by
  induction h generalizing node' with
  | none | bool | float | text =>
    cases h'
    rfl
  | int hd =>
    cases h' with
    | int hd' => rw [Option.some.inj (hd.symm.trans hd')]
  | sequence hlength _ ih =>
    cases h' with
    | sequence hlength' h' =>
      refine congrArg _ (List.ext_getElem (hlength.symm.trans hlength') fun n hn hn' => ?_)
      exact ih n (hlength ▸ hn) hn (h' n (hlength ▸ hn) hn')
  | mapping hlength hkeys _ ih =>
    cases h' with
    | mapping hlength' hkeys' h' =>
      refine congrArg _ (List.ext_getElem (hlength.symm.trans hlength') fun n hn hn' => ?_)
      have hentry := hlength ▸ hn
      refine Prod.ext ?_ (ih n hentry hn (h' n hentry hn'))
      exact Option.some.inj ((hkeys n hentry hn).symm.trans (hkeys' n hentry hn'))

theorem Node.Part.trans {inner : Node} (h : node.Part part) (h' : part.Part inner) : node.Part inner := by
  induction h' with
  | whole => exact h
  | item _ hm ih => exact .item ih hm
  | member _ hm ih => exact .member ih hm

mutual

/-- A node without the marker is what its value is written as. -/
theorem depicts_value : ∀ node : Node, ¬ node.Part .complex → Depicts node.value node
  | .null, _ => .none
  | .boolean b, _ => .bool b
  | .number d, _ => .float d none
  | .string t, _ => .text t .plain
  | .array items, h => depicts_sequence (forall₂_depicts items fun _ hm hp => h ((Node.Part.item .whole hm).trans hp))
  | .object members, h =>
    depicts_mapping (forall₂_depictsMembers members fun _ hm hp => h ((Node.Part.member .whole hm).trans hp))
  | .complex, h => absurd .whole h

theorem forall₂_depicts : ∀ items : List Node, (∀ item ∈ items, ¬ item.Part .complex) →
    List.Forall₂ Depicts (itemValues items) items
  | [], _ => .nil
  | item :: rest, h =>
    .cons (depicts_value item (h item List.mem_cons_self)) (forall₂_depicts rest fun _ hm => h _ (.tail _ hm))

theorem forall₂_depictsMembers : ∀ members : List (Text × Node), (∀ member ∈ members, ¬ member.2.Part .complex) →
    List.Forall₂ (fun entry member => entry.1.likeText? = some member.1 ∧ Depicts entry.2 member.2)
      (memberValues members) members
  | [], _ => .nil
  | (name, node) :: rest, h =>
    .cons ⟨rfl, depicts_value node (h (name, node) List.mem_cons_self)⟩
      (forall₂_depictsMembers rest fun _ hm => h _ (.tail _ hm))

end

theorem Depicts.of_part {w : Host.Value} (h : Depicts value node) (hw : value.Part w) : ∃ part, Depicts w part := by
  induction hw with
  | whole => exact ⟨node, h⟩
  | item _ hm ih =>
    obtain ⟨part, hpart⟩ := ih
    obtain ⟨n, hn, rfl⟩ := List.mem_iff_getElem.mp hm
    cases hpart with
    | sequence hlength hitems => exact ⟨_, hitems n hn (hlength ▸ hn)⟩
  | value _ hm ih =>
    obtain ⟨part, hpart⟩ := ih
    obtain ⟨n, hn, he⟩ := List.mem_iff_getElem.mp hm
    cases hpart with
    | mapping hlength _ hvalues =>
      have hvalue := hvalues n hn (hlength ▸ hn)
      rw [he] at hvalue
      exact ⟨_, hvalue⟩

/-! ### The parts of what is read -/

theorem Node.Part.part_value (h : node.Part part) : node.value.Part part.value := by
  induction h with
  | whole => exact .whole
  | item _ hm ih =>
    rw [Node.value, itemValues_eq] at ih
    exact .item ih (List.mem_map_of_mem hm)
  | member _ hm ih =>
    rw [Node.value, memberValues_eq] at ih
    exact .value ih (List.mem_map_of_mem (f := fun member : Text × Node => (Host.Value.text member.1, member.2.value)) hm)

theorem exists_part {w : Host.Value} (h : node.value.Part w) : ∃ part, node.Part part ∧ part.value = w := by
  induction h with
  | whole => exact ⟨node, .whole, rfl⟩
  | item _ hm ih =>
    obtain ⟨part, hpart, he⟩ := ih
    cases part <;> cases he
    rw [itemValues_eq] at hm
    obtain ⟨item, hitem, rfl⟩ := List.mem_map.mp hm
    exact ⟨item, .item hpart hitem, rfl⟩
  | value _ hm ih =>
    obtain ⟨part, hpart, he⟩ := ih
    cases part <;> cases he
    rw [memberValues_eq] at hm
    obtain ⟨⟨name, member⟩, hmember, he⟩ := List.mem_map.mp hm
    cases he
    exact ⟨member, .member hpart hmember, rfl⟩

/-- The mappings in what is read are the objects of the node. -/
theorem exists_object {kind : Host.MappingKind} {entries : List (Host.Value × Host.Value)}
    (h : node.value.Part (.mapping kind entries)) :
    ∃ members, node.Part (.object members) ∧
      entries = members.map fun member => (.text member.1, member.2.value) := by
  obtain ⟨part, hpart, he⟩ := exists_part h
  cases part <;> cases he
  exact ⟨_, hpart, memberValues_eq _⟩

theorem textKeys_value (node : Node) : node.value.TextKeys := by
  intro kind entries h entry hentry
  obtain ⟨members, -, rfl⟩ := exists_object h
  obtain ⟨member, -, rfl⟩ := List.mem_map.mp hentry
  rfl

theorem keysDistinct_value (h : node.NamesDistinct) : node.value.KeysDistinct := by
  intro kind entries hpart
  obtain ⟨members, hmembers, rfl⟩ := exists_object hpart
  have hnames : (members.map fun member => (Host.Value.text member.1, member.2.value)).map Prod.fst =
      (members.map Prod.fst).map Host.Value.text := by simp
  have htexts : Host.Value.likeText? ∘ Host.Value.text = some := rfl
  rw [Host.map_fst_texts, hnames, List.filterMap_map, htexts, List.filterMap_some]
  exact h members hmembers

mutual

theorem tree_value : ∀ {room : Nat} (node : Node), node.Within room → node.value.Tree room
  | _, .null, _ | _, .boolean _, _ | _, .number _, _ | _, .string _, _ | _, .complex, _ => .scalar _
  | _ + 1, .array items, h => .sequence (trees_itemValues items h)
  | _ + 1, .object members, h => .mapping (trees_memberValues members h)

theorem trees_itemValues : ∀ {room : Nat} (items : List Node), ItemsWithin room items →
    ∀ item ∈ itemValues items, item.Tree room
  | _, [], _ => List.forall_mem_nil _
  | _, item :: rest, h => List.forall_mem_cons.mpr ⟨tree_value item h.1, trees_itemValues rest h.2⟩

theorem trees_memberValues : ∀ {room : Nat} (members : List (Text × Node)), MembersWithin room members →
    ∀ entry ∈ memberValues members, entry.2.Tree room
  | _, [], _ => List.forall_mem_nil _
  | _, (_, node) :: rest, h => List.forall_mem_cons.mpr ⟨tree_value node h.1, trees_memberValues rest h.2⟩

end

/-- What is read without the marker can be passed on. -/
theorem passable_value (h : node.Within maxDepth) (hmarker : ¬ node.Part .complex) : node.value.Passable where
  tree := tree_value node h
  keys := textKeys_value node
  scalars s hs := by
    obtain ⟨part, hpart, he⟩ := exists_part hs
    cases part <;> cases he
    case complex => exact absurd hpart hmarker
    all_goals trivial

/-! ### Both directions -/

theorem writes_again {g : Host.Graph} {item : Host.Item} (hkeys : g.KeysDistinct) (hvalue : g.value item = node.value)
    (h : node.Within maxDepth) (hmarker : ¬ node.Part .complex) : Node.ofArgument g item = .ok node := by
  have hpassable : (g.value item).Passable := hvalue ▸ passable_value h hmarker
  obtain ⟨other, hother⟩ := ofArgument_iff_acceptable.mpr (Host.acceptable_of_value hpassable)
  have hdepicts := depicts_of_ofArgument hkeys hother
  rw [hvalue] at hdepicts
  rw [hother, hdepicts.unique (depicts_value node hmarker)]

theorem refuses_marker {g : Host.Graph} {item : Host.Item} (hkeys : g.KeysDistinct) (hvalue : g.value item = node.value)
    (h : node.Within maxDepth) (hmarker : node.Part .complex) :
    ∃ refusal, Node.ofArgument g item = .error refusal ∧ (Failure.refused refusal).errorClass? = some .refusal := by
  cases hresult : Node.ofArgument g item with
  | ok other =>
    have hdepicts := depicts_of_ofArgument hkeys hresult
    rw [hvalue] at hdepicts
    obtain ⟨part, hpart⟩ := hdepicts.of_part hmarker.part_value
    cases hpart
  | error refusal =>
    refine ⟨refusal, rfl, Host.errorClass?_of_value ?_ ?_ hresult⟩
    · exact hvalue ▸ tree_value node h
    · exact hvalue ▸ textKeys_value node

/-- The tagged form in both directions. What is written for a value is read as what is left of the value; and every
    node is read as a value that stands in some graph and, wherever it stands, is written as the same node, or refused
    if the node has the marker in it. -/
theorem tagged_form_decodes :
    (∀ g item node, Host.Graph.KeysDistinct g → Node.ofArgument g item = .ok node →
      decode node.toValue = .ok (g.value item).settled) ∧
    ∀ node : Node, node.Within maxDepth → node.NamesDistinct → ∃ value, decode node.toValue = .ok value ∧
      (∃ g item, Host.Graph.KeysDistinct g ∧ g.value item = value) ∧
      ∀ g item, Host.Graph.KeysDistinct g → g.value item = value →
        (¬ node.Part .complex → Node.ofArgument g item = .ok node) ∧
        (node.Part .complex → ∃ refusal, Node.ofArgument g item = .error refusal ∧
          (Failure.refused refusal).errorClass? = some .refusal) := by
  constructor
  · intro g item node hkeys h
    rw [decode_toValue, (depicts_of_ofArgument hkeys h).value_eq]
  · intro node h hnames
    refine ⟨node.value, decode_toValue node, ?_, fun g item hkeys hvalue => ⟨?_, ?_⟩⟩
    · exact Host.exists_graph (tree_value node h) (keysDistinct_value hnames)
    · exact writes_again hkeys hvalue h
    · exact refuses_marker hkeys hvalue h

theorem Node.Part.from_top (h : node.Part part) : part = node ∨
    (∃ items, node = .array items ∧ ∃ item ∈ items, item.Part part) ∨
      ∃ members, node = .object members ∧ ∃ member ∈ members, member.2.Part part := by
  induction h with
  | whole => exact .inl rfl
  | item hp hm ih =>
    rcases ih with rfl | ⟨items, rfl, inner, hinner, hpart⟩ | ⟨members, rfl, inner, hinner, hpart⟩
    · exact .inr (.inl ⟨_, rfl, _, hm, .whole⟩)
    · exact .inr (.inl ⟨_, rfl, inner, hinner, .item hpart hm⟩)
    · exact .inr (.inr ⟨_, rfl, inner, hinner, .item hpart hm⟩)
  | member hp hm ih =>
    rcases ih with rfl | ⟨items, rfl, inner, hinner, hpart⟩ | ⟨members, rfl, inner, hinner, hpart⟩
    · exact .inr (.inr ⟨_, rfl, _, hm, .whole⟩)
    · exact .inr (.inl ⟨_, rfl, inner, hinner, .member hpart hm⟩)
    · exact .inr (.inr ⟨_, rfl, inner, hinner, .member hpart hm⟩)

theorem Node.Part.eq_of_leaf (h : node.Part part) (harray : ∀ items, node ≠ .array items)
    (hobject : ∀ members, node ≠ .object members) : part = node := by
  rcases h.from_top with he | ⟨items, he, -⟩ | ⟨members, he, -⟩
  · exact he
  · exact absurd he (harray items)
  · exact absurd he (hobject members)

/-- An object with two members, one of them a number that is not finite. -/
def pair : Node :=
  .object [(.ofString "b", .number .nan), (.ofString "a", .null)]

theorem part_pair (h : pair.Part part) : part = pair ∨ part = .number .nan ∨ part = .null := by
  rcases h.from_top with rfl | ⟨_, he, -⟩ | ⟨members, he, member, hm, hpart⟩
  · exact .inl rfl
  · cases he
  · cases he
    rcases List.mem_pair.mp hm with rfl | rfl
    · exact .inr (.inl (hpart.eq_of_leaf nofun nofun))
    · exact .inr (.inr (hpart.eq_of_leaf nofun nofun))

theorem namesDistinct_pair : pair.NamesDistinct := by
  intro members h
  rcases part_pair h with he | he | he <;> cases he
  decide

theorem pair_is_written_again : ∃ g item, decode pair.toValue = .ok (g.value item) ∧ Node.ofArgument g item = .ok pair ∧
    decode pair.toValue = .ok (g.value item).settled := by
  obtain ⟨value, hread, ⟨g, item, hkeys, rfl⟩, hwrite⟩ :=
    tagged_form_decodes.2 pair ⟨trivial, trivial, trivial⟩ namesDistinct_pair
  have hplain : ¬ pair.Part .complex := fun h => by rcases part_pair h with he | he | he <;> cases he
  have hpair := (hwrite g item hkeys rfl).1 hplain
  exact ⟨g, item, hread, hpair, tagged_form_decodes.1 g item pair hkeys hpair⟩

end Wire

end ScriptLink
