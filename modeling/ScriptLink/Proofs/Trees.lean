import ScriptLink.Proofs.Acceptance
import ScriptLink.Proofs.Denotation

/-! # Values as arguments

    An argument is a place in a graph, a value only what is seen there. Every value without a cut stands in some
    graph: `exists_graph`. What a value has to be for its place to be accepted can be read from the value, in whatever
    graph it stands: `acceptable_of_value`. -/

namespace ScriptLink.Host

/-- Values with at most so many containers inside each other, none of them cut off. -/
inductive Value.Tree : Nat → Value → Prop
  | scalar {room : Nat} (s : Scalar) : Tree room (.scalar s)
  | sequence {room : Nat} {kind : SequenceKind} {items : List Value} : (∀ item ∈ items, Tree room item) →
      Tree (room + 1) (.sequence kind items)
  | mapping {room : Nat} {kind : MappingKind} {entries : List (Value × Value)} : (∀ entry ∈ entries, Tree room entry.2) →
      Tree (room + 1) (.mapping kind entries)

/-- All keys anywhere in a value are texts. -/
def Value.TextKeys (v : Value) : Prop :=
  ∀ kind entries, v.Part (.mapping kind entries) → ∀ entry ∈ entries, entry.1.likeText?.isSome

/-- Values that can be passed on: they are not too deep, their scalars have images, and their keys are texts. -/
structure Value.Passable (v : Value) : Prop where
  tree : v.Tree Wire.maxDepth
  scalars : ∀ s, v.Part (.scalar s) → s.HasImage
  keys : v.TextKeys

/-- The keys of each mapping in a value are distinct as texts. -/
def Value.KeysDistinct (v : Value) : Prop :=
  ∀ kind entries, v.Part (.mapping kind entries) → ((texts entries).map Prod.fst).Nodup

/-! ### Values in a graph -/

section
variable {g : Graph} {v : Value} {above above' place : List Nat} {occupant occupant' : Occupant}

/-- A container that is seen as a tree is not cut off. -/
theorem Graph.unfold_of_tree {room depth : Nat} {seen blind : List Nat} {id : Nat}
    (h : (g.unfold depth seen blind (.object id)).Tree room) :
    0 < room ∧ ∃ depth' seen' blind',
      g.unfold depth seen blind (.object id) = (g.object id).seen (g.unfold depth' seen' blind') := by
  rcases g.unfold_cases depth seen blind id with hcut | hcut | ⟨depth', seen', blind', hunfold⟩
  · rw [hcut] at h
    cases h
  · rw [hcut] at h
    cases h
  · refine ⟨?_, depth', seen', blind', hunfold⟩
    rw [hunfold] at h
    cases hobject : g.object id <;> rw [hobject] at h <;> cases h <;> exact Nat.succ_pos _

/-- An occupant is seen in the value: an item as a part that is a tree, a key as one of a mapping. -/
def Occupant.SeenIn (g : Graph) (v : Value) (above : List Nat) : Occupant → Prop
  | .item i => ∃ room depth seen blind, room + above.length = Wire.maxDepth ∧
      v.Part (g.unfold depth seen blind i) ∧ (g.unfold depth seen blind i).Tree room
  | .key k => ∃ kind entries w, v.Part (.mapping kind entries) ∧ (k, w) ∈ entries

theorem Occupant.SeenIn.inside {id n : Nat} (h : (Occupant.item (.object id)).SeenIn g v above)
    (hn : (g.object id).holds[n]? = some occupant) : occupant.SeenIn g v (id :: above) := by
  obtain ⟨room, depth, seen, blind, hroom, hpart, htree⟩ := h
  have hmem := List.mem_of_getElem? hn
  obtain ⟨-, depth', seen', blind', hunfold⟩ := Graph.unfold_of_tree htree
  rw [hunfold] at hpart htree
  cases hobject : g.object id with
  | sequence kind items =>
    rw [hobject] at hpart htree hmem
    obtain ⟨item, hitem, rfl⟩ := List.mem_map.mp hmem
    have hseen := List.mem_map_of_mem (f := g.unfold depth' seen' blind') hitem
    cases htree with
    | @sequence room _ _ htrees =>
      have hbelow : room + (id :: above).length = Wire.maxDepth := by
        rw [List.length_cons]
        omega
      exact ⟨room, depth', seen', blind', hbelow, hpart.trans (.item .whole hseen), htrees _ hseen⟩
  | mapping kind entries =>
    rw [hobject] at hpart htree hmem
    obtain ⟨entry, hentry, hmem⟩ := List.mem_flatMap.mp hmem
    have hseen := List.mem_map_of_mem (f := fun entry => (entry.1, g.unfold depth' seen' blind' entry.2)) hentry
    cases htree with
    | @mapping room _ _ htrees =>
      have hbelow : room + (id :: above).length = Wire.maxDepth := by
        rw [List.length_cons]
        omega
      rcases List.mem_pair.mp hmem with rfl | rfl
      · exact ⟨kind, _, _, hpart, hseen⟩
      · exact ⟨room, depth', seen', blind', hbelow, hpart.trans (.value .whole hseen), htrees _ hseen⟩

theorem Graph.Stands.seenIn (h : g.Stands above occupant place above' occupant') (hv : occupant.SeenIn g v above) :
    occupant'.SeenIn g v above' := by
  induction h with
  | here => exact hv
  | inside hn _ ih => exact ih (hv.inside hn)

theorem seenIn_value {item : Item} (h : (g.value item).Tree Wire.maxDepth) :
    (Occupant.item item).SeenIn g (g.value item) [] :=
  ⟨Wire.maxDepth, g.room, [], [], rfl, .whole, h⟩

/-- A place where a value is seen that can be passed on, is acceptable. -/
theorem acceptable_of_value {item : Item} (h : (g.value item).Passable) : g.Acceptable item := by
  have hroot := seenIn_value h.tree
  refine ⟨fun place above id hstands => ?_, fun place above s hstands => ?_, fun place above key hstands => ?_⟩
  · obtain ⟨room, depth, seen, blind, hroom, -, htree⟩ := hstands.seenIn hroot
    obtain ⟨hpos, -⟩ := Graph.unfold_of_tree htree
    omega
  · obtain ⟨_, depth, seen, blind, -, hpart, -⟩ := hstands.seenIn hroot
    rw [Graph.unfold] at hpart
    exact h.scalars s hpart
  · obtain ⟨kind, entries, w, hpart, hmem⟩ := hstands.seenIn hroot
    exact h.keys kind entries hpart _ hmem

/-- A tree under texts is refused only by an error of the link's own. -/
theorem errorClass?_of_value {item : Item} {refusal : Refusal} (htree : (g.value item).Tree Wire.maxDepth)
    (hkeys : (g.value item).TextKeys) (h : Wire.Node.ofArgument g item = .error refusal) :
    (Failure.refused refusal).errorClass? = some .refusal := by
  obtain ⟨place, ⟨above, occupant, hstands, hf⟩, -⟩ := Wire.first_of_ofArgument.mp h
  rcases Wire.errorClass?_of_fault hf with hclass | ⟨key, reason, rfl, htext, -, -⟩
  · exact hclass
  · obtain ⟨kind, entries, w, hpart, hmem⟩ := hstands.seenIn (seenIn_value htree)
    have hkey := hkeys kind entries hpart _ hmem
    simp [htext] at hkey

end

/-! ### Every tree stands in a graph -/

/-- In every graph that begins with these containers, an item stands for a value, as long as the containers above it
    come later. -/
def Holds (objects : List Object) (room : Nat) (item : Item) (v : Value) : Prop :=
  ∀ g : Graph, objects <+: g.objects.toList → ∀ depth seen blind, room ≤ depth → (∀ id ∈ seen, objects.length ≤ id) →
    (∀ id ∈ blind, objects.length ≤ id) → g.unfold depth seen blind item = v

/-- The keys of each mapping among the objects are distinct as texts. -/
def Keyed (objects : List Object) : Prop :=
  ∀ kind entries, Object.mapping kind entries ∈ objects → ((texts entries).map Prod.fst).Nodup

variable {objects objects' : List Object} {room : Nat} {item : Item} {v : Value}

theorem Holds.mono (h : Holds objects room item v) (hp : objects <+: objects') : Holds objects' room item v :=
  fun g hg depth seen blind hdepth hseen hblind =>
    h g (hp.trans hg) depth seen blind hdepth (fun id hm => hp.length_le.trans (hseen id hm)) fun id hm =>
      hp.length_le.trans (hblind id hm)

theorem map_fst_texts {α : Type} (entries : List (Value × α)) :
    (texts entries).map Prod.fst = (entries.map Prod.fst).filterMap Value.likeText? := by
  induction entries with
  | nil => rfl
  | cons entry rest ih =>
    obtain ⟨key, value⟩ := entry
    cases hkey : key.likeText? with
    | none =>
      rw [texts, List.filterMap_cons_none (by rw [hkey]; rfl), ← texts, ih, List.map_cons,
        List.filterMap_cons_none hkey]
    | some name => rw [texts_cons hkey, List.map_cons, ih, List.map_cons, List.filterMap_cons_some hkey]

theorem keyed_append_sequence (h : Keyed objects) (kind : SequenceKind) (items : List Item) :
    Keyed (objects ++ [.sequence kind items]) := by
  intro kind' entries hm
  simp only [List.mem_append, List.mem_singleton, reduceCtorEq, or_false] at hm
  exact h kind' entries hm

theorem keyed_append_mapping (h : Keyed objects) {kind : MappingKind} {entries : List (Value × Item)}
    (hkeys : ((texts entries).map Prod.fst).Nodup) : Keyed (objects ++ [.mapping kind entries]) := by
  intro kind' entries' hm
  rcases List.mem_append.mp hm with hm | hm
  · exact h kind' entries' hm
  · cases List.mem_singleton.mp hm
    exact hkeys

theorem map_unfold_of_holds {items : List Item} {values : List Value} {g : Graph} {depth : Nat} {seen blind : List Nat}
    (h : List.Forall₂ (Holds objects room) items values) (hg : objects <+: g.objects.toList) (hdepth : room ≤ depth)
    (hseen : ∀ id ∈ seen, objects.length ≤ id) (hblind : ∀ id ∈ blind, objects.length ≤ id) :
    items.map (g.unfold depth seen blind) = values := by
  induction h with
  | nil => rfl
  | cons hitem _ ih => rw [List.map_cons, ih, hitem g hg depth seen blind hdepth hseen hblind]

/-- A container after the others, with everything in it among these, is not met again above itself. -/
theorem holds_object (object : Object)
    (h : ∀ g : Graph, objects <+: g.objects.toList → ∀ depth seen blind, room ≤ depth →
      (∀ id ∈ seen, objects.length ≤ id) → (∀ id ∈ blind, objects.length ≤ id) →
      object.seen (g.unfold depth seen blind) = v) :
    Holds (objects ++ [object]) (room + 1) (.object objects.length) v := by
  intro g hg depth seen blind hdepth hseen hblind
  obtain ⟨depth, rfl⟩ : ∃ below, depth = below + 1 := ⟨depth - 1, by omega⟩
  have hobject : g.object objects.length = object := by
    obtain ⟨rest, hrest⟩ := hg
    simp [Graph.object, ← Array.getElem?_toList, ← hrest]
  have hlater (ids : List Nat) (hids : ∀ id ∈ ids, (objects ++ [object]).length ≤ id) : objects.length ∉ ids := by
    intro hm
    have hle := hids _ hm
    simp at hle
  have hbelow {ids ids' : List Nat} (hsub : ids' ⊆ objects.length :: ids)
      (hids : ∀ id ∈ ids, (objects ++ [object]).length ≤ id) : ∀ id ∈ ids', objects.length ≤ id := by
    intro id hm
    rcases List.mem_cons.mp (hsub hm) with rfl | hm
    · exact Nat.le_refl _
    · have hle := hids id hm
      simp only [List.length_append, List.length_singleton] at hle
      omega
  obtain ⟨seen', blind', hseen', hblind', hunfold⟩ :=
    Graph.unfold_object (g := g) depth (hlater seen hseen) (hlater blind hblind)
  have hv := h g ((List.prefix_append _ _).trans hg) depth seen' blind' (by omega) (hbelow hseen' hseen)
    (hbelow hblind' hblind)
  rw [hunfold, hobject, ← hv]
  cases object <;> rfl

/-- Values that can be stored after any containers can be stored one after the other. -/
theorem exists_holds_each {values : List Value}
    (h : ∀ v ∈ values, ∀ objects, Keyed objects →
      ∃ objects' item, objects <+: objects' ∧ Keyed objects' ∧ Holds objects' room item v) (hk : Keyed objects) :
    ∃ objects' items, objects <+: objects' ∧ Keyed objects' ∧ List.Forall₂ (Holds objects' room) items values := by
  induction values generalizing objects with
  | nil => exact ⟨objects, [], List.prefix_rfl, hk, .nil⟩
  | cons v rest ih =>
    obtain ⟨objects₁, item, hp₁, hk₁, hitem⟩ := h v List.mem_cons_self objects hk
    obtain ⟨objects₂, items, hp₂, hk₂, hitems⟩ := ih (fun v hv => h v (List.mem_cons_of_mem _ hv)) hk₁
    exact ⟨objects₂, item :: items, hp₁.trans hp₂, hk₂, .cons (hitem.mono hp₂) hitems⟩

/-- A tree can be stored after any containers: first what it holds, then itself. -/
theorem Value.Tree.exists_holds (h : v.Tree room) (hv : v.KeysDistinct) (hk : Keyed objects) :
    ∃ objects' item, objects <+: objects' ∧ Keyed objects' ∧ Holds objects' room item v := by
  induction h generalizing objects with
  | scalar s =>
    refine ⟨objects, .scalar s, List.prefix_rfl, hk, fun g _ depth seen blind _ _ _ => ?_⟩
    rw [Graph.unfold]
  | @sequence room kind values _ ih =>
    have hparts : ∀ w ∈ values, w.KeysDistinct := fun w hw kind' entries hp =>
      hv kind' entries ((Part.item .whole hw).trans hp)
    obtain ⟨objects', items, hp, hk', hitems⟩ := exists_holds_each (fun w hw objects => ih w hw (hparts w hw)) hk
    refine ⟨objects' ++ [.sequence kind items], .object objects'.length, hp.trans (List.prefix_append _ _),
      keyed_append_sequence hk' kind items, holds_object _ fun g hg depth seen blind hdepth hseen hblind => ?_⟩
    exact congrArg _ (map_unfold_of_holds hitems hg hdepth hseen hblind)
  | @mapping room kind entries _ ih =>
    have hparts : ∀ entry ∈ entries, entry.2.KeysDistinct := fun entry hentry kind' entries' hp =>
      hv kind' entries' ((Part.value .whole hentry).trans hp)
    -- The keys stand in the mapping itself; only the values are stored before it.
    have heach : ∀ w ∈ entries.map Prod.snd, ∀ objects, Keyed objects →
        ∃ objects' item, objects <+: objects' ∧ Keyed objects' ∧ Holds objects' room item w := by
      intro w hw objects hk
      obtain ⟨entry, hentry, rfl⟩ := List.mem_map.mp hw
      exact ih entry hentry (hparts entry hentry) hk
    obtain ⟨objects', items, hp, hk', hitems⟩ := exists_holds_each heach hk
    have hlength : (entries.map Prod.fst).length = items.length := by
      have := hitems.length_eq
      simpa using this.symm
    have hkeys : ((texts ((entries.map Prod.fst).zip items)).map Prod.fst).Nodup := by
      rw [map_fst_texts, List.map_fst_zip hlength.le, ← map_fst_texts]
      exact hv kind entries .whole
    refine ⟨objects' ++ [.mapping kind ((entries.map Prod.fst).zip items)], .object objects'.length,
      hp.trans (List.prefix_append _ _), keyed_append_mapping hk' hkeys,
      holds_object _ fun g hg depth seen blind hdepth hseen hblind => ?_⟩
    have hvalues := map_unfold_of_holds hitems hg hdepth hseen hblind
    have hzip : ((entries.map Prod.fst).zip items).map (fun entry => (entry.1, g.unfold depth seen blind entry.2)) =
        (entries.map Prod.fst).zip (items.map (g.unfold depth seen blind)) := by
      rw [List.zip_map_right]
      rfl
    simp only [Object.seen, hzip, hvalues, List.zip_map', List.map_id']

/-- Every tree that is not too deep is the value of a place in a graph. -/
theorem exists_graph (h : v.Tree Wire.maxDepth) (hv : v.KeysDistinct) :
    ∃ g item, Graph.KeysDistinct g ∧ g.value item = v := by
  obtain ⟨objects, item, -, hk, hitem⟩ := h.exists_holds hv (show Keyed [] from fun _ _ hm => nomatch hm)
  refine ⟨{ objects := objects.toArray }, item, fun id kind entries hobject => ?_, ?_⟩
  · rw [Graph.object] at hobject
    cases hid : objects[id]? with
    | none => simp [hid] at hobject
    | some object =>
      simp only [List.getElem?_toArray, hid, Option.getD_some] at hobject
      exact hk kind entries (hobject ▸ List.mem_of_getElem? hid)
  · exact hitem _ (by simp) _ [] [] (Wire.maxDepth_le_room _) (List.forall_mem_nil _) (List.forall_mem_nil _)

end ScriptLink.Host
