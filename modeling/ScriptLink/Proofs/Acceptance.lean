import ScriptLink.Error.Failure
import ScriptLink.Proofs.Arrival

/-! # What is accepted as an argument

    A place below an item is the list of the numbers of the things that are entered on the way to it. A container
    holds its things in reading order, so places are read in lexicographic order, and the first place with a fault is
    the one that a refusal names. The containers above a place tell apart the two faults that containers have: they
    are the path that a container can stand on again, and their number is how deep it stands. -/

namespace ScriptLink

-- Powers of natural numbers are those of the language, also where others are in scope.
attribute [local instance (10000)] instPowNat

namespace Host

/-- What stands in a place of a graph: an item, or the key of an entry. -/
inductive Occupant where
  | item (item : Item)
  | key (key : Value)

/-- What a container holds, in reading order: of each entry, the key before the value. -/
def Object.holds : Object → List Occupant
  | .sequence _ items => items.map .item
  | .mapping _ entries => entries.flatMap fun entry => [.key entry.1, .item entry.2]

/-- A container as it is seen where its things are followed by `below`. -/
def Object.seen (below : Item → Value) : Object → Value
  | .sequence kind items => .sequence kind (items.map below)
  | .mapping kind entries => .mapping kind (entries.map fun entry => (entry.1, below entry.2))

/-- Below `above` stands an occupant; entering it along a place leads to another occupant, which has more containers
    above it. Containers are entered again wherever they stand again. -/
inductive Graph.Stands (g : Graph) : (above : List Nat) → Occupant → (place : List Nat) → (above' : List Nat) →
    Occupant → Prop
  | here {above : List Nat} {occupant : Occupant} : Stands g above occupant [] above occupant
  | inside {above place above' : List Nat} {id n : Nat} {occupant occupant' : Occupant} :
      (g.object id).holds[n]? = some occupant → Stands g (id :: above) occupant place above' occupant' →
      Stands g above (.item (.object id)) (n :: place) above' occupant'

/-- Whether a scalar has an image: a number has one if a finite double is near enough to it. -/
def Scalar.HasImage : Scalar → Prop
  | .none | .bool _ | .float _ _ | .text _ _ => True
  | .int n _ => (Double.ofInt? n).isSome
  | .bytes _ | .marker | .foreign _ => False

/-- What is wrong with an occupant below the containers `above`. A key is shown where these leave room on the stack. -/
inductive Graph.Fault (g : Graph) (above : List Nat) : Occupant → Refusal → Prop
  | number {n : Int} {subclass : Option Subclass} : Double.ofInt? n = none →
      Fault g above (.item (.scalar (.int n subclass))) (.tooLarge (Scalar.int n subclass).typeName)
  | bytes (bs : List UInt8) : Fault g above (.item (.scalar (.bytes bs))) (.unsupported (Scalar.bytes bs).typeName)
  | marker : Fault g above (.item (.scalar .marker)) (.unsupported Scalar.marker.typeName)
  | foreign (object : Foreign) : Fault g above (.item (.scalar (.foreign object))) (.unsupported object.typeName)
  /-- The container occurs again on its own path, with at most `maxDepth` containers above it. -/
  | again {id : Nat} : id ∈ above → above.length ≤ Wire.maxDepth →
      Fault g above (.item (.object id)) (.containsItself (g.object id).typeName)
  /-- The container is a new one, with exactly `maxDepth` containers above it. -/
  | deep {id : Nat} : id ∉ above → above.length = Wire.maxDepth →
      Fault g above (.item (.object id)) (.tooDeep (g.object id).typeName)
  | key {key : Value} : key.likeText? = none → key.unshown? (Wire.roomInside g above) = none →
      Fault g above (.key key) (.badKey key.display key.typeName)
  | unshown {key : Value} {reason : Unshown} : key.likeText? = none →
      key.unshown? (Wire.roomInside g above) = some reason →
      Fault g above (.key key) (.unshownKey reason)

/-- What stands at a place below an occupant is refused so. -/
def Graph.Faulty (g : Graph) (above : List Nat) (occupant : Occupant) (place : List Nat) (refusal : Refusal) : Prop :=
  ∃ above' occupant', g.Stands above occupant place above' occupant' ∧ g.Fault above' occupant' refusal

/-- What holds of a place and of none that is read before it. -/
def First (P : List Nat → Refusal → Prop) (place : List Nat) (refusal : Refusal) : Prop :=
  P place refusal ∧ ∀ place' refusal', P place' refusal' → ¬ place' < place

/-- Arguments without a fault: no path goes through more than `maxDepth` containers, every scalar has an image, and
    every key is a text. -/
structure Graph.Acceptable (g : Graph) (item : Item) : Prop where
  shallow : ∀ place above id, g.Stands [] (.item item) place above (.item (.object id)) → above.length < Wire.maxDepth
  scalars : ∀ place above s, g.Stands [] (.item item) place above (.item (.scalar s)) → s.HasImage
  keys : ∀ place above key, g.Stands [] (.item item) place above (.key key) → key.likeText?.isSome

/-- No text stands twice among the keys of a mapping. -/
def Graph.KeysDistinct (g : Graph) : Prop :=
  ∀ id kind entries, g.object id = .mapping kind entries → ((texts entries).map Prod.fst).Nodup

variable {g : Graph} {above above' place : List Nat} {occupant occupant' : Occupant} {refusal refusal' : Refusal}

/-! ### Places -/

theorem Graph.unfold_cases (g : Graph) (depth : Nat) (seen blind : List Nat) (id : Nat) :
    g.unfold depth seen blind (.object id) = .beyond (g.object id).shape ∨
      g.unfold depth seen blind (.object id) = .again (g.object id).shape ∨
        ∃ depth' seen' blind',
          g.unfold depth seen blind (.object id) = (g.object id).seen (g.unfold depth' seen' blind') := by
  cases depth with
  | zero => exact .inl rfl
  | succ depth =>
    rw [unfold]
    cases hguards : (g.object id).shape.guards with
    | true =>
      simp only [if_true]
      split
      · exact .inr (.inl rfl)
      · exact .inr (.inr ⟨depth, id :: seen, [], by cases g.object id <;> rfl⟩)
    | false =>
      simp only [Bool.false_eq_true, if_false]
      split
      · exact .inr (.inl rfl)
      · exact .inr (.inr ⟨depth, seen, id :: blind, by cases g.object id <;> rfl⟩)

namespace Graph

theorem Stands.trans {above'' place' : List Nat} {occupant'' : Occupant}
    (h : g.Stands above occupant place above' occupant') (h' : g.Stands above' occupant' place' above'' occupant'') :
    g.Stands above occupant (place ++ place') above'' occupant'' := by
  induction h with
  | here => exact h'
  | inside hn _ ih => exact .inside hn (ih h')

/-- The containers on the way are added to those above, whatever these are. -/
theorem Stands.path (h : g.Stands above occupant place above' occupant') :
    ∃ path, path.length = place.length ∧ above' = path ++ above ∧
      ∀ others, g.Stands others occupant place (path ++ others) occupant' := by
  induction h with
  | here => exact ⟨[], rfl, rfl, fun others => .here⟩
  | @inside above place above' id n occupant occupant' hn _ ih =>
    obtain ⟨path, hlength, rfl, hothers⟩ := ih
    refine ⟨path ++ [id], by simp [hlength], by simp, fun others => ?_⟩
    have h := hothers (id :: others)
    rw [← List.append_cons]
    exact .inside hn h

/-- On the way to a place stands one container at each depth. -/
theorem Stands.through (h : g.Stands above occupant place above' occupant') {id depth : Nat}
    (ho : occupant' = .item (.object id)) (hlo : above.length ≤ depth) (hhi : depth ≤ above'.length) :
    ∃ place' above'' id', g.Stands above occupant place' above'' (.item (.object id')) ∧ above''.length = depth := by
  induction h with
  | here =>
    subst ho
    exact ⟨[], _, id, .here, Nat.le_antisymm hlo hhi⟩
  | @inside above place above' id' n occupant occupant' hn _ ih =>
    rcases Nat.eq_or_lt_of_le hlo with he | hlt
    · exact ⟨[], above, id', .here, he⟩
    · obtain ⟨place', above'', id'', hstands, hdepth⟩ := ih ho hlt hhi
      exact ⟨n :: place', above'', id'', .inside hn hstands, hdepth⟩

theorem Stands.of_mem (h : g.Stands above occupant place above' occupant') {id : Nat} (hm : id ∈ above') :
    id ∈ above ∨ ∃ place₁ above₁ place₂, g.Stands above occupant place₁ above₁ (.item (.object id)) ∧
      g.Stands above₁ (.item (.object id)) place₂ above' occupant' ∧ place₂ ≠ [] := by
  induction h with
  | here => exact .inl hm
  | @inside above place above' id' n occupant occupant' hn h ih =>
    rcases ih hm with hm | ⟨place₁, above₁, place₂, h₁, h₂, hne⟩
    · rcases List.mem_cons.mp hm with rfl | hm
      · exact .inr ⟨[], above, n :: place, .here, .inside hn h, List.cons_ne_nil _ _⟩
      · exact .inl hm
    · exact .inr ⟨n :: place₁, above₁, place₂, .inside hn h₁, h₂, hne⟩

/-- A container that occurs again on its own path can be entered again and again, so it stands as deep as one likes. -/
theorem Stands.exists_deep {id : Nat} (h : g.Stands [] occupant place above (.item (.object id))) (hm : id ∈ above)
    (depth : Nat) : ∃ place' above', g.Stands [] occupant place' above' (.item (.object id)) ∧ depth ≤ above'.length := by
  obtain hnil | ⟨place₁, above₁, place₂, h₁, h₂, hne⟩ := h.of_mem hm
  · cases hnil
  obtain ⟨path, hlength, -, hothers⟩ := h₂.path
  induction depth with
  | zero => exact ⟨place₁, above₁, h₁, Nat.zero_le _⟩
  | succ depth ih =>
    obtain ⟨place', above', h', hdepth⟩ := ih
    refine ⟨place' ++ place₂, path ++ above', h'.trans (hothers above'), ?_⟩
    have hpos := List.length_pos_iff.mpr hne
    simp only [List.length_append]
    omega

/-! ### Faults -/

theorem Fault.unique (h : g.Fault above occupant refusal) (h' : g.Fault above occupant refusal') :
    refusal = refusal' := by
  cases h <;> cases h' <;> simp_all

theorem hasImage_or_fault (s : Scalar) : s.HasImage ∨ ∃ refusal, g.Fault above (.item (.scalar s)) refusal := by
  cases s with
  | none | bool | float | text => exact .inl trivial
  | int n subclass =>
    cases hd : Double.ofInt? n with
    | none => exact .inr ⟨_, .number hd⟩
    | some d => exact .inl (by simp [Scalar.HasImage, hd])
  | bytes bs => exact .inr ⟨_, .bytes bs⟩
  | marker => exact .inr ⟨_, .marker⟩
  | foreign object => exact .inr ⟨_, .foreign object⟩

theorem isText_or_fault (key : Value) : key.likeText?.isSome ∨ ∃ refusal, g.Fault above (.key key) refusal := by
  cases htext : key.likeText? with
  | some name => exact .inl rfl
  | none =>
    cases hshown : key.unshown? (Wire.roomInside g above) with
    | none => exact .inr ⟨_, .key htext hshown⟩
    | some reason => exact .inr ⟨_, .unshown htext hshown⟩

theorem entered_or_fault (id : Nat) (hdepth : above.length ≤ Wire.maxDepth) :
    (id ∉ above ∧ above.length < Wire.maxDepth) ∨ ∃ refusal, g.Fault above (.item (.object id)) refusal := by
  by_cases hm : id ∈ above
  · exact .inr ⟨_, .again hm hdepth⟩
  · rcases Nat.eq_or_lt_of_le hdepth with he | hlt
    · exact .inr ⟨_, .deep hm he⟩
    · exact .inl ⟨hm, hlt⟩

theorem faulty_iff (hsound : ∀ id, occupant ≠ .item (.object id)) :
    g.Faulty above occupant place refusal ↔ place = [] ∧ g.Fault above occupant refusal := by
  constructor
  · rintro ⟨above', occupant', h, hf⟩
    cases h with
    | here => exact ⟨rfl, hf⟩
    | inside => exact absurd rfl (hsound _)
  · rintro ⟨rfl, hf⟩
    exact ⟨above, occupant, .here, hf⟩

/-- A container that has no fault has those of the things it holds. -/
theorem faulty_object_iff {id : Nat} (hsound : ∀ refusal, ¬ g.Fault above (.item (.object id)) refusal) :
    g.Faulty above (.item (.object id)) place refusal ↔ ∃ n occupant below, (g.object id).holds[n]? = some occupant ∧
      place = n :: below ∧ g.Faulty (id :: above) occupant below refusal := by
  constructor
  · rintro ⟨above', occupant', h, hf⟩
    cases h with
    | here => exact absurd hf (hsound _)
    | inside hn h => exact ⟨_, _, _, hn, rfl, above', occupant', h, hf⟩
  · rintro ⟨n, occupant, below, hn, rfl, above', occupant', h, hf⟩
    exact ⟨above', occupant', .inside hn h, hf⟩

/-- The fault of an occupant comes before all those of the things below it. -/
theorem first_of_fault (h : g.Fault above occupant refusal) {refusal' : Refusal} :
    (∃ place, First (g.Faulty above occupant) place refusal') ↔ refusal' = refusal := by
  have hhere : g.Faulty above occupant [] refusal := ⟨above, occupant, .here, h⟩
  constructor
  · rintro ⟨place, ⟨above', occupant', hstands, hf⟩, hfirst⟩
    cases hstands with
    | here => exact hf.unique h
    | inside => exact absurd (List.nil_lt_cons _ _) (hfirst _ _ hhere)
  · rintro rfl
    exact ⟨[], hhere, fun place' refusal' _ => List.not_lt_nil place'⟩

/-- The first fault in a container is the first one in the first of its things that has any. -/
theorem first_object_iff {id : Nat} (hsound : ∀ refusal, ¬ g.Fault above (.item (.object id)) refusal) :
    (∃ place, First (g.Faulty above (.item (.object id))) place refusal) ↔
      ∃ (n : Nat) (occupant : Occupant), (g.object id).holds[n]? = some occupant ∧
        (∃ place, First (g.Faulty (id :: above) occupant) place refusal) ∧
        ∀ m < n, ∀ other, (g.object id).holds[m]? = some other → ∀ place refusal,
          ¬ g.Faulty (id :: above) other place refusal := by
  constructor
  · rintro ⟨place, hfaulty, hfirst⟩
    obtain ⟨n, occupant, below, hn, rfl, hbelow⟩ := (faulty_object_iff hsound).mp hfaulty
    have hlater (m : Nat) (other : Occupant) (hm : (g.object id).holds[m]? = some other) (place' : List Nat)
        (refusal' : Refusal) (h : g.Faulty (id :: above) other place' refusal') : ¬ m :: place' < n :: below :=
      hfirst _ refusal' ((faulty_object_iff hsound).mpr ⟨m, other, place', hm, rfl, h⟩)
    refine ⟨n, occupant, hn, ⟨below, hbelow, fun place' refusal' h hlt => ?_⟩, fun m hmn other hm place' refusal' h => ?_⟩
    · exact hlater n occupant hn place' refusal' h (List.cons_lt_cons_iff.mpr (.inr ⟨rfl, hlt⟩))
    · exact hlater m other hm place' refusal' h (List.cons_lt_cons_iff.mpr (.inl hmn))
  · rintro ⟨n, occupant, hn, ⟨below, hbelow, hfirst⟩, hnone⟩
    refine ⟨n :: below, (faulty_object_iff hsound).mpr ⟨n, occupant, below, hn, rfl, hbelow⟩, ?_⟩
    intro place' refusal' h hlt
    obtain ⟨m, other, below', hm, rfl, hbelow'⟩ := (faulty_object_iff hsound).mp h
    rcases List.cons_lt_cons_iff.mp hlt with hmn | ⟨rfl, hbefore⟩
    · exact hnone m hmn other hm below' refusal' hbelow'
    · obtain rfl := Option.some.inj (hm.symm.trans hn)
      exact hfirst below' refusal' hbelow' hbefore

/-- An argument is acceptable just when no place in it has a fault. A container below `maxDepth` others is on the way
    to one at exactly that depth, and one that stands on its own path stands too deep as well. -/
theorem acceptable_iff {item : Item} : g.Acceptable item ↔ ∀ place refusal, ¬ g.Faulty [] (.item item) place refusal := by
  constructor
  · rintro h place refusal ⟨above, occupant, hstands, hf⟩
    cases hf with
    | number hd =>
      have himage := h.scalars _ _ _ hstands
      simp [Scalar.HasImage, hd] at himage
    | bytes | marker | foreign => exact h.scalars _ _ _ hstands
    | again hm _ =>
      obtain ⟨place', above', hstands', hdepth⟩ := hstands.exists_deep hm Wire.maxDepth
      exact absurd (h.shallow _ _ _ hstands') (by omega)
    | deep _ hdepth => exact absurd (h.shallow _ _ _ hstands) (by omega)
    | key htext _ | unshown htext _ =>
      have hkey := h.keys _ _ _ hstands
      simp [htext] at hkey
  · intro h
    have hsound {place above occupant} (hstands : g.Stands [] (.item item) place above occupant) :
        ¬ ∃ refusal, g.Fault above occupant refusal := fun ⟨refusal, hf⟩ => h place refusal ⟨above, occupant, hstands, hf⟩
    refine ⟨fun place above id hstands => ?_, fun place above s hstands => ?_, fun place above key hstands => ?_⟩
    · by_contra hdepth
      obtain ⟨place', above', id', hstands', hlength⟩ :=
        hstands.through rfl (Nat.zero_le Wire.maxDepth) (Nat.le_of_not_lt hdepth)
      obtain ⟨-, hlt⟩ := (entered_or_fault id' hlength.le).resolve_right (hsound hstands')
      omega
    · exact (hasImage_or_fault s).resolve_right (hsound hstands)
    · exact (isText_or_fault key).resolve_right (hsound hstands)

end Graph

end Host

namespace Wire
open Host (Occupant First texts)

/-! ### The refusal of an argument -/

theorem findSome?_eq_some_iff_getElem? {α β : Type} {f : α → Option β} {values : List α} {result : β} :
    values.findSome? f = some result ↔ ∃ (n : Nat) (value : α), values[n]? = some value ∧ f value = some result ∧
      ∀ m < n, ∀ other, values[m]? = some other → f other = none := by
  rw [List.findSome?_eq_some_iff]
  constructor
  · rintro ⟨before, value, after, rfl, hvalue, hnone⟩
    refine ⟨before.length, value, by simp, hvalue, fun m hlt other hother => ?_⟩
    rw [List.getElem?_append_left hlt] at hother
    exact hnone other (List.mem_of_getElem? hother)
  · rintro ⟨n, value, hn, hvalue, hnone⟩
    obtain ⟨hlt, rfl⟩ := List.getElem?_eq_some_iff.mp hn
    refine ⟨values.take n, values[n], values.drop (n + 1), ?_, hvalue, fun other hother => ?_⟩
    · rw [← List.drop_eq_getElem_cons hlt, List.take_append_drop]
    · obtain ⟨m, hm, rfl⟩ := List.mem_take_iff_getElem.mp hother
      exact hnone m (by omega) _ (List.getElem?_eq_getElem _)

/-- The refusal that a conversion ends with, if any. -/
def refusalOf {α : Type} : Except Refusal α → Option Refusal
  | .ok _ => none
  | .error refusal => some refusal

/-- The refusal of what stands at a place, if any. -/
def occupantRefusal (g : Host.Graph) (room : Nat) (path : List Nat) : Occupant → Option Refusal
  | .item item => refusalOf (Node.ofItem g room path item)
  | .key key => refusalOf (keyName (roomInside g path) key)

theorem refusalOf_pure_bind {α β : Type} (x : Except Refusal α) (f : α → β) :
    refusalOf (x >>= fun a => pure (f a)) = refusalOf x := by
  cases x <;> rfl

theorem refusalOf_mapM {α β : Type} (f : α → Except Refusal β) (values : List α) :
    refusalOf (values.mapM f) = values.findSome? fun value => refusalOf (f value) := by
  induction values with
  | nil => rfl
  | cons value rest ih =>
    rw [List.mapM_cons, List.findSome?_cons]
    cases f value with
    | error refusal => rfl
    | ok result => exact (refusalOf_pure_bind _ _).trans ih

theorem refusalOf_foldlM (room : Nat) (f : Host.Item → Except Refusal Node) (entries : List (Host.Value × Host.Item))
    (before : Members Node) :
    refusalOf (entries.foldlM (fun (members : Members Node) entry => do
      let name ← keyName room entry.1
      let node ← f entry.2
      return members.insert name node) before) =
    entries.findSome? fun entry => (refusalOf (keyName room entry.1)).or (refusalOf (f entry.2)) := by
  induction entries generalizing before with
  | nil => rfl
  | cons entry rest ih =>
    rw [List.foldlM_cons, List.findSome?_cons]
    cases keyName room entry.1 with
    | error refusal => rfl
    | ok name =>
      cases f entry.2 with
      | error refusal => rfl
      | ok node => exact ih _

variable {g : Host.Graph} {room : Nat} {path : List Nat} {id : Nat} {occupant : Occupant} {refusal : Refusal}

/-- A container that is entered is refused for the first of its things that is. -/
theorem occupantRefusal_object (hm : id ∉ path) :
    occupantRefusal g (room + 1) path (.item (.object id)) =
      (g.object id).holds.findSome? (occupantRefusal g room (id :: path)) := by
  rw [occupantRefusal, Node.ofItem, if_neg hm]
  cases g.object id with
  | sequence kind items =>
    rw [Host.Object.holds, List.findSome?_map]
    exact (refusalOf_pure_bind _ _).trans (refusalOf_mapM _ items)
  | mapping kind entries =>
    refine (refusalOf_pure_bind _ _).trans ((refusalOf_foldlM _ _ entries []).trans ?_)
    rw [Host.Object.holds]
    induction entries with
    | nil => rfl
    | cons entry rest ih =>
      rw [List.findSome?_cons, ih, List.flatMap_cons, List.findSome?_append]
      simp only [List.findSome?_cons, List.findSome?_nil, occupantRefusal]
      cases refusalOf (keyName (roomInside g (id :: path)) entry.1) <;> cases refusalOf (Node.ofItem g room (id :: path) entry.2) <;> rfl

theorem occupantRefusal_of_fault (h : g.Fault path occupant refusal) (hdepth : room + path.length = maxDepth) :
    occupantRefusal g room path occupant = some refusal := by
  cases h with
  | number hd => simp [occupantRefusal, Node.ofItem, Node.ofScalar, hd, refusalOf]
  | bytes | marker | foreign => simp [occupantRefusal, Node.ofItem, Node.ofScalar, refusalOf, Host.Scalar.typeName]
  | again hm _ => cases room <;> simp [occupantRefusal, Node.ofItem, hm, refusalOf]
  | deep hm hlength =>
    obtain rfl : room = 0 := by omega
    simp [occupantRefusal, Node.ofItem, hm, refusalOf]
  | key htext hshown => simp [occupantRefusal, keyName, htext, hshown, refusalOf]
  | unshown htext hshown => simp [occupantRefusal, keyName, htext, hshown, refusalOf]

theorem refusalOf_ofScalar {s : Host.Scalar} (h : s.HasImage) : refusalOf (Node.ofScalar s) = none := by
  cases s with
  | none | bool | float | text => rfl
  | int n subclass =>
    obtain ⟨d, hd⟩ := Option.isSome_iff_exists.mp h
    simp [Node.ofScalar, hd, refusalOf]
  | bytes | marker | foreign => exact h.elim

theorem refusalOf_keyName {key : Host.Value} (h : key.likeText?.isSome) : refusalOf (keyName room key) = none := by
  obtain ⟨name, hname⟩ := Option.isSome_iff_exists.mp h
  simp [keyName, hname, refusalOf]

/-- An occupant is accepted where it has no fault, and else refused for its first one. -/
structure NamesFirst (g : Host.Graph) (room : Nat) (path : List Nat) (occupant : Occupant) : Prop where
  accepted : occupantRefusal g room path occupant = none ↔ ∀ place refusal, ¬ g.Faulty path occupant place refusal
  refused : ∀ refusal, occupantRefusal g room path occupant = some refusal ↔
    ∃ place, First (g.Faulty path occupant) place refusal

theorem namesFirst_of_fault (hf : g.Fault path occupant refusal) (hdepth : room + path.length = maxDepth) :
    NamesFirst g room path occupant := by
  have hrefusal := occupantRefusal_of_fault hf hdepth
  constructor
  · rw [hrefusal]
    exact iff_of_false (Option.some_ne_none _) fun h => h [] refusal ⟨path, occupant, .here, hf⟩
  · intro other
    rw [hrefusal, Host.Graph.first_of_fault hf, Option.some_inj]
    exact eq_comm

theorem namesFirst_of_none (hrefusal : occupantRefusal g room path occupant = none)
    (h : ∀ place refusal, ¬ g.Faulty path occupant place refusal) : NamesFirst g room path occupant := by
  constructor
  · exact iff_of_true hrefusal h
  · intro other
    rw [hrefusal]
    exact iff_of_false (Option.some_ne_none _).symm fun ⟨place, hfaulty, _⟩ => h place other hfaulty

theorem namesFirst_of_leaf (hleaf : ∀ id, occupant ≠ .item (.object id)) (hdepth : room + path.length = maxDepth) :
    NamesFirst g room path occupant := by
  by_cases hf : ∃ refusal, g.Fault path occupant refusal
  · obtain ⟨refusal, hf⟩ := hf
    exact namesFirst_of_fault hf hdepth
  · refine namesFirst_of_none ?_ fun place refusal h => hf ⟨refusal, ((Host.Graph.faulty_iff hleaf).mp h).2⟩
    rcases occupant with (s | id) | key
    · rw [occupantRefusal, Node.ofItem]
      exact refusalOf_ofScalar ((Host.Graph.hasImage_or_fault s).resolve_right hf)
    · exact absurd rfl (hleaf id)
    · exact refusalOf_keyName ((Host.Graph.isText_or_fault key).resolve_right hf)

theorem namesFirst_object (hm : id ∉ path) (hsound : ∀ refusal, ¬ g.Fault path (.item (.object id)) refusal)
    (h : ∀ occupant, NamesFirst g room (id :: path) occupant) : NamesFirst g (room + 1) path (.item (.object id)) := by
  constructor
  · rw [occupantRefusal_object hm, List.findSome?_eq_none_iff]
    constructor
    · intro hnone place refusal hfaulty
      obtain ⟨n, occupant, below, hn, -, hbelow⟩ := (Host.Graph.faulty_object_iff hsound).mp hfaulty
      exact (h occupant).accepted.mp (hnone occupant (List.mem_of_getElem? hn)) below refusal hbelow
    · intro hnone occupant hmem
      obtain ⟨n, hn⟩ := List.mem_iff_getElem?.mp hmem
      refine (h occupant).accepted.mpr fun below refusal hbelow => hnone (n :: below) refusal ?_
      exact (Host.Graph.faulty_object_iff hsound).mpr ⟨n, occupant, below, hn, rfl, hbelow⟩
  · intro refusal
    rw [occupantRefusal_object hm, Host.Graph.first_object_iff hsound, findSome?_eq_some_iff_getElem?]
    refine exists_congr fun n => exists_congr fun occupant => and_congr_right fun _ => ?_
    refine and_congr ((h occupant).refused refusal) (forall₄_congr fun m _ other _ => (h other).accepted)

/-- Along the recursion, the room that is left and the containers of the path together stay `maxDepth`. -/
theorem namesFirst (hdepth : room + path.length = maxDepth) : NamesFirst g room path occupant := by
  induction room using Nat.strong_induction_on generalizing path occupant with
  | h room ih =>
    by_cases hf : ∃ refusal, g.Fault path occupant refusal
    · obtain ⟨refusal, hf⟩ := hf
      exact namesFirst_of_fault hf hdepth
    rcases occupant with (s | id) | key
    · exact namesFirst_of_leaf (by simp) hdepth
    · obtain ⟨hm, hlt⟩ := (Host.Graph.entered_or_fault id (by omega)).resolve_right hf
      obtain ⟨left, rfl⟩ : ∃ left, room = left + 1 := ⟨room - 1, by omega⟩
      refine namesFirst_object hm (not_exists.mp hf) fun occupant => ih left (Nat.lt_succ_self left) ?_
      rw [List.length_cons]
      omega
    · exact namesFirst_of_leaf (by simp) hdepth

/-! ### The node of an argument -/

/-- The node that a value is written as: part by part, with the members of an object in the order of the entries. No
    part of such a value is cut off. -/
inductive Depicts : Host.Value → Node → Prop
  | none : Depicts (.scalar .none) .null
  | bool (b : Bool) : Depicts (.scalar (.bool b)) (.boolean b)
  | int {n : Int} {subclass : Option Host.Subclass} {d : Double} : Double.ofInt? n = some d →
      Depicts (.scalar (.int n subclass)) (.number d)
  | float (d : Double) (subclass : Option Host.Subclass) : Depicts (.scalar (.float d subclass)) (.number d)
  | text (t : Text) (kind : Host.TextKind) : Depicts (.scalar (.text t kind)) (.string t)
  | sequence {kind : Host.SequenceKind} {items : List Host.Value} {nodes : List Node} : items.length = nodes.length →
      (∀ n (h : n < items.length) (h' : n < nodes.length), Depicts items[n] nodes[n]) →
      Depicts (.sequence kind items) (.array nodes)
  | mapping {kind : Host.MappingKind} {entries : List (Host.Value × Host.Value)} {members : List (Text × Node)} :
      entries.length = members.length →
      (∀ n (h : n < entries.length) (h' : n < members.length), entries[n].1.likeText? = some members[n].1) →
      (∀ n (h : n < entries.length) (h' : n < members.length), Depicts entries[n].2 members[n].2) →
      Depicts (.mapping kind entries) (.object members)

theorem depicts_scalar {s : Host.Scalar} {node : Node} (h : Node.ofScalar s = .ok node) : Depicts (.scalar s) node := by
  rcases ofScalar_cases h with ⟨rfl, rfl⟩ | ⟨b, rfl, rfl⟩ | ⟨n, _, d, rfl, hd, rfl⟩ | ⟨d, _, rfl, rfl⟩ |
    ⟨t, kind, rfl, rfl⟩
  · exact .none
  · exact .bool b
  · exact .int hd
  · exact .float d _
  · exact .text t kind

theorem depicts_sequence {kind : Host.SequenceKind} {values : List Host.Value} {nodes : List Node}
    (h : List.Forall₂ Depicts values nodes) : Depicts (.sequence kind values) (.array nodes) :=
  .sequence h.length_eq fun _ hn hn' => h.get hn hn'

theorem depicts_mapping {kind : Host.MappingKind} {entries : List (Host.Value × Host.Value)}
    {members : List (Text × Node)}
    (h : List.Forall₂ (fun entry member => entry.1.likeText? = some member.1 ∧ Depicts entry.2 member.2) entries members) :
    Depicts (.mapping kind entries) (.object members) :=
  .mapping h.length_eq (fun _ hn hn' => (h.get hn hn').1) fun _ hn hn' => (h.get hn hn').2

theorem texts_eq_of_forall₂ {α β : Type} {P : α → β → Prop} {entries : List (Host.Value × α)} {named : List (Text × β)}
    (h : List.Forall₂ (fun entry member => entry.1.likeText? = some member.1 ∧ P entry.2 member.2) entries named) :
    (texts entries).map Prod.fst = named.map Prod.fst := by
  induction h with
  | nil => rfl
  | @cons entry member entries named hm _ ih => rw [Host.texts_cons hm.1, List.map_cons, List.map_cons, ih]

/-- An accepted item is the tree that its graph unfolds to there, node by node. -/
theorem depicts_of_ofItem (hkeys : g.KeysDistinct) {item : Host.Item} {node : Node}
    (h : Node.ofItem g room path item = .ok node) {depth : Nat} (hdepth : room ≤ depth) {seen blind : List Nat}
    (hseen : seen ⊆ path) (hblind : blind ⊆ path) : Depicts (g.unfold depth seen blind item) node := by
  refine ofItem_induction (P := fun _ => Depicts) depicts_scalar depicts_sequence ?_ h hdepth hseen hblind
  intro _ id kind entries named below hobject hall
  -- No member takes the place of another one.
  have hnames : (named.map Prod.fst).Nodup := by
    rw [← texts_eq_of_forall₂ (P := fun item node => Depicts (below item) node) hall]
    exact hkeys id kind entries hobject
  rw [Members.ofList_of_nodup hnames]
  refine depicts_mapping ?_
  rw [List.forall₂_map_left_iff]
  exact hall

/-! ### What becomes of an argument -/

theorem ofArgument_eq_error {item : Host.Item} :
    Node.ofArgument g item = .error refusal ↔ occupantRefusal g maxDepth [] (.item item) = some refusal := by
  rw [occupantRefusal, Node.ofArgument]
  cases Node.ofItem g maxDepth [] item <;> simp [refusalOf]

theorem exists_ofArgument {item : Host.Item} :
    (∃ node, Node.ofArgument g item = .ok node) ↔ occupantRefusal g maxDepth [] (.item item) = none := by
  rw [occupantRefusal, Node.ofArgument]
  cases Node.ofItem g maxDepth [] item <;> simp [refusalOf]

/-- The error of a fault is the link's own, unless the fault is a key that cannot even be shown. -/
theorem errorClass?_of_fault (h : g.Fault path occupant refusal) :
    (Failure.refused refusal).errorClass? = some .refusal ∨
      ∃ key reason, occupant = .key key ∧ key.likeText? = none ∧ key.unshown? (roomInside g path) = some reason ∧
        refusal = .unshownKey reason := by
  cases h with
  | unshown htext hshown => exact .inr ⟨_, _, rfl, htext, hshown, rfl⟩
  | number | bytes | marker | foreign | again | deep | key => exact .inl rfl

theorem ofArgument_iff_acceptable {item : Host.Item} :
    (∃ node, Node.ofArgument g item = .ok node) ↔ g.Acceptable item := by
  rw [exists_ofArgument, (namesFirst rfl).accepted, Host.Graph.acceptable_iff]

theorem depicts_of_ofArgument (hkeys : g.KeysDistinct) {item : Host.Item} {node : Node}
    (h : Node.ofArgument g item = .ok node) : Depicts (g.value item) node :=
  depicts_of_ofItem hkeys h (maxDepth_le_room g) (List.Subset.refl _) (List.Subset.refl _)

theorem first_of_ofArgument {item : Host.Item} :
    Node.ofArgument g item = .error refusal ↔ ∃ place, First (g.Faulty [] (.item item)) place refusal :=
  ofArgument_eq_error.trans ((namesFirst rfl).refused refusal)

/-- An argument is converted just when it is acceptable, and the result is then the tree that it unfolds to.
    Otherwise it is refused for the first place with a fault. -/
theorem argument_is_decided (g : Host.Graph) (item : Host.Item) :
    ((∃ node, Node.ofArgument g item = .ok node) ↔ g.Acceptable item) ∧
      (g.KeysDistinct → ∀ node, Node.ofArgument g item = .ok node → Depicts (g.value item) node) ∧
      (∀ refusal, Node.ofArgument g item = .error refusal ↔
        ∃ place, First (g.Faulty [] (.item item)) place refusal) ∧
      ∀ refusal, Node.ofArgument g item = .error refusal →
        (Failure.refused refusal).errorClass? = some .refusal ∨
          ∃ place above key reason, First (g.Faulty [] (.item item)) place refusal ∧
            g.Stands [] (.item item) place above (.key key) ∧ key.likeText? = none ∧
            key.unshown? (roomInside g above) = some reason ∧ refusal = .unshownKey reason := by
  refine ⟨ofArgument_iff_acceptable, fun hkeys node => depicts_of_ofArgument hkeys, fun _ => first_of_ofArgument, ?_⟩
  intro refusal h
  obtain ⟨place, hplace⟩ := first_of_ofArgument.mp h
  obtain ⟨above, occupant, hstands, hf⟩ := hplace.1
  rcases errorClass?_of_fault hf with hclass | ⟨key, reason, rfl, htext, hshown, hrefusal⟩
  · exact .inl hclass
  · exact .inr ⟨place, above, key, reason, hplace, hstands, htext, hshown, hrefusal⟩

/-- A list that holds the same mapping twice. -/
def diamond : Host.Graph where
  objects := #[.sequence .list [.object 1, .object 1],
    .mapping .dict [(.text (.ofString "b"), .object 2), (.text (.ofString "a"), .scalar .none)], .sequence .tuple []]

theorem keysDistinct_diamond : diamond.KeysDistinct := by
  intro id kind entries h
  match id with
  | 0 | 2 => cases h
  | 1 =>
    cases h
    decide
  | id + 3 => cases h

theorem diamond_is_decided : diamond.KeysDistinct ∧ ∃ node, Node.ofArgument diamond (.object 0) = .ok node ∧
    Depicts (diamond.value (.object 0)) node :=
  ⟨keysDistinct_diamond, _, rfl, (argument_is_decided diamond (.object 0)).2.1 keysDistinct_diamond _ rfl⟩

/-! ### Keys that cannot be shown -/

/-- A tuple in a tuple, and so on, with a number in the innermost of them. -/
def nestedTuples : Nat → Host.Value
  | 0 => .scalar (.int 1 none)
  | n + 1 => .sequence .tuple [nestedTuples n]

/-- Each tuple takes a call, and so does the number. -/
theorem unshown?_nestedTuples {n room : Nat} (h : room ≤ n) : (nestedTuples n).unshown? room = some .tooDeep := by
  induction n generalizing room with
  | zero =>
    obtain rfl := Nat.le_zero.mp h
    rfl
  | succ n ih =>
    cases room with
    | zero => rfl
    | succ room =>
      have hbelow : (nestedTuples n).unshown? room = some .tooDeep := ih (Nat.le_of_succ_le_succ h)
      exact Host.unshown?_singleton hbelow

/-- The least integer with too many digits. -/
def longInteger : Host.Value :=
  .scalar (.int (10 ^ Json.intDigitLimit : Nat) none)

theorem unshown?_longInteger {room : Nat} (h : 1 ≤ room) : longInteger.unshown? room = some .tooLong := by
  have hlong : Json.isTooLong (10 ^ Json.intDigitLimit : Nat) = true := decide_eq_true (Nat.le_refl _)
  have hcalls : ¬ room < (Host.Scalar.int (10 ^ Json.intDigitLimit : Nat) none).calls := Nat.not_lt.mpr h
  rw [longInteger, Host.Value.unshown?, if_neg hcalls, Host.Scalar.unshown?, if_pos hlong]

/-- A mapping with one entry under a key. -/
def keyedBy (key : Host.Value) : Host.Graph where
  objects := #[.mapping .dict [(key, .scalar (.int 1 none))]]

theorem not_acceptable_keyedBy {key : Host.Value} (htext : key.likeText? = none) :
    ¬ (keyedBy key).Acceptable (.object 0) := by
  intro h
  have hkey := h.keys [0] [0] key (.inside rfl .here)
  simp [htext] at hkey

theorem ofArgument_keyedBy {key : Host.Value} {reason : Host.Unshown} (htext : key.likeText? = none)
    (hshown : key.unshown? 988 = some reason) : Node.ofArgument (keyedBy key) (.object 0) = .error (.unshownKey reason) := by
  have hname : keyName (roomInside (keyedBy key) [0]) key = .error (.unshownKey reason) := by
    rw [keyName, htext, show roomInside (keyedBy key) [0] = 988 from rfl, hshown]
  have hkey : occupantRefusal (keyedBy key) 99 [0] (.key key) = some (.unshownKey reason) := congrArg refusalOf hname
  rw [ofArgument_eq_error, show maxDepth = 99 + 1 from rfl, occupantRefusal_object List.not_mem_nil]
  exact (List.findSome?_cons ..).trans (by rw [hkey])

/-- A tuple that holds more tuples than can be shown, and an integer that is too long to be. Neither makes the error
    the link's own. -/
theorem unshown_key_is_no_refusal :
    (¬ (keyedBy (nestedTuples 2000)).Acceptable (.object 0) ∧
      Node.ofArgument (keyedBy (nestedTuples 2000)) (.object 0) = .error (.unshownKey .tooDeep)) ∧
    (¬ (keyedBy longInteger).Acceptable (.object 0) ∧
      Node.ofArgument (keyedBy longInteger) (.object 0) = .error (.unshownKey .tooLong)) ∧
    (Failure.refused (.unshownKey .tooDeep)).errorClass? ≠ some .refusal ∧
    (Failure.refused (.unshownKey .tooLong)).errorClass? ≠ some .refusal := by
  exact ⟨⟨not_acceptable_keyedBy rfl, ofArgument_keyedBy rfl (unshown?_nestedTuples (by decide))⟩,
    ⟨not_acceptable_keyedBy rfl, ofArgument_keyedBy rfl (unshown?_longInteger (by decide))⟩, by decide, by decide⟩

end Wire

end ScriptLink
