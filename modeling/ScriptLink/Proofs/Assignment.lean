import ScriptLink.Proofs.Objects
import ScriptLink.Script.Encode

/-! # Assigning names

    An assignment makes a property of its own unless something along the prototypes decides otherwise. Here nothing
    does: `Ready` says of a realm that the prototypes of its new objects, and all objects from some number on, let any
    name be assigned below them. It is kept by new objects and by the assignments to them. -/

namespace ScriptLink.Script

/-! ### Own properties -/

namespace Object
variable {o : Object} {key : Key} {property : Property}

/-- The own property under a key has that key, and stands in the list unless it is the length of an array. -/
theorem own?_cases (h : o.own? key = some property) : property.key = key ∧ (property ∈ o.properties ∨
    ∃ n : Nat, property = ⟨.name lengthName, .value (.number (.ofInt n)), false, true, false⟩) := by
  have listed (h : o.properties.find? (fun property => property.key = key) = some property) :
      property.key = key ∧ property ∈ o.properties :=
    ⟨by simpa using List.find?_some h, List.mem_of_find?_eq_some h⟩
  have counted (n : Nat) (h : (if key = .name lengthName then
      some (⟨.name lengthName, .value (.number (.ofInt n)), false, true, false⟩ : Property)
      else o.properties.find? fun property => property.key = key) = some property) :
      property.key = key ∧ (property ∈ o.properties ∨
        ∃ n : Nat, property = ⟨.name lengthName, .value (.number (.ofInt n)), false, true, false⟩) := by
    split at h
    case isTrue hkey =>
      obtain rfl := Option.some.inj h
      exact ⟨hkey.symm, .inr ⟨n, rfl⟩⟩
    case isFalse => exact ⟨(listed h).1, .inl (listed h).2⟩
  rw [own?] at h
  split at h
  case h_1 n _ => exact counted n h
  case h_2 n _ => exact counted n h
  case h_3 => exact ⟨(listed h).1, .inl (listed h).2⟩

theorem own?_of_plain (h : o.nature = .plain) (key : Key) :
    o.own? key = o.properties.find? fun property => property.key = key := by
  rw [own?, h]

/-- A property under a new key is put behind the others. -/
theorem define_new (h : ∀ old ∈ o.properties, old.key ≠ property.key) :
    o.define property = { o with properties := o.properties ++ [property] } := by
  have hany : o.properties.any (fun old => old.key = property.key) = false := by
    rw [List.any_eq_false]
    exact fun old hold => by simpa using h old hold
  rw [define, hany]
  rfl

theorem own?_define_of_ne (h : key ≠ property.key) : (o.define property).own? key = o.own? key := by
  have replaced (listed : List Property) :
      (listed.map fun old => if old.key = property.key then property else old).find?
        (fun old => decide (old.key = key)) = listed.find? fun old => decide (old.key = key) := by
    induction listed with
    | nil => rfl
    | cons old rest ih =>
      by_cases hold : old.key = property.key
      · simp [hold, h.symm, ih]
      · simp [hold, List.find?_cons, ih]
  have appended : (o.properties ++ [property]).find? (fun old => decide (old.key = key)) =
      o.properties.find? fun old => decide (old.key = key) := by
    simp [List.find?_append, h.symm]
  rw [define]
  split
  all_goals
    rw [own?, own?]
    simp only [replaced, appended]

/-- An object that lets any name be assigned below it: all its names but that of the prototype stand for values that
    can be written, and it has no tag. -/
structure Open (o : Object) : Prop where
  direct : ∀ target, o.nature ≠ .proxy target
  untagged : ∀ property ∈ o.properties, property.key ≠ .symbol .toStringTag
  writable : ∀ property ∈ o.properties, ∀ name, property.key = .name name → name ≠ prototypeName →
    property.writable = true ∧ ∃ v, property.slot = .value v

theorem Open.of_entries {entries : List (Units × Value)} (h : ∀ target, o.nature ≠ .proxy target)
    (hp : o.properties = entries.map fun entry => Realm.ordinary (.name entry.1) entry.2) : o.Open where
  direct := h
  untagged property hm := by
    rw [hp] at hm
    obtain ⟨entry, -, rfl⟩ := List.mem_map.mp hm
    exact fun h => by cases h
  writable property hm _ _ _ := by
    rw [hp] at hm
    obtain ⟨entry, -, rfl⟩ := List.mem_map.mp hm
    exact ⟨rfl, entry.2, rfl⟩

theorem Open.own?_name (ho : o.Open) {name : Units} (hname : name ≠ prototypeName)
    (h : o.own? (.name name) = some property) : property.writable = true ∧ ∃ v, property.slot = .value v := by
  obtain ⟨hkey, hp | ⟨n, rfl⟩⟩ := own?_cases h
  · exact ho.writable property hp name hkey hname
  · exact ⟨rfl, _, rfl⟩

theorem Open.own?_tag (ho : o.Open) : o.own? (.symbol .toStringTag) = none := by
  rw [Option.eq_none_iff_forall_ne_some]
  intro property h
  obtain ⟨hkey, hp | ⟨n, rfl⟩⟩ := own?_cases h
  · exact ho.untagged property hp hkey
  · cases hkey

/-- An object is open whose properties are hidden ones, apart from the one under the name of the prototype. -/
theorem Open.of_hidden (hnature : ∀ target, o.nature ≠ .proxy target) (h : ∀ property ∈ o.properties,
    (∃ name v, property = Intrinsic.hidden name v) ∨ property.key = .name prototypeName) : o.Open where
  direct := hnature
  untagged property hm := by
    rcases h property hm with ⟨name, v, rfl⟩ | hkey
    · exact fun he => by cases he
    · rw [hkey]
      exact fun he => by cases he
  writable property hm name hname hne := by
    rcases h property hm with ⟨_, v, rfl⟩ | hkey
    · exact ⟨rfl, v, rfl⟩
    · rw [hname] at hkey
      exact absurd (Key.name.inj hkey) hne

end Object

theorem Intrinsic.hidden_of_mem_methods {owner : String} {names : List String} {property : Property}
    (h : property ∈ methods owner names) : ∃ name v, property = hidden name v := by
  obtain ⟨name, -, rfl⟩ := List.mem_map.mp h
  exact ⟨name, _, rfl⟩

namespace Realm
variable {r r' r'' : Realm} {lo ref : Nat} {o : Object}

/-! ### Realms that differ in some objects -/

/-- A realm with at least the objects of another, which are as they were, and with its variables. -/
structure Grows (r r' : Realm) : Prop where
  size : r.objects.size ≤ r'.objects.size
  bindings : r'.bindings = r.bindings
  object : ∀ ref < r.objects.size, r'.object ref = r.object ref

theorem Grows.refl (r : Realm) : r.Grows r := ⟨le_refl _, rfl, fun _ _ => rfl⟩

theorem Grows.trans (h : r.Grows r') (h' : r'.Grows r'') : r.Grows r'' :=
  ⟨h.size.trans h'.size, h'.bindings.trans h.bindings,
    fun ref href => (h'.object ref (href.trans_le h.size)).trans (h.object ref href)⟩

theorem size_add (r : Realm) (o : Object) : (r.add o).2.objects.size = r.objects.size + 1 := Array.size_push _

theorem object_add_self (r : Realm) (o : Object) : (r.add o).2.object r.objects.size = o := by
  simp [Realm.add, Realm.object]

theorem grows_add (r : Realm) (o : Object) : r.Grows (r.add o).2 where
  size := by
    rw [size_add]
    omega
  bindings := rfl
  object ref href := by
    have hne : ref ≠ r.objects.size := by omega
    simp [Realm.add, Realm.object, Array.getElem?_push, hne]

/-- A realm that differs from another in one object, which is now `o`, if at all. -/
structure Reshapes (r : Realm) (ref : Ref) (o : Object) (r' : Realm) : Prop where
  size : r'.objects.size = r.objects.size
  bindings : r'.bindings = r.bindings
  self : r'.object ref = o
  others : ∀ other, other ≠ ref → r'.object other = r.object other

theorem reshapes_update (h : ref < r.objects.size) (f : Object → Object) :
    r.Reshapes ref (f (r.object ref)) (r.update ref f) where
  size := Array.size_modify
  bindings := rfl
  self := by simp [Realm.update, Realm.object, Array.getElem?_modify, Array.getElem?_eq_getElem h]
  others other hne := by simp [Realm.update, Realm.object, Array.getElem?_modify, Ne.symm hne]

theorem reshapes_self (r : Realm) (ref : Ref) : r.Reshapes ref (r.object ref) r := ⟨rfl, rfl, rfl, fun _ _ => rfl⟩

/-! ### Realms in which names can be assigned -/

/-- The objects along whose prototypes new objects are looked at: the two prototypes of new objects, and all objects
    from a number on. -/
def InPlay (lo : Nat) (ref : Ref) : Prop :=
  ref = Intrinsic.objectPrototype.ref ∨ ref = Intrinsic.arrayPrototype.ref ∨ lo ≤ ref

/-- A realm in which any name but that of the prototype can be assigned to the objects from number `lo` on. -/
structure Ready (r : Realm) (lo : Nat) : Prop where
  bound : Intrinsic.arrayPrototype.ref < lo
  size : lo ≤ r.objects.size
  opened : ∀ ref, InPlay lo ref → (r.object ref).Open
  prototype : ∀ ref parent, InPlay lo ref → (r.object ref).prototype = some parent → InPlay lo parent
  accessor : ∃ property, (r.object Intrinsic.objectPrototype.ref).own? (.name prototypeName) = some property ∧
    property.slot = .ownPrototype

theorem inPlay_of_le (h : lo ≤ ref) : InPlay lo ref := .inr (.inr h)

theorem inPlay_objectPrototype : InPlay lo Intrinsic.objectPrototype.ref := .inl rfl

theorem inPlay_arrayPrototype : InPlay lo Intrinsic.arrayPrototype.ref := .inr (.inl rfl)

theorem Ready.objectPrototype_lt (h : r.Ready lo) : Intrinsic.objectPrototype.ref < lo :=
  lt_trans (by decide) h.bound

/-- An object that can be assigned to is looked at itself, and then its prototype. -/
theorem Ready.findFrom_succ (h : r.Ready lo) (href : InPlay lo ref) (key : Key) (steps : Nat) :
    r.findFrom key (steps + 1) ref = match (r.object ref).own? key with
      | some property => .ok (some (ref, property))
      | none => match (r.object ref).prototype with
        | some parent => r.findFrom key steps parent
        | none => .ok none := by
  have ho := h.opened ref href
  rw [findFrom]
  split
  case h_1 hn => exact absurd hn (ho.direct none)
  case h_2 target hn => exact absurd hn (ho.direct (some target))
  case h_3 => rfl

/-- What is found for a name but that of the prototype can be overridden by an own property. -/
theorem Ready.find_name (h : r.Ready lo) (href : InPlay lo ref) {name : Units} (hname : name ≠ prototypeName) :
    r.find ref (.name name) = .ok none ∨ ∃ owner property v, r.find ref (.name name) = .ok (some (owner, property)) ∧
      (r.object owner).own? (.name name) = some property ∧ property.writable = true ∧ property.slot = .value v := by
  unfold find
  generalize r.steps = steps
  induction steps generalizing ref with
  | zero => exact .inl rfl
  | succ steps ih =>
    rw [h.findFrom_succ href]
    rcases hown : (r.object ref).own? (.name name) with _ | property
    · rcases hp : (r.object ref).prototype with _ | parent
      · exact .inl rfl
      · exact ih (h.prototype ref parent href hp)
    · obtain ⟨hwritable, v, hv⟩ := (h.opened ref href).own?_name hname hown
      exact .inr ⟨ref, property, v, rfl, hown, hwritable, hv⟩

/-- No tag is found. -/
theorem Ready.find_tag (h : r.Ready lo) (href : InPlay lo ref) : r.find ref (.symbol .toStringTag) = .ok none := by
  unfold find
  generalize r.steps = steps
  induction steps generalizing ref with
  | zero => rfl
  | succ steps ih =>
    rw [h.findFrom_succ href, (h.opened ref href).own?_tag]
    rcases hp : (r.object ref).prototype with _ | parent
    · rfl
    · exact ih (h.prototype ref parent href hp)

/-- A new object keeps a realm ready if it is open itself, with its prototype. -/
theorem Ready.add (h : r.Ready lo) (ho : o.Open) (hp : ∀ parent, o.prototype = some parent → InPlay lo parent) :
    (r.add o).2.Ready lo := by
  have hsize := h.size
  have old : ∀ ref, (r.add o).2.object ref = r.object ref ∨ (r.add o).2.object ref = o := by
    intro ref
    by_cases hlt : ref < r.objects.size
    · exact .inl ((grows_add r o).object ref hlt)
    · by_cases heq : ref = r.objects.size
      · exact .inr (heq ▸ object_add_self r o)
      · have hgt : r.objects.size < ref := lt_of_le_of_ne (Nat.not_lt.mp hlt) (Ne.symm heq)
        have hnone : (r.add o).2.objects[ref]? = none := Array.getElem?_eq_none (by rw [size_add]; omega)
        have hnone' : r.objects[ref]? = none := Array.getElem?_eq_none (by omega)
        exact .inl (by rw [Realm.object, Realm.object, hnone, hnone'])
  refine ⟨h.bound, ?_, ?_, ?_, ?_⟩
  · rw [size_add]
    omega
  · intro ref href
    rcases old ref with he | he <;> rw [he]
    · exact h.opened ref href
    · exact ho
  · intro ref parent href
    rcases old ref with he | he <;> rw [he]
    · exact h.prototype ref parent href
    · exact hp parent
  · have hlt := h.objectPrototype_lt
    rw [(grows_add r o).object _ (hlt.trans_le hsize)]
    exact h.accessor

/-- A change of an object keeps a realm ready if the object is open afterwards, with its prototype. -/
theorem Ready.reshape (h : r.Ready lo) (hr : r.Reshapes ref o r') (href : lo ≤ ref) (ho : o.Open)
    (hp : ∀ parent, o.prototype = some parent → InPlay lo parent) : r'.Ready lo := by
  refine ⟨h.bound, hr.size.symm ▸ h.size, ?_, ?_, ?_⟩
  · intro other hother
    by_cases heq : other = ref
    · rw [heq, hr.self]
      exact ho
    · rw [hr.others other heq]
      exact h.opened other hother
  · intro other parent hother
    by_cases heq : other = ref
    · rw [heq, hr.self]
      exact hp parent
    · rw [hr.others other heq]
      exact h.prototype other parent hother
  · rw [hr.others _ (Nat.ne_of_lt (h.objectPrototype_lt.trans_le href))]
    exact h.accessor

/-! ### Assignments -/

/-- The assignment of a new name appends a property. -/
theorem Ready.assign_name (h : r.Ready lo) (href : lo ≤ ref) (hlt : ref < r.objects.size) {name : Units}
    (hname : name ≠ prototypeName) (hplain : (r.object ref).nature = .plain)
    (hnew : ∀ old ∈ (r.object ref).properties, old.key ≠ .name name) (v : Value) :
    r.Reshapes ref { r.object ref with properties := (r.object ref).properties ++ [ordinary (.name name) v] }
      (r.assign ref (.name name) v) := by
  have hown : (r.object ref).own? (.name name) = none := by
    rw [Object.own?_of_plain hplain, List.find?_eq_none]
    exact fun old hold => by simpa using hnew old hold
  have hassign : r.assign ref (.name name) v = r.define ref (ordinary (.name name) v) := by
    rw [assign]
    rcases h.find_name (inPlay_of_le href) hname with hf | ⟨owner, property, w, hf, howner, hwritable, hslot⟩
    · rw [hf]
    · have hne : owner ≠ ref := by
        rintro rfl
        rw [hown] at howner
        cases howner
      simp only [hf, hslot, hwritable, hne, Bool.not_true, Bool.false_eq_true, if_false]
  have hdefine : (r.object ref).define (ordinary (.name name) v) =
      { r.object ref with properties := (r.object ref).properties ++ [ordinary (.name name) v] } :=
    Object.define_new hnew
  rw [hassign, ← hdefine]
  exact reshapes_update hlt fun o => o.define (ordinary (.name name) v)

/-- The assignment of the prototype, to an object with the prototype of new objects, changes nothing else. -/
theorem Ready.assign_prototype (h : r.Ready lo) (hlt : ref < r.objects.size) (hplain : (r.object ref).nature = .plain)
    (hparent : (r.object ref).prototype = some Intrinsic.objectPrototype.ref)
    (hnew : ∀ old ∈ (r.object ref).properties, old.key ≠ .name prototypeName) (v : Value) :
    ∃ prototype, r.Reshapes ref { r.object ref with prototype := prototype } (r.assign ref (.name prototypeName) v) ∧
      ∀ parent, prototype = some parent → parent = Intrinsic.objectPrototype.ref ∨ v = .object parent := by
  obtain ⟨property, haccessor, hslot⟩ := h.accessor
  have hown : (r.object ref).own? (.name prototypeName) = none := by
    rw [Object.own?_of_plain hplain, List.find?_eq_none]
    exact fun old hold => by simpa using hnew old hold
  have hfind : r.find ref (.name prototypeName) = .ok (some (Intrinsic.objectPrototype.ref, property)) := by
    have hsize : r.steps = (r.objects.size - 1) + 1 + 1 := by
      rw [steps]
      omega
    rw [find, hsize, findFrom, hplain]
    simp only [hown, hparent]
    rw [h.findFrom_succ inPlay_objectPrototype, haccessor]
  have hassign : r.assign ref (.name prototypeName) v = r.setPrototype ref v := by
    rw [assign, hfind]
    simp only [hslot]
  -- Only null and objects are taken for a prototype; of anything else the setter makes nothing.
  have kept : r.Reshapes ref { r.object ref with prototype := some Intrinsic.objectPrototype.ref } r := by
    have := r.reshapes_self ref
    rwa [show r.object ref = { r.object ref with prototype := some Intrinsic.objectPrototype.ref } by rw [← hparent]]
      at this
  rw [hassign]
  cases v with
  | null => exact ⟨none, reshapes_update hlt fun o => { o with prototype := none }, fun _ he => by cases he⟩
  | object parent =>
    rw [setPrototype]
    split
    · exact ⟨_, kept, fun _ he => .inl (Option.some.inj he).symm⟩
    · exact ⟨some parent, reshapes_update hlt fun o => { o with prototype := some parent },
        fun _ he => .inr (congrArg _ (Option.some.inj he))⟩
  | _ => exact ⟨_, kept, fun _ he => .inl (Option.some.inj he).symm⟩

/-! ### Realms whose prototypes are as they should be -/

/-- An object holds a value under a name, as its own. -/
def Provides (r : Realm) (ref : Ref) (name : String) (v : Value) : Prop :=
  ∃ property, (r.object ref).own? (.ofString name) = some property ∧ property.slot = .value v

theorem Provides.of_same {name : String} {v : Value} (h : r.Provides ref name v) (hsame : r'.object ref = r.object ref) :
    r'.Provides ref name v := by
  rw [Provides, hsame]
  exact h

/-- A realm in which nothing stands in the way of new arrays and objects: their prototypes let any name be assigned
    below them, the prototype of an object is set under its name, and the functions by which they are made are where
    they are looked for. A new context has such a realm, and it stays so as long as no script puts a setter, a constant
    or a tag there, or something else in the place of one of these functions. -/
structure Unspoilt (r : Realm) : Prop where
  size : Intrinsic.objectFunction.ref < r.objects.size
  objectPrototype : (r.object Intrinsic.objectPrototype.ref).Open
  arrayPrototype : (r.object Intrinsic.arrayPrototype.ref).Open
  root : (r.object Intrinsic.objectPrototype.ref).prototype = none
  parent : (r.object Intrinsic.arrayPrototype.ref).prototype = some Intrinsic.objectPrototype.ref
  accessor : ∃ property, (r.object Intrinsic.objectPrototype.ref).own? (.name prototypeName) = some property ∧
    property.slot = .ownPrototype
  pushes : r.Provides Intrinsic.arrayPrototype.ref "push" Intrinsic.arrayPush.value
  lists : r.Provides Intrinsic.objectFunction.ref "keys" Intrinsic.objectKeys.value
  objects : r.Provides Intrinsic.global.ref "Object" Intrinsic.objectFunction.value
  numbers : r.Provides Intrinsic.global.ref "Number" Intrinsic.numberFunction.value
  /-- No variable hides the two that stand in the global object. -/
  visible : ∀ name ∈ ["Object", "Number"], ∀ binding ∈ r.bindings, binding.1 ≠ Units.ofString name

theorem Unspoilt.ready (h : r.Unspoilt) : r.Ready r.objects.size := by
  have unused {ref : Ref} (hle : r.objects.size ≤ ref) : r.object ref = ⟨.plain, none, []⟩ := by
    rw [object, Array.getElem?_eq_none hle]
    rfl
  refine ⟨lt_trans (by decide) h.size, le_rfl, ?_, ?_, h.accessor⟩
  · rintro ref (rfl | rfl | hle)
    · exact h.objectPrototype
    · exact h.arrayPrototype
    · rw [unused hle]
      refine ⟨?_, List.forall_mem_nil _, List.forall_mem_nil _⟩
      rintro _ ⟨⟩
  · rintro ref parent (rfl | rfl | hle) hp
    · rw [h.root] at hp
      cases hp
    · rw [h.parent] at hp
      exact Option.some.inj hp ▸ inPlay_objectPrototype
    · rw [unused hle] at hp
      cases hp

/-- The objects on which it depends whether a realm is unspoilt, but for two properties of the global object. -/
def Intrinsic.makers : List Intrinsic := [.objectPrototype, .arrayPrototype, .objectFunction]

/-- A realm stays unspoilt as long as these stay as they are, and the global object provides what it did. -/
theorem Unspoilt.of_same (h : r.Unspoilt) (hsize : r.objects.size ≤ r'.objects.size)
    (hbindings : r'.bindings = r.bindings) (hsame : ∀ i ∈ Intrinsic.makers, r'.object i.ref = r.object i.ref)
    (hglobal : ∀ name ∈ ["Object", "Number"], ∀ v, r.Provides Intrinsic.global.ref name v →
      r'.Provides Intrinsic.global.ref name v) : r'.Unspoilt := by
  have hobject := hsame .objectPrototype (by decide)
  have harray := hsame .arrayPrototype (by decide)
  have hfunction := hsame .objectFunction (by decide)
  exact
    { size := h.size.trans_le hsize
      objectPrototype := hobject.symm ▸ h.objectPrototype
      arrayPrototype := harray.symm ▸ h.arrayPrototype
      root := hobject.symm ▸ h.root
      parent := harray.symm ▸ h.parent
      accessor := hobject.symm ▸ h.accessor
      pushes := h.pushes.of_same harray
      lists := h.lists.of_same hfunction
      objects := hglobal "Object" (by simp) _ h.objects
      numbers := hglobal "Number" (by simp) _ h.numbers
      visible := hbindings.symm ▸ h.visible }

theorem Unspoilt.of_grows (h : r.Unspoilt) (hg : r.Grows r') : r'.Unspoilt := by
  have hmakers : ∀ i ∈ Intrinsic.global :: Intrinsic.makers, i.ref ≤ Intrinsic.objectFunction.ref := by decide
  have same (i : Intrinsic) (hi : i ∈ Intrinsic.global :: Intrinsic.makers) : r'.object i.ref = r.object i.ref :=
    hg.object i.ref ((hmakers i hi).trans_lt h.size)
  exact h.of_same hg.size hg.bindings (fun i hi => same i (List.mem_cons_of_mem _ hi)) fun _ _ _ hv =>
    hv.of_same (same .global List.mem_cons_self)

/-- Another property of the global object changes nothing of this. -/
theorem Unspoilt.define_global {name : Units} {property : Property} (h : r.Unspoilt)
    (hkey : property.key = .name name) (hother : ∀ word ∈ ["Object", "Number"], name ≠ .ofString word) :
    (r.define Intrinsic.global.ref property).Unspoilt := by
  have hlt : Intrinsic.global.ref < r.objects.size := lt_trans (by decide) h.size
  have hr := r.reshapes_update hlt fun o => o.define property
  have hmakers : ∀ i ∈ Intrinsic.makers, i.ref ≠ Intrinsic.global.ref := by decide
  refine h.of_same hr.size.ge hr.bindings (fun i hi => hr.others i.ref (hmakers i hi)) fun word hword v hv => ?_
  obtain ⟨old, hown, hslot⟩ := hv
  have hne : Key.ofString word ≠ property.key := by
    rw [hkey, Key.ofString]
    exact fun he => hother word hword (Key.name.inj he).symm
  exact ⟨old, (congrArg (Object.own? · _) hr.self).trans ((Object.own?_define_of_ne hne).trans hown), hslot⟩

theorem object_initial (i : Intrinsic) : initial.object i.ref = i.object := by
  have hmem : i ∈ Intrinsic.all := by cases i <;> decide
  have hlt : i.ref < Intrinsic.all.length := List.idxOf_lt_length_of_mem hmem
  rw [object, initial, List.getElem?_toArray, List.getElem?_append_left (by simpa using hlt), List.getElem?_map,
    Intrinsic.ref, List.getElem?_idxOf hmem]
  rfl

/-- The realm of an empty context is unspoilt. -/
theorem unspoilt_initial : initial.Unspoilt where
  size := by
    have hlt : Intrinsic.objectFunction.ref < Intrinsic.all.length := by decide
    simp only [initial, List.size_toArray, List.length_append, List.length_map]
    exact Nat.lt_add_right _ hlt
  objectPrototype := by
    rw [object_initial]
    refine .of_hidden (by rintro _ ⟨⟩) fun property hm => ?_
    rcases List.mem_append.mp (show property ∈ Intrinsic.objectProperties from hm) with hm | hm
    · exact .inl (Intrinsic.hidden_of_mem_methods hm)
    · simp only [List.mem_cons, List.not_mem_nil, or_false] at hm
      rcases hm with rfl | rfl | rfl | rfl
      case inr.inr.inr => exact .inr rfl
      all_goals exact .inl ⟨_, _, rfl⟩
  arrayPrototype := by
    rw [object_initial]
    refine .of_hidden (by rintro _ ⟨⟩) fun property hm => .inl ?_
    rcases List.mem_append.mp (show property ∈ Intrinsic.arrayProperties from hm) with hm | hm
    · exact Intrinsic.hidden_of_mem_methods hm
    · simp only [List.mem_cons, List.not_mem_nil, or_false] at hm
      rcases hm with rfl | rfl | rfl | rfl <;> exact ⟨_, _, rfl⟩
  root := by
    rw [object_initial]
    rfl
  parent := by
    rw [object_initial]
    rfl
  accessor := by
    rw [object_initial]
    exact ⟨⟨.ofString "__proto__", .ownPrototype, false, true, true⟩, rfl, rfl⟩
  pushes := by
    rw [Provides, object_initial]
    exact ⟨Intrinsic.hidden "push" Intrinsic.arrayPush.value, rfl, rfl⟩
  lists := by
    rw [Provides, object_initial]
    exact ⟨Intrinsic.hidden "keys" Intrinsic.objectKeys.value, rfl, rfl⟩
  objects := by
    rw [Provides, object_initial]
    exact ⟨Intrinsic.hidden "Object" Intrinsic.objectFunction.value, rfl, rfl⟩
  numbers := by
    rw [Provides, object_initial]
    exact ⟨Intrinsic.hidden "Number" Intrinsic.numberFunction.value, rfl, rfl⟩
  visible _ _ := List.forall_mem_nil _

end Realm

end ScriptLink.Script
