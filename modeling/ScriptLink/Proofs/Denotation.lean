import ScriptLink.Proofs.Arrival
import ScriptLink.Proofs.Construction

/-! # What a value of the caller denotes

    A value of the caller denotes a value of the script: sequences denote arrays, mappings denote plain objects. Of
    the entries of a mapping some can be lost on the way. `Denotes` leaves open which are kept, so that it can say what
    a value denotes by itself (all entries are kept) and what becomes of it (`Members.crossing`). Main statements: what
    is built for an accepted value is what becomes of it, and this is what it denotes just when the keys of its
    mappings are apart. -/

namespace ScriptLink

/-! ### Keys -/

namespace Members
variable {α : Type} {entries : List (Text × α)}

/-- The entries of a mapping that reach the script: merged under joined names, and without that of the prototype. -/
def crossing (entries : List (Text × α)) : Members α :=
  (crossed entries).filter fun entry => entry.1 ≠ .ofString "__proto__"

/-- Entries that cross as they are: none has the name of the prototype, and the joined names are different. -/
structure Apart (entries : List (Text × α)) : Prop where
  prototype : Text.ofString "__proto__" ∉ entries.map Prod.fst
  distinct : (entries.map fun entry => entry.1.join).Nodup

theorem toUnits_eq_prototypeName {t : Text} : t.toUnits = Script.prototypeName ↔ t = .ofString "__proto__" := by
  have hall : (Text.ofString "__proto__").all fun c => c.val < 0xD800 := rfl
  have below : ∀ c ∈ Text.ofString "__proto__", c.val < 0xD800 := fun c hc =>
    of_decide_eq_true (List.all_eq_true.mp hall c hc)
  constructor
  · exact Text.eq_of_toUnits_eq below
  · rintro rfl
    rfl

theorem join_eq_prototype {t : Text} : t.join = .ofString "__proto__" ↔ t = .ofString "__proto__" := by
  rw [← toUnits_eq_prototypeName, Text.toUnits_join, toUnits_eq_prototypeName]

/-- The names that reach the script, in units. -/
theorem units_crossing (entries : List (Text × α)) : (crossing entries).map (fun entry => entry.1.toUnits) =
    ((crossed entries).map fun entry => entry.1.toUnits).filter fun name => name ≠ Script.prototypeName := by
  rw [crossing, List.filter_map]
  refine congrArg _ (List.filter_congr fun entry _ => decide_eq_decide.mpr (not_congr ?_))
  exact toUnits_eq_prototypeName.symm

theorem crossing_of_apart (h : Apart entries) :
    crossing entries = entries.map fun entry => (entry.1.join, entry.2) := by
  rw [crossing, crossed_of_nodup h.distinct]
  refine List.filter_eq_self.mpr fun entry hm => decide_eq_true fun he => h.prototype ?_
  obtain ⟨⟨name, value⟩, hentry, rfl⟩ := List.mem_map.mp hm
  exact join_eq_prototype.mp he ▸ List.mem_map_of_mem (f := Prod.fst) hentry

/-- Entries are apart if all of their names reach the script, and none is merged with another. -/
theorem apart_of_perm (h : (entries.map fun entry => entry.1.toUnits).Perm
    ((crossing entries).map fun entry => entry.1.toUnits)) : Apart entries where
  prototype hm := by
    obtain ⟨entry, hm, he⟩ := List.mem_map.mp hm
    have hunits : Script.prototypeName ∈ entries.map fun entry => entry.1.toUnits :=
      List.mem_map.mpr ⟨entry, hm, toUnits_eq_prototypeName.mpr he⟩
    rw [h.mem_iff, units_crossing] at hunits
    simp at hunits
  distinct := by
    have hunits : ((crossing entries).map fun entry => entry.1.toUnits).Nodup := by
      rw [units_crossing]
      have := nodup_units_crossed entries
      rw [names, List.map_map] at this
      exact this.filter _
    have hentries := h.nodup_iff.mpr hunits
    have hjoined : entries.map (fun entry => entry.1.toUnits) =
        (entries.map fun entry => entry.1.join).map Text.toUnits := by
      rw [List.map_map]
      exact List.map_congr_left fun entry _ => (Text.toUnits_join entry.1).symm
    rw [hjoined] at hentries
    exact hentries.of_map

end Members

namespace Host

/-- The parts of a value: itself, the items of the sequences in it, and the values of the mappings in it. -/
inductive Value.Part (v : Value) : Value → Prop
  | whole : Part v v
  | item {kind : SequenceKind} {items : List Value} {w : Value} : Part v (.sequence kind items) → w ∈ items → Part v w
  | value {kind : MappingKind} {entries : List (Value × Value)} {key w : Value} : Part v (.mapping kind entries) →
      (key, w) ∈ entries → Part v w

/-- Whether the entries of every mapping in a value cross as they are. -/
def Value.KeysApart (v : Value) : Prop :=
  ∀ kind entries, v.Part (.mapping kind entries) → Members.Apart (texts entries)

namespace Value
variable {u v w : Value}

theorem Part.trans (h : u.Part v) (h' : v.Part w) : u.Part w := by
  induction h' with
  | whole => exact h
  | item _ hm ih => exact .item ih hm
  | value _ hm ih => exact .value ih hm

theorem KeysApart.of_part (h : v.KeysApart) (hw : v.Part w) : w.KeysApart := fun kind entries hp =>
  h kind entries (hw.trans hp)

/-- The parts of a scalar. -/
theorem Part.of_scalar {s : Scalar} (h : (scalar s).Part w) : w = .scalar s := by
  induction h with
  | whole => rfl
  | item _ _ ih => cases ih
  | value _ _ ih => cases ih

theorem Part.of_sequence {kind : SequenceKind} {items : List Value} (h : (sequence kind items).Part w) :
    w = .sequence kind items ∨ ∃ item ∈ items, item.Part w := by
  induction h with
  | whole => exact .inl rfl
  | item _ hm ih =>
    rcases ih with he | ⟨item, hi, hp⟩
    · cases he
      exact .inr ⟨_, hm, .whole⟩
    · exact .inr ⟨item, hi, .item hp hm⟩
  | value _ hm ih =>
    rcases ih with he | ⟨item, hi, hp⟩
    · cases he
    · exact .inr ⟨item, hi, .value hp hm⟩

theorem Part.of_mapping {kind : MappingKind} {entries : List (Value × Value)} (h : (mapping kind entries).Part w) :
    w = .mapping kind entries ∨ ∃ entry ∈ entries, entry.2.Part w := by
  induction h with
  | whole => exact .inl rfl
  | item _ hm ih =>
    rcases ih with he | ⟨entry, hi, hp⟩
    · cases he
    · exact .inr ⟨entry, hi, .item hp hm⟩
  | value _ hm ih =>
    rcases ih with he | ⟨entry, hi, hp⟩
    · cases he
      exact .inr ⟨_, hm, .whole⟩
    · exact .inr ⟨entry, hi, .value hp hm⟩

theorem keysApart_scalar (s : Scalar) : (scalar s).KeysApart := fun _ _ h => by cases h.of_scalar

theorem keysApart_sequence {kind : SequenceKind} {items : List Value} (h : ∀ item ∈ items, item.KeysApart) :
    (sequence kind items).KeysApart := by
  intro kind entries hp
  rcases hp.of_sequence with he | ⟨item, hi, hp⟩
  · cases he
  · exact h item hi kind entries hp

theorem keysApart_mapping {kind : MappingKind} {entries : List (Value × Value)} (h : Members.Apart (texts entries))
    (h' : ∀ entry ∈ entries, entry.2.KeysApart) : (mapping kind entries).KeysApart := by
  intro kind others hp
  rcases hp.of_mapping with he | ⟨entry, hi, hp⟩
  · cases he
    exact h
  · exact h' entry hi kind others hp

end Value

theorem mem_texts {α : Type} {entries : List (Value × α)} {name : Text} {value : α} :
    (name, value) ∈ texts entries ↔ ∃ key, (key, value) ∈ entries ∧ key.likeText? = some name := by
  rw [texts, List.mem_filterMap]
  constructor
  · rintro ⟨⟨key, value⟩, hm, he⟩
    obtain ⟨name, hname, he⟩ := Option.map_eq_some_iff.mp he
    obtain ⟨rfl, rfl⟩ := Prod.mk.inj he
    exact ⟨key, hm, hname⟩
  · rintro ⟨key, hm, hname⟩
    exact ⟨(key, value), hm, by rw [hname]; rfl⟩

end Host

namespace Script
open Host (texts)

/-! ### Denotations -/

/-- What a value of the caller denotes in a realm, if `kept` are the entries that are kept of those of a mapping. -/
inductive Realm.Denotes (r : Realm) (kept : List (Text × Host.Value) → List (Text × Host.Value)) :
    Host.Value → Value → Prop
  | none : Denotes r kept (.scalar .none) .null
  | bool (b : Bool) : Denotes r kept (.scalar (.bool b)) (.boolean b)
  | int {n : Int} {subclass : Option Host.Subclass} {d : Double} : Double.ofInt? n = some d →
      Denotes r kept (.scalar (.int n subclass)) (.number d)
  | float (d : Double) (subclass : Option Host.Subclass) : Denotes r kept (.scalar (.float d subclass)) (.number d)
  | text (t : Text) (kind : Host.TextKind) : Denotes r kept (.scalar (.text t kind)) (.string t.toUnits)
  | sequence {kind : Host.SequenceKind} {items : List Host.Value} {ref : Ref} {elements : List Value} :
      r.IsArray ref elements → elements.length = items.length →
      (∀ n (h : n < items.length) (h' : n < elements.length), Denotes r kept items[n] elements[n]) →
      Denotes r kept (.sequence kind items) (.object ref)
  | mapping {kind : Host.MappingKind} {entries : List (Host.Value × Host.Value)} {ref : Ref}
      {members : List (Units × Value)} : (∀ entry ∈ entries, entry.1.likeText?.isSome) → r.IsRecord ref members →
      members.map Prod.fst = inOrder ((kept (texts entries)).map fun entry => entry.1.toUnits) →
      (∀ name value w, (name, value) ∈ kept (texts entries) → (name.toUnits, w) ∈ members → Denotes r kept value w) →
      Denotes r kept (.mapping kind entries) (.object ref)

end Script

namespace Wire
open Script (Realm)

variable {r : Realm} {lo hi base : Nat} {value : Host.Value} {node : Node} {v : Script.Value}

theorem length_of_names {α β : Type} {entries : Members α} {members : List (Text × β)}
    (hnames : entries.names = members.map Prod.fst) : entries.length = members.length := by
  simpa [Members.names] using congrArg List.length hnames

/-- The place of an entry among entries with the same names. -/
theorem exists_place {α β : Type} {entries : Members α} {members : List (Text × β)}
    (hnames : entries.names = members.map Prod.fst) {name : Text} {value : α} (h : (name, value) ∈ entries) :
    ∃ n, ∃ (hn : n < entries.length) (hn' : n < members.length), entries[n].2 = value ∧ members[n].1 = name := by
  obtain ⟨n, hn, he⟩ := List.mem_iff_getElem.mp h
  have hname := List.getElem_of_eq hnames (i := n) (by simpa [Members.names] using hn)
  simp only [Members.names, List.getElem_map, he] at hname
  exact ⟨n, hn, length_of_names hnames ▸ hn, by rw [he], hname.symm⟩

/-- What arrives can be built. -/
theorem Arrives.buildable (h : Arrives value node) : node.Buildable := by
  induction h with
  | scalar h =>
    rcases ofScalar_cases h with ⟨-, rfl⟩ | ⟨_, -, rfl⟩ | ⟨_, _, _, -, -, rfl⟩ | ⟨_, _, -, rfl⟩ | ⟨_, _, -, rfl⟩ <;>
      trivial
  | sequence hlength _ ih =>
    refine itemsBuildable_iff.mpr fun node hm => ?_
    obtain ⟨n, hn, rfl⟩ := List.mem_iff_getElem.mp hm
    exact ih n (hlength ▸ hn) hn
  | @mapping kind entries members _ hnames _ ih =>
    refine ⟨?_, membersBuildable_iff.mpr fun member hm => ?_⟩
    · have := Members.nodup_units_crossed (Host.texts entries)
      rwa [hnames, List.map_map] at this
    · obtain ⟨n, hn, rfl⟩ := List.mem_iff_getElem.mp hm
      exact ih n (length_of_names hnames ▸ hn) hn

/-- What is built for what arrives is what becomes of the value. -/
theorem Arrives.denotes (h : Arrives value node) (hv : r.Builds lo hi node v) (hr : r.Ready base) (hbase : base ≤ lo) :
    r.Denotes Members.crossing value v := by
  induction h generalizing lo hi v with
  | scalar h =>
    rcases ofScalar_cases h with ⟨rfl, rfl⟩ | ⟨b, rfl, rfl⟩ | ⟨n, _, d, rfl, hd, rfl⟩ | ⟨d, _, rfl, rfl⟩ |
      ⟨t, kind, rfl, rfl⟩ <;> cases hv
    · exact .none
    · exact .bool b
    · exact .int hd
    · exact .float d _
    · rw [Text.toUnits_join]
      exact .text t kind
  | sequence hlength _ ih =>
    cases hv with
    | array hl hh hnature hown hlength' hitems =>
      refine .sequence (Realm.isArray_of_own hnature hown) (hlength'.trans hlength.symm) fun n h h' => ?_
      exact ih n h (hlength ▸ h) (hitems n (hlength ▸ h) h') hbase
  | @mapping kind entries members hkeys hnames harrives ih =>
    -- The object's own names are told by the entries alone, so they do not depend on what the nodes are.
    have hunits : members.map (fun member => member.1.toUnits) =
        (Members.crossed (Host.texts entries)).map fun entry => entry.1.toUnits := by
      have := congrArg (List.map Text.toUnits) hnames
      rw [Members.names, List.map_map, List.map_map] at this
      exact this.symm
    have hvalue : Arrives (.mapping kind entries) (.object members) := .mapping hkeys hnames harrives
    have hbuildable := hvalue.buildable
    cases hv with
    | @object _ _ ref _ assigned hl hh hnature hproperties hassigned hmembers =>
      have hrecord := hr.isRecord_built (hbase.trans hl) hnature hproperties hassigned hbuildable.1
      refine .mapping hkeys hrecord ?_ fun name value w hm hw => ?_
      · rw [hassigned, hunits, ← Script.inOrder_filter_ne Realm.indexOf?_prototypeName, Members.units_crossing]
      · obtain ⟨n, hn, hn', rfl, rfl⟩ := exists_place hnames (List.mem_filter.mp hm).1
        have hbuilds := hmembers members[n].1 members[n].2 w (List.getElem_mem hn') hw
        exact ih n hn hn' hbuilds (hbase.trans (hl.trans (Nat.le_succ _)))

end Wire

namespace Script.Realm
open Host (texts)

variable {r : Realm} {value : Host.Value} {v : Value}

/-- Where the keys are apart, everything is kept. -/
theorem Denotes.of_keysApart (h : r.Denotes Members.crossing value v) (hk : value.KeysApart) : r.Denotes id value v := by
  induction h with
  | none => exact .none
  | bool b => exact .bool b
  | int hd => exact .int hd
  | float d subclass => exact .float d subclass
  | text t kind => exact .text t kind
  | sequence harray hlength _ ih =>
    exact .sequence harray hlength fun n h h' => ih n h h' (hk.of_part (.item .whole (List.getElem_mem h)))
  | @mapping kind entries ref members hkeys hrecord hnames _ ih =>
    have hcrossing := Members.crossing_of_apart (hk kind entries .whole)
    have hunits : (Members.crossing (texts entries)).map (fun entry => entry.1.toUnits) =
        (texts entries).map fun entry => entry.1.toUnits := by
      rw [hcrossing, List.map_map]
      exact List.map_congr_left fun entry _ => Text.toUnits_join entry.1
    refine .mapping hkeys hrecord (hunits ▸ hnames) fun name value w hm hw => ?_
    obtain ⟨key, hkey, -⟩ := Host.mem_texts.mp hm
    have hcrossed : (name.join, value) ∈ Members.crossing (texts entries) :=
      hcrossing ▸ List.mem_map_of_mem (f := fun entry : Text × Host.Value => (entry.1.join, entry.2)) hm
    exact ih name.join value w hcrossed ((Text.toUnits_join name).symm ▸ hw) (hk.of_part (.value .whole hkey))

/-- Where everything is kept, the keys are apart. -/
theorem Denotes.keysApart (h : r.Denotes Members.crossing value v) (h' : r.Denotes id value v) : value.KeysApart := by
  induction h with
  | none | bool | int | float | text => exact Host.Value.keysApart_scalar _
  | sequence harray hlength _ ih =>
    cases h' with
    | sequence harray' _ hitems =>
      obtain rfl := harray.unique harray'
      refine Host.Value.keysApart_sequence fun item hm => ?_
      obtain ⟨n, hn, rfl⟩ := List.mem_iff_getElem.mp hm
      exact ih n hn (hlength ▸ hn) (hitems n hn (hlength ▸ hn))
  | @mapping kind entries ref members hkeys hrecord hnames _ ih =>
    cases h' with
    | mapping _ hrecord' hnames' hvalues =>
      obtain rfl := hrecord.unique hrecord'
      have hapart : Members.Apart (texts entries) :=
        Members.apart_of_perm ((inOrder_perm _).symm.trans ((hnames'.symm.trans hnames) ▸ inOrder_perm _))
      have hcrossing := Members.crossing_of_apart hapart
      refine Host.Value.keysApart_mapping hapart fun ⟨key, value⟩ hm => ?_
      obtain ⟨name, hname⟩ := Option.isSome_iff_exists.mp (hkeys _ hm)
      have htext : (name, value) ∈ texts entries := Host.mem_texts.mpr ⟨key, hm, hname⟩
      have hmember : name.toUnits ∈ members.map Prod.fst := by
        rw [hnames', mem_inOrder]
        exact List.mem_map_of_mem (f := fun entry : Text × Host.Value => entry.1.toUnits) htext
      obtain ⟨⟨_, w⟩, hw, rfl⟩ := List.mem_map.mp hmember
      have hcrossed : (name.join, value) ∈ Members.crossing (texts entries) :=
        hcrossing ▸ List.mem_map_of_mem (f := fun entry : Text × Host.Value => (entry.1.join, entry.2)) htext
      exact ih name.join value w hcrossed ((Text.toUnits_join name).symm ▸ hw) (hvalues name value w htext hw)

end Script.Realm

end ScriptLink
