import ScriptLink.Proofs.Integers
import ScriptLink.Proofs.LineGrammar

/-! # Results that are no values

    What the peer sends as a result may be any JSON value. `Leaf` and `Holds` say which objects are nodes, and `Stops`
    finds the first part in reading order that is none. Such a part is reported as an error of the engine, unless it
    is a number with an integer that is too large for a double: the error that then comes is none of the link's.
    Main statement: a result is read as plain values or reported, just when no such integer stops its reading. -/

namespace ScriptLink

-- Powers of natural numbers are those of the language, also where others are in scope.
attribute [local instance (10000)] instPowNat

/-- Whether a JSON value is an object in which this content stands under the name. -/
def Json.Has (j : Json) (name : String) (content : Json) : Prop :=
  ∃ members, j = .object members ∧ Members.find? members (.ofString name) = some content

/-- The caller's values that are plain throughout: nothing, truth values, floats, strings, lists, dictionaries under
    strings, and the marker. -/
inductive Host.Value.IsPlain : Host.Value → Prop
  | none : IsPlain .none
  | bool (b : Bool) : IsPlain (.scalar (.bool b))
  | float (d : Double) : IsPlain (.float d)
  | text (t : Text) : IsPlain (.text t)
  | marker : IsPlain (.scalar .marker)
  | list {items : List Host.Value} (h : ∀ item ∈ items, IsPlain item) : IsPlain (.sequence .list items)
  | dict {members : List (Text × Host.Value)} (h : ∀ member ∈ members, IsPlain member.2) :
      IsPlain (.mapping .dict (members.map fun member => (.text member.1, member.2)))

namespace Wire

/-! ### Nodes -/

/-- The name of a tag. -/
def ContentTag.name : ContentTag → String
  | .boolean => "boolean"
  | .number => "number"
  | .string => "string"
  | .array => "array"
  | .object => "object"

/-- The contents without nodes that a node with this tag can have. -/
inductive Content : String → Json → Prop
  | boolean (b : Bool) : Content "boolean" (.bool b)
  | nan : Content "number" (.text (.ofString "NaN"))
  | infinity : Content "number" (.text (.ofString "Infinity"))
  | minusInfinity : Content "number" (.text (.ofString "-Infinity"))
  | float (d : Double) : Content "number" (.float d)
  | int {n : ℤ} (h : n.natAbs < 2 ^ 1024 - 2 ^ 970) : Content "number" (.int n)
  /-- A truth value is an integer for the caller. -/
  | truth (b : Bool) : Content "number" (.bool b)
  | string (t : Text) : Content "string" (.text t)

/-- The nodes without others in them. -/
inductive Leaf (j : Json) : Prop
  | null (ht : j.Has "t" (.text (.ofString "null")))
  | complex (ht : j.Has "t" (.text (.ofString "complex")))
  | content {tag : String} {content : Json} (ht : j.Has "t" (.text (.ofString tag))) (hv : j.Has "v" content)
      (h : Content tag content)

/-- The nodes that hold others, and what they hold in order. -/
inductive Holds (j : Json) : List Json → Prop
  | array {items : List Json} (ht : j.Has "t" (.text (.ofString "array"))) (hv : j.Has "v" (.array items)) :
      Holds j items
  | object {members : List (Text × Json)} (ht : j.Has "t" (.text (.ofString "object")))
      (hv : j.Has "v" (.object members)) : Holds j (members.map Prod.snd)

/-- Numbers with an integer that no finite double is near enough to. -/
def Large (j : Json) : Prop :=
  ∃ n : ℤ, j.Has "t" (.text (.ofString "number")) ∧ j.Has "v" (.int n) ∧ 2 ^ 1024 - 2 ^ 970 ≤ n.natAbs

/-- The values that are nodes throughout. -/
inductive Readable : Json → Prop
  | leaf {j : Json} (h : Leaf j) : Readable j
  | holds {j : Json} {parts : List Json} (h : Holds j parts) (hparts : ∀ part ∈ parts, Readable part) : Readable j

/-- Whether `stop` is the first part in reading order that is no node. -/
inductive Stops (stop : Json) : Json → Prop
  | here (hleaf : ¬ Leaf stop) (hholds : ∀ parts, ¬ Holds stop parts) : Stops stop stop
  | inside {j part : Json} {before after : List Json} (h : Holds j (before ++ part :: after))
      (hbefore : ∀ other ∈ before, Readable other) (hpart : Stops stop part) : Stops stop j

/-- Whether the reading of a value comes to an integer that is too large before anything else stops it. -/
def Overflows (j : Json) : Prop := ∃ stop, Stops stop j ∧ Large stop

/-- Whether a result is read as plain values, or reported as an error of the engine. -/
def Reported (content : Host.Value) : Prop :=
  (∃ value, decode content = .ok value ∧ value.IsPlain) ∨
    ∃ reason, decode content = .error reason ∧ (Failure.unreadable reason).errorClass? = some .engine

/-! ### One node -/

section Nodes
variable {j content : Json} {members : List (Text × Json)} {tag : ContentTag} {name : Text} {parts : List Json}

theorem decodeContent_skip {value : Host.Value} {rest : List (Host.Value × Host.Value)}
    (h : name ≠ .ofString "v") : decodeContent tag ((.text name, value) :: rest) = decodeContent tag rest := by
  have hkey : (Host.Value.text name).likeText? ≠ some (.ofString "v") := fun he => h (Option.some.inj he)
  cases value <;> simp only [decodeContent, hkey, if_false]

/-- Of the entries of a node only the one under `v` counts as its content. -/
theorem decodeContent_ofJsonMembers : decodeContent tag (Host.ofJsonMembers members) =
    (Members.find? members (.ofString "v")).bind fun content =>
      decodeContent tag [(.text (.ofString "v"), .ofJson content)] := by
  induction members with
  | nil => rfl
  | cons member rest ih =>
    obtain ⟨name, value⟩ := member
    rw [Members.find?_cons, Host.ofJsonMembers]
    by_cases hname : name = .ofString "v"
    · subst hname
      cases value <;> rfl
    · rw [if_neg hname, decodeContent_skip hname, ih]

theorem likeText?_ofJson_text (t : Text) : (Host.Value.ofJson (.text t)).likeText? = some t := rfl

/-- Objects with such a tag are read by what stands under `v`. -/
theorem decode_of_content (ht : Members.find? members (.ofString "t") = some (.text name))
    (htag : Reading.ofTag (some name) = .content tag) : decode (.ofJson (.object members)) =
      ((Members.find? members (.ofString "v")).bind fun content =>
        decodeContent tag [(.text (.ofString "v"), .ofJson content)]).getD
          (.error (.unexpected (Host.Value.ofJson (.object members)).display)) := by
  rw [Host.Value.ofJson, decode, Host.lookup?_ofJsonMembers, ht, Option.map_some, Option.bind_some,
    likeText?_ofJson_text, htag]
  dsimp only
  rw [decodeContent_ofJsonMembers]

/-- A node with a content is read by its tag and its content. -/
theorem decode_of_has {name : String} (tag : ContentTag) (ht : j.Has "t" (.text (.ofString name)))
    (hv : j.Has "v" content) (htag : Reading.ofTag (some (.ofString name)) = .content tag) : decode (.ofJson j) =
      (decodeContent tag [(.text (.ofString "v"), .ofJson content)]).getD
        (.error (.unexpected (Host.Value.ofJson j).display)) := by
  obtain ⟨members, rfl, ht⟩ := ht
  obtain ⟨_, he, hv⟩ := hv
  cases he
  rw [decode_of_content ht htag, hv, Option.bind_some]

theorem decode_of_done {name : String} {value : Host.Value} (ht : j.Has "t" (.text (.ofString name)))
    (htag : Reading.ofTag (some (.ofString name)) = .done value) : decode (.ofJson j) = .ok value := by
  obtain ⟨members, rfl, ht⟩ := ht
  rw [Host.Value.ofJson, decode, Host.lookup?_ofJsonMembers, ht, Option.map_some, Option.bind_some,
    likeText?_ofJson_text, htag]

/-- An integer as the content of a number. -/
theorem decode_of_int {n : ℤ} (ht : j.Has "t" (.text (.ofString "number"))) (hv : j.Has "v" (.int n)) :
    decode (.ofJson j) =
      if n.natAbs < 2 ^ 1024 - 2 ^ 970 then .ok (.float (.ofInt n)) else .error .intTooLarge := by
  have hcontent : decodeContent .number [(.text (.ofString "v"), .ofJson (.int n))] =
      decodeScalar? .number (.int n none) := rfl
  rw [decode_of_has .number ht hv rfl, hcontent, decodeScalar?_int, Option.getD_some]

/-- A node without others in it is read as a plain value. -/
theorem Leaf.reads (h : Leaf j) : ∃ value, decode (.ofJson j) = .ok value ∧ value.IsPlain := by
  cases h with
  | null ht => exact ⟨_, decode_of_done ht rfl, .none⟩
  | complex ht => exact ⟨_, decode_of_done ht rfl, .marker⟩
  | content ht hv h =>
    cases h with
    | boolean b => exact ⟨_, decode_of_has _ ht hv rfl, .bool b⟩
    | nan | infinity | minusInfinity => exact ⟨_, decode_of_has _ ht hv rfl, .float _⟩
    | float d => exact ⟨_, decode_of_has _ ht hv rfl, .float d⟩
    | int h => exact ⟨_, (decode_of_int ht hv).trans (if_pos h), .float _⟩
    | truth b => exact ⟨_, decode_of_has _ ht hv rfl, .float _⟩
    | string t => exact ⟨_, decode_of_has _ ht hv rfl, .text t⟩

theorem Large.reads (h : Large j) : decode (.ofJson j) = .error .intTooLarge := by
  obtain ⟨n, ht, hv, h⟩ := h
  exact (decode_of_int ht hv).trans (if_neg (Nat.not_lt.mpr h))

/-- The entries of an object are read in the order of their values. -/
theorem decodeEntries_ofJsonMembers : decodeEntries (Host.ofJsonMembers members) =
    (decodeItems (Host.ofJsonItems (members.map Prod.snd))).map fun values =>
      (List.zipWith (fun member value => (member.1, value)) members values).map fun member =>
        (.text member.1, member.2) := by
  induction members with
  | nil => rfl
  | cons member rest ih =>
    obtain ⟨name, value⟩ := member
    rw [Host.ofJsonMembers, decodeEntries, ih, List.map_cons, Host.ofJsonItems, decodeItems]
    rcases decode (.ofJson value) with _ | value
    · rfl
    · rcases decodeItems (Host.ofJsonItems (rest.map Prod.snd)) <;> rfl

/-- A node that holds others is read by reading these in order. -/
theorem Holds.reads (h : Holds j parts) : ∃ wrap : List Host.Value → Host.Value,
    decode (.ofJson j) = (decodeItems (Host.ofJsonItems parts)).map wrap ∧
      ∀ values, (∀ value ∈ values, value.IsPlain) → (wrap values).IsPlain := by
  cases h with
  | array ht hv => exact ⟨_, decode_of_has .array ht hv rfl, fun values h => .list h⟩
  | @object members ht hv =>
    refine ⟨fun values => .mapping .dict ((List.zipWith (fun member value => (member.1, value)) members values).map
      fun member => (.text member.1, member.2)), ?_, fun values h => .dict fun member hm => ?_⟩
    · have hcontent : decodeContent .object [(.text (.ofString "v"), .ofJson (.object members))] =
          some ((decodeEntries (Host.ofJsonMembers members)).map (.mapping .dict)) := rfl
      rw [decode_of_has .object ht hv rfl, hcontent, Option.getD_some, decodeEntries_ofJsonMembers]
      rcases decodeItems (Host.ofJsonItems (members.map Prod.snd)) <;> rfl
    · obtain ⟨k, hk, rfl⟩ := List.mem_iff_getElem.mp hm
      rw [List.getElem_zipWith]
      exact h _ (List.getElem_mem _)

theorem ContentTag.eq_of_ofName? (h : ContentTag.ofName? name = some tag) : name = .ofString tag.name := by
  unfold ContentTag.ofName? at h
  split_ifs at h with h₁ h₂ h₃ h₄ h₅ <;> cases h <;> assumption

/-- A tag takes no content but that of its nodes, and integers that are too large. -/
theorem decodeContent_of_foreign (hcontent : ¬ Content tag.name content)
    (hlarge : ∀ n : ℤ, tag = .number → content = .int n → n.natAbs < 2 ^ 1024 - 2 ^ 970)
    (harray : ∀ items, tag = .array → content ≠ .array items)
    (hobject : ∀ members, tag = .object → content ≠ .object members) :
    decodeContent tag [(.text (.ofString "v"), .ofJson content)] = none := by
  cases tag with
  | boolean =>
    cases content with
    | bool b => exact absurd (.boolean b) hcontent
    | _ => rfl
  | number =>
    cases content with
    | bool b => exact absurd (.truth b) hcontent
    | float d => exact absurd (.float d) hcontent
    | int n => exact absurd (.int (hlarge n rfl rfl)) hcontent
    | text word =>
      have hnan : word ≠ .ofString "NaN" := fun h => hcontent (h ▸ .nan)
      have hinfinity : word ≠ .ofString "Infinity" := fun h => hcontent (h ▸ .infinity)
      have hminus : word ≠ .ofString "-Infinity" := fun h => hcontent (h ▸ .minusInfinity)
      have hword : numberOfWord? word = none := by simp only [numberOfWord?, hnan, hinfinity, hminus, if_false]
      exact congrArg (Option.map fun d => Except.ok (Host.Value.float d)) hword
    | _ => rfl
  | string =>
    cases content with
    | text t => exact absurd (.string t) hcontent
    | _ => rfl
  | array =>
    cases content with
    | array items => exact absurd rfl (harray items rfl)
    | _ => rfl
  | object =>
    cases content with
    | object inner => exact absurd rfl (hobject inner rfl)
    | _ => rfl

/-- Whatever is no node and no integer that is too large, is reported with the way it shows itself. -/
theorem decode_unexpected (hleaf : ¬ Leaf j) (hlarge : ¬ Large j) (hholds : ∀ parts, ¬ Holds j parts) :
    decode (.ofJson j) = .error (.unexpected (Host.Value.ofJson j).display) := by
  cases j with
  | object members =>
    have has {key : String} {content : Json} (h : Members.find? members (.ofString key) = some content) :
        (Json.object members).Has key content := ⟨members, rfl, h⟩
    rcases ht : Members.find? members (.ofString "t") with _ | tag
    · rw [Host.Value.ofJson, decode, Host.lookup?_ofJsonMembers, ht]
      rfl
    cases tag with
    | text name =>
      have hnull : name ≠ .ofString "null" := fun h => hleaf (.null (has (h ▸ ht)))
      have hcomplex : name ≠ .ofString "complex" := fun h => hleaf (.complex (has (h ▸ ht)))
      rcases htag : ContentTag.ofName? name with _ | tag
      · have hunknown : Reading.ofTag (some name) = .unknown := by
          simp only [Reading.ofTag, hnull, hcomplex, if_false, htag]
        rw [Host.Value.ofJson, decode, Host.lookup?_ofJsonMembers, ht, Option.map_some, Option.bind_some,
          likeText?_ofJson_text, hunknown]
      have hreading : Reading.ofTag (some name) = .content tag := by
        simp only [Reading.ofTag, hnull, hcomplex, if_false, htag]
      obtain rfl := ContentTag.eq_of_ofName? htag
      rw [decode_of_content ht hreading]
      rcases hv : Members.find? members (.ofString "v") with _ | content
      · rfl
      -- The tag has a content, but not one of those that it may have.
      have hforeign : decodeContent tag [(.text (.ofString "v"), .ofJson content)] = none := by
        refine decodeContent_of_foreign (fun h => hleaf (.content (has ht) (has hv) h)) ?_ ?_ ?_
        · rintro n rfl rfl
          exact Nat.lt_of_not_le fun h => hlarge ⟨n, has ht, has hv, h⟩
        · rintro items rfl rfl
          exact hholds _ (.array (has ht) (has hv))
        · rintro inner rfl rfl
          exact hholds _ (.object (has ht) (has hv))
      rw [Option.bind_some, hforeign, Option.getD_none]
    | _ =>
      rw [Host.Value.ofJson, decode, Host.lookup?_ofJsonMembers, ht]
      rfl
  | _ => rfl

end Nodes

/-! ### Nodes in nodes -/

section Parts
variable {j stop part : Json} {parts before after : List Json}

theorem decodeItems_of_readable (h : ∀ other ∈ parts, ∃ value, decode (.ofJson other) = .ok value ∧ value.IsPlain) :
    ∃ values, decodeItems (Host.ofJsonItems parts) = .ok values ∧ ∀ value ∈ values, value.IsPlain := by
  induction parts with
  | nil => exact ⟨[], rfl, List.forall_mem_nil _⟩
  | cons part rest ih =>
    obtain ⟨⟨value, hvalue, hplain⟩, hrest⟩ := List.forall_mem_cons.mp h
    obtain ⟨values, hvalues, hplains⟩ := ih hrest
    refine ⟨value :: values, ?_, List.forall_mem_cons.mpr ⟨hplain, hplains⟩⟩
    rw [Host.ofJsonItems, decodeItems, hvalue, hvalues]
    rfl

/-- The first part that cannot be read says why the whole cannot. -/
theorem decodeItems_of_stops {reason : Unreadable}
    (hbefore : ∀ other ∈ before, ∃ value, decode (.ofJson other) = .ok value)
    (hpart : decode (.ofJson part) = .error reason) :
    decodeItems (Host.ofJsonItems (before ++ part :: after)) = .error reason := by
  induction before with
  | nil =>
    rw [List.nil_append, Host.ofJsonItems, decodeItems, hpart]
    rfl
  | cons other rest ih =>
    obtain ⟨⟨value, hvalue⟩, hrest⟩ := List.forall_mem_cons.mp hbefore
    rw [List.cons_append, Host.ofJsonItems, decodeItems, hvalue, ih hrest]
    rfl

theorem Readable.reads (h : Readable j) : ∃ value, decode (.ofJson j) = .ok value ∧ value.IsPlain := by
  induction h with
  | leaf h => exact h.reads
  | holds h _ ih =>
    obtain ⟨wrap, hdecode, hwrap⟩ := h.reads
    obtain ⟨values, hvalues, hplain⟩ := decodeItems_of_readable ih
    rw [hvalues] at hdecode
    exact ⟨wrap values, hdecode, hwrap values hplain⟩

/-- The part that stops the reading says why the whole cannot be read. -/
theorem Stops.reads {reason : Unreadable} (h : Stops stop j) (hstop : decode (.ofJson stop) = .error reason) :
    decode (.ofJson j) = .error reason := by
  induction h with
  | here => exact hstop
  | inside h hbefore _ ih =>
    obtain ⟨wrap, hdecode, -⟩ := h.reads
    rw [hdecode, decodeItems_of_stops (fun other hother => (hbefore other hother).reads.imp fun _ => And.left) ih]
    rfl

/-- Parts that are nodes throughout, or stop the reading, do so one after the other. -/
theorem readable_or_stops (h : ∀ part ∈ parts, Readable part ∨ ∃ stop, Stops stop part) :
    (∀ part ∈ parts, Readable part) ∨ ∃ before part after stop, parts = before ++ part :: after ∧
      (∀ other ∈ before, Readable other) ∧ Stops stop part := by
  induction parts with
  | nil => exact .inl (List.forall_mem_nil _)
  | cons part rest ih =>
    obtain ⟨hpart, hrest⟩ := List.forall_mem_cons.mp h
    rcases hpart with hpart | ⟨stop, hstop⟩
    · rcases ih hrest with hrest | ⟨before, part', after, stop, rfl, hbefore, hstop⟩
      · exact .inl (List.forall_mem_cons.mpr ⟨hpart, hrest⟩)
      · exact .inr ⟨part :: before, part', after, stop, rfl, List.forall_mem_cons.mpr ⟨hpart, hbefore⟩, hstop⟩
    · exact .inr ⟨[], part, rest, stop, rfl, List.forall_mem_nil _, hstop⟩

theorem Holds.sizeOf_lt (h : Holds j parts) (hpart : part ∈ parts) : sizeOf part < sizeOf j := by
  have found {name : String} {content : Json} (hhas : j.Has name content) : sizeOf content < sizeOf j := by
    obtain ⟨members, rfl, hfind⟩ := hhas
    have hmember := List.sizeOf_lt_of_mem (Members.mem_of_find? hfind)
    simp only [Prod.mk.sizeOf_spec, Json.object.sizeOf_spec] at hmember ⊢
    omega
  cases h with
  | array _ hv =>
    have hcontent := found hv
    have hitem := List.sizeOf_lt_of_mem hpart
    simp only [Json.array.sizeOf_spec] at hcontent
    omega
  | object _ hv =>
    have hcontent := found hv
    obtain ⟨⟨name, value⟩, hmember, rfl⟩ := List.mem_map.mp hpart
    have hmember := List.sizeOf_lt_of_mem hmember
    simp only [Prod.mk.sizeOf_spec, Json.object.sizeOf_spec] at hcontent hmember ⊢
    omega

/-- Every value is a node throughout, or something in it stops the reading. -/
theorem readable_or_stops_at (j : Json) : Readable j ∨ ∃ stop, Stops stop j := by
  induction hsize : sizeOf j using Nat.strongRecOn generalizing j with
  | ind size ih =>
    by_cases hleaf : Leaf j
    · exact .inl (.leaf hleaf)
    by_cases hholds : ∃ parts, Holds j parts
    · obtain ⟨parts, hholds⟩ := hholds
      rcases readable_or_stops fun part hpart => ih _ (hsize ▸ hholds.sizeOf_lt hpart) part rfl with
        hparts | ⟨before, part, after, stop, rfl, hbefore, hstop⟩
      · exact .inl (.holds hholds hparts)
      · exact .inr ⟨stop, .inside hholds hbefore hstop⟩
    · exact .inr ⟨j, .here hleaf fun parts hparts => hholds ⟨parts, hparts⟩⟩

theorem Stops.unreadable (h : Stops stop j) : ¬ Leaf stop ∧ ∀ parts, ¬ Holds stop parts := by
  induction h with
  | here hleaf hholds => exact ⟨hleaf, hholds⟩
  | inside _ _ _ ih => exact ih

/-- A result is read as plain values or reported, just when no integer that is too large stops its reading. -/
theorem reported_iff : Reported (.ofJson j) ↔ ¬ Overflows j := by
  constructor
  · rintro h ⟨stop, hstop, hlarge⟩
    have hread := hstop.reads hlarge.reads
    rcases h with ⟨value, hvalue, -⟩ | ⟨reason, hreason, hclass⟩
    · rw [hread] at hvalue
      cases hvalue
    · rw [hread] at hreason
      obtain rfl := Except.error.inj hreason
      cases hclass
  · intro h
    rcases readable_or_stops_at j with hreadable | ⟨stop, hstop⟩
    · exact .inl hreadable.reads
    · have hlarge : ¬ Large stop := fun hlarge => h ⟨stop, hstop, hlarge⟩
      exact .inr ⟨_, hstop.reads (decode_unexpected hstop.unreadable.1 hlarge hstop.unreadable.2), rfl⟩

theorem overflows_iff : Overflows j ↔ decode (.ofJson j) = .error .intTooLarge := by
  constructor
  · rintro ⟨stop, hstop, hlarge⟩
    exact hstop.reads hlarge.reads
  · intro h
    by_contra hnot
    rcases reported_iff.mpr hnot with ⟨value, hvalue, -⟩ | ⟨reason, hreason, hclass⟩
    · rw [h] at hvalue
      cases hvalue
    · rw [h] at hreason
      obtain rfl := Except.error.inj hreason
      cases hclass

end Parts

/-- Whatever the peer sends as a result is read as plain values or reported as an error of the engine, just when no
    integer that is too large stops its reading. If one does, the error is none of the link's. -/
theorem result_is_reported_iff {line : List UInt8} {j : Json} (h : LineDerives 200 line j) :
    Event.ofLine? line = some (.message (.ofJson j)) ∧ (Reported (.ofJson j) ↔ ¬ Overflows j) ∧
      (Overflows j ↔ decode (.ofJson j) = .error .intTooLarge) ∧
      (Failure.unreadable .intTooLarge).errorClass? = none :=
  ⟨h.ofLine?_eq (by decide), reported_iff, overflows_iff, rfl⟩

/-- The number 10^400 as an integer. -/
def overflowing : Json :=
  .object [(.ofString "t", .text (.ofString "number")), (.ofString "v", .int (10 ^ 400))]

/-- An array that begins with a text where a node should be. -/
def garbled : Json :=
  .object [(.ofString "t", .text (.ofString "array")),
    (.ofString "v", .array [.text (.ofString "lots"), overflowing])]

theorem fits_overflowing (room : ℕ) : overflowing.Fits (room + 1) :=
  ⟨trivial, show (10 ^ 400 : ℤ).natAbs < 10 ^ Json.intDigitLimit by decide +kernel, trivial⟩

theorem garbled_is_reported : LineDerives 200 garbled.line garbled ∧
    decode (.ofJson garbled) = .error (.unexpected (.ofString "'lots'")) ∧ ¬ Overflows garbled := by
  have hline : LineDerives 200 garbled.line garbled :=
    lineDerives_line ⟨trivial, ⟨trivial, fits_overflowing _, trivial⟩, trivial⟩
  have hread : decode (.ofJson garbled) = .error (.unexpected (.ofString "'lots'")) := by
    have hholds : Holds garbled ([] ++ .text (.ofString "lots") :: [overflowing]) :=
      .array ⟨_, rfl, rfl⟩ ⟨_, rfl, rfl⟩
    obtain ⟨wrap, hdecode, -⟩ := hholds.reads
    have hdisplay : (Host.Value.ofJson (.text (.ofString "lots"))).display = .ofString "'lots'" := by decide +kernel
    rw [hdecode, decodeItems_of_stops (List.forall_mem_nil _) rfl, ← hdisplay]
    rfl
  exact ⟨hline, hread, (result_is_reported_iff hline).2.1.mp (.inr ⟨_, hread, rfl⟩)⟩

/-- A number that is too large for a double is not reported as an error of the engine. -/
theorem overflowing_is_not_reported : LineDerives 200 overflowing.line overflowing ∧
    decode (.ofJson overflowing) = .error .intTooLarge ∧ ¬ Reported (.ofJson overflowing) := by
  have hlarge : Large overflowing := ⟨10 ^ 400, ⟨_, rfl, rfl⟩, ⟨_, rfl, rfl⟩, by decide +kernel⟩
  refine ⟨lineDerives_line (fits_overflowing _), hlarge.reads, fun h => ?_⟩
  exact reported_iff.mp h (overflows_iff.mpr hlarge.reads)

end Wire

end ScriptLink
