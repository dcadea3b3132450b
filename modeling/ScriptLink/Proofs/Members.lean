import Mathlib.Data.List.Nodup
import Mathlib.Data.List.Induction
import Mathlib.Data.List.Perm.Basic
import ScriptLink.Host.Value

/-! # Named values

    What `Members` keeps when values are put under names and taken out again. As long as no name stands twice, putting
    a value under a new name appends it, and the member found under a name is the only one with that name. -/

namespace ScriptLink

namespace Members

variable {α : Type} {members : Members α} {name : Text} {value : α}

theorem mem_names (h : (name, value) ∈ members) : name ∈ members.names :=
  List.mem_map_of_mem (f := Prod.fst) h

theorem filter_ne_of_not_mem (h : name ∉ members.names) :
    members.filter (fun member => member.1 ≠ name) = members := by
  refine List.filter_eq_self.mpr fun member hm => ?_
  have hmember : member.1 ∈ members.names := mem_names hm
  simpa using fun e : member.1 = name => h (e ▸ hmember)

theorem find?_cons (member : Text × α) (rest : Members α) (name : Text) :
    find? (member :: rest) name = if member.1 = name then some member.2 else rest.find? name := by
  by_cases h : member.1 = name <;> simp [find?, h]

theorem find?_eq_none : members.find? name = none ↔ name ∉ members.names := by
  simp only [find?, names, Option.map_eq_none_iff, List.find?_eq_none, decide_eq_true_eq, List.mem_map, not_exists,
    not_and]

theorem mem_of_find? (h : members.find? name = some value) : (name, value) ∈ members := by
  obtain ⟨⟨found, value'⟩, hfound, rfl⟩ := Option.map_eq_some_iff.mp h
  have hname : found = name := by simpa using List.find?_some hfound
  exact hname ▸ List.mem_of_find?_eq_some hfound

/-- Where no key stands twice, the entry under a key is the only one. -/
theorem find?_of_distinct {κ : Type} [DecidableEq κ] {entries : List (κ × α)} {key : κ}
    (distinct : (entries.map Prod.fst).Nodup) (h : (key, value) ∈ entries) :
    entries.find? (fun entry => entry.1 = key) = some (key, value) := by
  induction entries with
  | nil => cases h
  | cons entry rest ih =>
    rw [List.map_cons, List.nodup_cons] at distinct
    rcases List.mem_cons.mp h with rfl | h
    · simp
    · have hne : entry.1 ≠ key := fun e => distinct.1 (e ▸ List.mem_map_of_mem (f := Prod.fst) h)
      rw [List.find?_cons_of_neg (by simpa using hne), ih distinct.2 h]

theorem find?_of_mem (distinct : members.names.Nodup) (h : (name, value) ∈ members) :
    members.find? name = some value := by
  rw [find?, find?_of_distinct distinct h, Option.map_some]

/-- A value under a new name is appended. -/
theorem insert_of_not_mem (h : name ∉ members.names) : members.insert name value = members ++ [(name, value)] := by
  induction members with
  | nil => rfl
  | cons member rest ih =>
    simp only [names, List.map_cons, List.mem_cons, not_or] at h
    simp only [insert, if_neg (Ne.symm h.1), List.cons_append]
    rw [ih h.2]

/-- Where no name stands twice, the member under a name can be taken out in front. -/
theorem perm_cons_filter (distinct : members.names.Nodup) (h : (name, value) ∈ members) :
    members.Perm ((name, value) :: members.filter fun member => member.1 ≠ name) := by
  induction members with
  | nil => cases h
  | cons member rest ih =>
    rw [names, List.map_cons, List.nodup_cons] at distinct
    rcases List.mem_cons.mp h with rfl | h
    · rw [List.filter_cons_of_neg (by simp), filter_ne_of_not_mem distinct.1]
    · have hne : member.1 ≠ name := fun e => distinct.1 (e ▸ mem_names h)
      rw [List.filter_cons_of_pos (by simpa using hne)]
      exact ((ih distinct.2 h).cons member).trans (List.Perm.swap _ _ _)

theorem filter_append_singleton (h : name ∉ members.names) :
    (members ++ [(name, value)]).filter (fun member => member.1 ≠ name) = members := by
  rw [List.filter_append, filter_ne_of_not_mem h]
  simp

theorem find?_insert (members : Members α) (name : Text) (value : α) (other : Text) :
    (members.insert name value).find? other = if other = name then some value else members.find? other := by
  induction members with
  | nil => simp only [insert, find?_cons, eq_comm]
  | cons member rest ih =>
    by_cases hmember : member.1 = name
    · by_cases hother : other = name
      · rw [insert, if_pos hmember, find?_cons, if_pos hother.symm, if_pos hother]
      · rw [insert, if_pos hmember, find?_cons, if_neg (Ne.symm hother), if_neg hother, find?_cons,
          if_neg (hmember ▸ Ne.symm hother)]
    · rw [insert, if_neg hmember, find?_cons, find?_cons, ih]
      by_cases hfound : member.1 = other
      · rw [if_pos hfound, if_pos hfound, if_neg (hfound ▸ hmember)]
      · rw [if_neg hfound, if_neg hfound]

theorem find?_filter_ne (members : Members α) (name other : Text) :
    find? (members.filter fun member => member.1 ≠ name) other =
      if other = name then none else members.find? other := by
  induction members with
  | nil => simp [find?]
  | cons member rest ih =>
    by_cases hmember : member.1 = name
    · rw [List.filter_cons_of_neg (by simpa using hmember), ih, find?_cons]
      by_cases hother : other = name
      · rw [if_pos hother, if_pos hother]
      · rw [if_neg hother, if_neg hother, if_neg (hmember ▸ Ne.symm hother)]
    · rw [List.filter_cons_of_pos (by simpa using hmember), find?_cons, ih, find?_cons]
      by_cases hfound : member.1 = other
      · rw [if_pos hfound, if_pos hfound, if_neg (hfound ▸ hmember)]
      · rw [if_neg hfound, if_neg hfound]

theorem nodup_insert (distinct : members.names.Nodup) (name : Text) (value : α) :
    (members.insert name value).names.Nodup := by
  rw [names_insert]
  split
  case isTrue => exact distinct
  case isFalse h => exact List.nodup_append.mpr ⟨distinct, List.nodup_singleton _, fun a ha b hb he =>
      h (List.mem_singleton.mp hb ▸ he ▸ ha)⟩

/-! ### Members put together one after the other -/

theorem names_ofList_append (entries : List (Text × α)) (entry : Text × α) :
    ofList (entries ++ [entry]) = (ofList entries).insert entry.1 entry.2 := by
  simp [ofList]

theorem mem_insert {entry : Text × α} (h : entry ∈ members.insert name value) :
    entry = (name, value) ∨ entry ∈ members := by
  induction members with
  | nil => exact .inl (List.mem_singleton.mp h)
  | cons member rest ih =>
    rw [insert] at h
    split at h <;> rcases List.mem_cons.mp h with rfl | h
    · exact .inl rfl
    · exact .inr (List.mem_cons_of_mem _ h)
    · exact .inr List.mem_cons_self
    · exact (ih h).imp_right (List.mem_cons_of_mem _)

theorem mem_of_mem_ofList {entries : List (Text × α)} {entry : Text × α} (h : entry ∈ ofList entries) :
    entry ∈ entries := by
  induction entries using List.reverseRecOn with
  | nil => exact h
  | append_singleton entries last ih =>
    rw [names_ofList_append] at h
    rcases mem_insert h with rfl | h
    · exact List.mem_append_right _ (List.mem_singleton.mpr rfl)
    · exact List.mem_append_left _ (ih h)

theorem nodup_ofList (entries : List (Text × α)) : (ofList entries).names.Nodup := by
  induction entries using List.reverseRecOn with
  | nil => exact List.nodup_nil
  | append_singleton entries last ih =>
    rw [names_ofList_append]
    exact nodup_insert ih _ _

theorem forall₂_insert {β : Type} {R : Text × α → Text × β → Prop} (hR : ∀ a b, R a b → a.1 = b.1)
    {members : Members α} {members' : Members β} (h : List.Forall₂ R members members') {entry : Text × α}
    {entry' : Text × β} (he : R entry entry') :
    List.Forall₂ R (members.insert entry.1 entry.2) (members'.insert entry'.1 entry'.2) := by
  induction h with
  | nil => exact .cons he .nil
  | @cons member member' rest rest' hmember hrest ih =>
    have hname := hR _ _ hmember
    have hentry := hR _ _ he
    simp only [Members.insert]
    by_cases hsame : member.1 = entry.1
    · rw [if_pos hsame, if_pos (hname ▸ hentry ▸ hsame)]
      exact .cons he hrest
    · rw [if_neg hsame, if_neg (hname ▸ hentry ▸ hsame)]
      exact .cons hmember ih

theorem forall₂_foldl_insert {β : Type} {R : Text × α → Text × β → Prop} (hR : ∀ a b, R a b → a.1 = b.1)
    {entries : List (Text × α)} {entries' : List (Text × β)} (h : List.Forall₂ R entries entries')
    {members : Members α} {members' : Members β} (hm : List.Forall₂ R members members') :
    List.Forall₂ R (entries.foldl (fun members entry => Members.insert members entry.1 entry.2) members)
      (entries'.foldl (fun members entry => Members.insert members entry.1 entry.2) members') := by
  induction h generalizing members members' with
  | nil => exact hm
  | cons he _ ih => exact ih (forall₂_insert hR hm he)

/-- Values under the same names stay in pairs when they are put together. -/
theorem forall₂_ofList {β : Type} {R : Text × α → Text × β → Prop} (hR : ∀ a b, R a b → a.1 = b.1)
    {entries : List (Text × α)} {entries' : List (Text × β)} (h : List.Forall₂ R entries entries') :
    List.Forall₂ R (ofList entries) (ofList entries') :=
  forall₂_foldl_insert hR h .nil

/-- Values under different names are put together as they stand. -/
theorem ofList_of_nodup {entries : List (Text × α)} (h : (entries.map Prod.fst).Nodup) : ofList entries = entries := by
  induction entries using List.reverseRecOn with
  | nil => rfl
  | append_singleton entries entry ih =>
    rw [List.map_append, List.map_singleton, List.nodup_append] at h
    have hnew : entry.1 ∉ names entries := fun hm => h.2.2 _ hm _ (List.mem_singleton.mpr rfl) rfl
    rw [names_ofList_append, ih h.1, insert_of_not_mem hnew]

end Members

/-- What is found in an object that was read, is found among its members. -/
theorem Host.lookup?_ofJsonMembers (members : Members Json) (name : Text) :
    Host.lookup? (Host.ofJsonMembers members) name = (members.find? name).map .ofJson := by
  induction members with
  | nil => rfl
  | cons member rest ih =>
    rw [Host.lookup?] at ih
    rw [Members.find?_cons, Host.ofJsonMembers, Host.lookup?, List.find?_cons]
    change Option.map Prod.snd (match decide (some member.1 = some name) with | true => _ | false => _) = _
    by_cases h : member.1 = name
    · simp [h]
    · simp only [Option.some.injEq, decide_eq_false h, if_neg h]
      exact ih

end ScriptLink
