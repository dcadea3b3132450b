import ScriptLink.Marker
import ScriptLink.Proofs.Members
import ScriptLink.Wire.Decode

/-! # One shared marker at a time

    Names obtain the shared marker, by asking for it or with a result that has no image, until it is forgotten; nobody
    but the holders keeps it alive. A marker that is built stays that of its name alone. Main statement: the names that
    have obtained a marker since the last forgetting, and still hold it, hold the one shared marker, and without such a
    name there is none. -/

namespace ScriptLink

namespace Marker

/-- Any two markers are equal. -/
theorem equals_value (marker other : Marker) : marker.equals other.value := by
  rw [equals, value, value, Host.Value.equal]
  rfl

/-- Markers are one value in a set. -/
theorem distinct_cons (marker : Marker) (markers : List Marker) : distinct (marker :: markers) = 1 := by
  have hassign (marker other : Marker) : Host.assign [(other.value, ())] marker.value () = [(other.value, ())] := by
    have hequal : other.value.equal marker.value := other.equals_value marker
    rw [Host.assign]
    exact if_pos hequal
  have hfold : markers.foldl (fun found marker => Host.assign found marker.value ()) [(marker.value, ())] =
      [(marker.value, ())] := by
    induction markers with
    | nil => rfl
    | cons other markers ih => rw [List.foldl_cons, hassign, ih]
  rw [distinct, List.foldl_cons, Host.assign, hfold]
  rfl

end Marker

namespace Holders

/-- What is done with names that hold markers. -/
inductive Deed where
  | obtain (name : Text)
  /-- A result without an image is read. -/
  | read (name : Text) (node : Host.Value) (complex : Wire.decode node = .ok (.scalar .marker))
  | build (name : Text)
  | release (name : Text)
  | forget

namespace Deed

/-- The deed gives the shared marker to a name. -/
def Obtains (name : Text) : Deed → Prop
  | .obtain other => other = name
  | .read other _ _ => other = name
  | _ => False

/-- The deed gives another marker to a name, or none. -/
def Touches (name : Text) : Deed → Prop
  | .obtain other => other = name
  | .read other _ _ => other = name
  | .build other => other = name
  | .release other => other = name
  | .forget => False

instance (name : Text) : (deed : Deed) → Decidable (deed.Touches name)
  | .obtain other | .read other _ _ | .build other | .release other => inferInstanceAs (Decidable (other = name))
  | .forget => inferInstanceAs (Decidable False)

end Deed

/-- The holders after a deed. -/
def after (s : Holders) : Deed → Holders
  | .obtain name => s.obtain name
  | .read name _ _ => s.obtain name
  | .build name => s.build name
  | .release name => s.release name
  | .forget => s.forget

/-- The holders after some deeds. -/
def afterAll (s : Holders) (deeds : List Deed) : Holders :=
  deeds.foldl after s

/-- Among some deeds there is one of a kind, and all behind it are of another. -/
def Since (kind rest : Deed → Prop) (deeds : List Deed) : Prop :=
  ∃ before deed later, deeds = before ++ deed :: later ∧ kind deed ∧ ∀ other ∈ later, rest other

/-- A name has obtained the shared marker after the last forgetting and still holds it. -/
def Obtained (deeds : List Deed) (name : Text) : Prop :=
  Since (Deed.Obtains name) (fun deed => ¬ deed.Touches name ∧ deed ≠ .forget) deeds

/-- A name has been given a marker of its own and still holds it. -/
def Built (deeds : List Deed) (name : Text) : Prop :=
  Since (· = .build name) (fun deed => ¬ deed.Touches name) deeds

section Deeds
variable {kind rest : Deed → Prop} {deeds : List Deed} {deed : Deed} {name : Text} {s : Holders} {marker : Marker}

theorem not_since_nil : ¬ Since kind rest [] := by
  rintro ⟨before, deed, later, hsplit, -⟩
  exact absurd hsplit.symm (List.append_ne_nil_of_right_ne_nil _ (List.cons_ne_nil _ _))

theorem since_concat : Since kind rest (deeds ++ [deed]) ↔ kind deed ∨ Since kind rest deeds ∧ rest deed := by
  constructor
  · rintro ⟨before, first, later, hsplit, hkind, hrest⟩
    rcases List.eq_nil_or_concat' later with rfl | ⟨later, last, rfl⟩
    · obtain ⟨-, rfl⟩ := List.append_singleton_inj.mp hsplit
      exact .inl hkind
    · rw [← List.cons_append, ← List.append_assoc] at hsplit
      obtain ⟨rfl, rfl⟩ := List.append_singleton_inj.mp hsplit
      refine .inr ⟨⟨before, first, later, rfl, hkind, fun other hother => ?_⟩, ?_⟩
      · exact hrest other (List.mem_append_left _ hother)
      · exact hrest deed (List.mem_append_right _ (List.mem_singleton_self _))
  · rintro (hkind | ⟨⟨before, first, later, rfl, hkind, hrest⟩, hlast⟩)
    · exact ⟨deeds, deed, [], rfl, hkind, by simp⟩
    · refine ⟨before, first, later ++ [deed], by simp, hkind, fun other hother => ?_⟩
      rcases List.mem_append.mp hother with hother | hother
      · exact hrest other hother
      · exact List.mem_singleton.mp hother ▸ hlast

theorem afterAll_append (s : Holders) (deeds more : List Deed) :
    s.afterAll (deeds ++ more) = (s.afterAll deeds).afterAll more :=
  List.foldl_append

theorem afterAll_concat (s : Holders) (deeds : List Deed) (deed : Deed) :
    s.afterAll (deeds ++ [deed]) = (s.afterAll deeds).after deed :=
  s.afterAll_append deeds [deed]

end Deeds

/-! ### What a deed does -/

/-- The marker that is obtained: the shared one, or a new one if there is none. -/
def target (s : Holders) : Marker := s.shared.getD ⟨s.next⟩

/-- What a deed gives to the name that it touches. -/
def given (s : Holders) : Deed → Option Marker
  | .obtain _ => some s.target
  | .read _ _ _ => some s.target
  | .build _ => some ⟨s.next⟩
  | .release _ => none
  | .forget => none

section Step
variable {s : Holders} {name other : Text} {marker : Marker} {deed : Deed}

theorem Deed.Obtains.touches (h : deed.Obtains name) : deed.Touches name := by
  cases deed with
  | obtain | read => exact h
  | build | release | forget => cases h

theorem Deed.Obtains.of_touches (h : deed.Obtains other) (htouches : deed.Touches name) : deed.Obtains name := by
  cases deed with
  | obtain | read => exact htouches
  | build | release | forget => cases h

theorem Deed.Obtains.given_eq (h : deed.Obtains name) : s.given deed = some s.target := by
  cases deed with
  | obtain | read => rfl
  | build | release | forget => cases h

theorem held_obtain (s : Holders) (name : Text) : (s.obtain name).held = s.held.insert name s.target := by
  rw [obtain, target]
  rcases s.shared with _ | marker <;> rfl

theorem find?_obtain (s : Holders) (name other : Text) :
    (s.obtain name).held.find? other = if name = other then some s.target else s.held.find? other := by
  simp only [held_obtain, Members.find?_insert, eq_comm]

theorem find?_after (s : Holders) (deed : Deed) (name : Text) :
    (s.after deed).held.find? name = if deed.Touches name then s.given deed else s.held.find? name := by
  cases deed with
  | obtain other => exact s.find?_obtain other name
  | read other => exact s.find?_obtain other name
  | build other =>
    change (s.held.insert other ⟨s.next⟩).find? name = if other = name then some ⟨s.next⟩ else _
    simp only [Members.find?_insert, eq_comm]
  | release other =>
    change Members.find? (s.held.filter fun entry => entry.1 ≠ other) name = if other = name then none else _
    simp only [Members.find?_filter_ne, eq_comm]
  | forget => rfl

theorem shared_collect_iff (s : Holders) :
    s.collect.shared = some marker ↔ s.shared = some marker ∧ marker ∈ s.markers := by
  simp only [collect, Option.filter_eq_some_iff, decide_eq_true_eq]

theorem shared_obtain (s : Holders) (name : Text) : (s.obtain name).shared = some s.target := by
  have hheld : s.target ∈ (Members.insert s.held name s.target).map Prod.snd :=
    List.mem_map.mpr ⟨(name, s.target), Members.mem_of_find? (Members.find?_insert_self _ _ _), rfl⟩
  rw [obtain]
  rcases hshared : s.shared with _ | marker
  all_goals
    simp only [target, hshared, Option.getD] at hheld ⊢
    exact (shared_collect_iff _).mpr ⟨rfl, hheld⟩

/-- Whoever obtains a marker has the shared one. -/
theorem shared_after_obtains (h : deed.Obtains name) : (s.after deed).shared = some s.target := by
  cases deed with
  | obtain other => exact s.shared_obtain other
  | read other => exact s.shared_obtain other
  | build | release | forget => cases h

/-- Other deeds leave the shared marker as long as it is held, unless it is forgotten. -/
theorem shared_after_iff (h : ∀ name, ¬ deed.Obtains name) :
    (s.after deed).shared = some marker ↔
      deed ≠ .forget ∧ s.shared = some marker ∧ marker ∈ (s.after deed).markers := by
  cases deed with
  | obtain other => exact absurd rfl (h other)
  | read other => exact absurd rfl (h other)
  | build other | release other =>
    exact ⟨fun hshared => ⟨nofun, (shared_collect_iff _).mp hshared⟩, fun h => (shared_collect_iff _).mpr h.2⟩
  | forget => simp [after, forget]

theorem next_le_after (s : Holders) (deed : Deed) : s.next ≤ (s.after deed).next := by
  cases deed with
  | obtain | read =>
    rw [after, obtain]
    split
    · exact Nat.le_refl _
    · exact Nat.le_succ _
  | build => exact Nat.le_succ _
  | release | forget => exact Nat.le_refl _

theorem next_le_afterAll (s : Holders) (deeds : List Deed) : s.next ≤ (s.afterAll deeds).next := by
  induction deeds generalizing s with
  | nil => exact Nat.le_refl _
  | cons deed deeds ih => exact Nat.le_trans (s.next_le_after deed) (ih _)

theorem target_of_shared (h : s.shared = some marker) : s.target = marker := by
  rw [target, h, Option.getD_some]

theorem target_cases (s : Holders) : s.shared = some s.target ∨ s.shared = none ∧ s.target = ⟨s.next⟩ := by
  rw [target]
  rcases s.shared with _ | marker
  · exact .inr ⟨rfl, rfl⟩
  · exact .inl rfl

theorem next_obtain (h : s.shared = none) (name : Text) : (s.obtain name).next = s.next + 1 := by
  rw [obtain, h]
  rfl

/-- What is given is the shared marker or a new one. -/
theorem given_cases (h : s.given deed = some marker) :
    s.shared = some marker ∨ marker = ⟨s.next⟩ ∧ (s.after deed).next = s.next + 1 := by
  cases deed with
  | obtain name | read name =>
    obtain rfl := Option.some.inj h
    exact s.target_cases.imp_right fun ⟨hnone, hnew⟩ => ⟨hnew, next_obtain hnone name⟩
  | build => exact .inr ⟨(Option.some.inj h).symm, rfl⟩
  | release | forget => cases h

end Step

/-! ### Every state -/

/-- What holds in every state: no name stands twice, all markers were made before, and the shared one is held. -/
structure Sound (s : Holders) : Prop where
  distinct : s.held.names.Nodup
  old : ∀ name marker, s.held.find? name = some marker → marker.serial < s.next
  sharedIsHeld : s.SharedIsHeld

section Sound
variable {s : Holders} {name : Text} {marker : Marker} {deeds : List Deed}

/-- A marker is held where it is found under a name. -/
theorem Sound.mem_markers_iff (h : s.Sound) : marker ∈ s.markers ↔ ∃ name, s.held.find? name = some marker := by
  constructor
  · intro hmarker
    obtain ⟨⟨name, held⟩, hmem, rfl⟩ := List.mem_map.mp hmarker
    exact ⟨name, Members.find?_of_mem h.distinct hmem⟩
  · rintro ⟨name, hfound⟩
    exact List.mem_map.mpr ⟨(name, marker), Members.mem_of_find? hfound, rfl⟩

theorem Sound.exists_holder (h : s.Sound) (hshared : s.shared = some marker) :
    ∃ name, s.held.find? name = some marker :=
  h.mem_markers_iff.mp (h.sharedIsHeld marker hshared)

theorem Sound.shared_lt (h : s.Sound) (hshared : s.shared = some marker) : marker.serial < s.next := by
  obtain ⟨name, hfound⟩ := h.exists_holder hshared
  exact h.old name marker hfound

theorem sound_empty : empty.Sound where
  distinct := List.nodup_nil
  old _ _ h := by cases h
  sharedIsHeld _ h := by cases h

theorem Sound.after (h : s.Sound) (deed : Deed) : (s.after deed).Sound where
  distinct := by
    cases deed with
    | obtain name | read name =>
      rw [Holders.after, held_obtain]
      exact Members.nodup_insert h.distinct _ _
    | build name => exact Members.nodup_insert h.distinct _ _
    | release name => exact h.distinct.sublist (List.filter_sublist.map _)
    | forget => exact h.distinct
  old name marker hfound := by
    rw [find?_after] at hfound
    split at hfound
    · rcases given_cases hfound with hshared | ⟨rfl, hnext⟩
      · exact Nat.lt_of_lt_of_le (h.shared_lt hshared) (s.next_le_after deed)
      · rw [hnext]
        exact Nat.lt_succ_self _
    · exact Nat.lt_of_lt_of_le (h.old name marker hfound) (s.next_le_after deed)
  sharedIsHeld := by
    cases deed with
    | obtain name | read name => exact s.sharedIsHeld_obtain name
    | build name => exact s.sharedIsHeld_build name
    | release name => exact s.sharedIsHeld_release name
    | forget => exact fun _ hshared => by cases hshared

theorem sound_afterAll (deeds : List Deed) : (empty.afterAll deeds).Sound := by
  induction deeds using List.reverseRecOn with
  | nil => exact sound_empty
  | append_singleton deeds deed ih =>
    rw [afterAll_concat]
    exact ih.after deed

/-- A name holds the shared marker. -/
def HoldsShared (s : Holders) (name : Text) : Prop :=
  ∃ marker, s.held.find? name = some marker ∧ s.shared = some marker

theorem Sound.holdsShared_of_obtains {deed : Deed} {other : Text} (h : s.Sound) (hobtains : deed.Obtains other) :
    (s.after deed).HoldsShared name ↔ deed.Obtains name ∨ s.HoldsShared name ∧ ¬ deed.Touches name := by
  by_cases htouches : deed.Touches name
  · refine iff_of_true ⟨s.target, ?_, shared_after_obtains hobtains⟩ (.inl (hobtains.of_touches htouches))
    rw [find?_after, if_pos htouches, hobtains.given_eq]
  · rw [or_iff_right (mt Deed.Obtains.touches htouches), and_iff_left htouches, HoldsShared, HoldsShared]
    refine exists_congr fun marker => ?_
    rw [find?_after, if_neg htouches, shared_after_obtains hobtains]
    refine and_congr_right fun hfound => ⟨fun htarget => ?_, fun hshared => congrArg some (target_of_shared hshared)⟩
    obtain rfl := Option.some.inj htarget
    rcases s.target_cases with hshared | ⟨-, hnew⟩
    · exact hshared
    · have hold := h.old name _ hfound
      rw [hnew] at hold
      exact absurd hold (Nat.lt_irrefl _)

theorem Sound.holdsShared_of_not_obtains {deed : Deed} (h : s.Sound) (hobtains : ∀ other, ¬ deed.Obtains other) :
    (s.after deed).HoldsShared name ↔ s.HoldsShared name ∧ ¬ deed.Touches name ∧ deed ≠ .forget := by
  constructor
  · rintro ⟨marker, hfound, hshared⟩
    obtain ⟨hforget, hkept, -⟩ := (shared_after_iff hobtains).mp hshared
    have htouches : ¬ deed.Touches name := by
      intro htouches
      rw [find?_after, if_pos htouches] at hfound
      cases deed with
      | obtain other | read other => exact hobtains other rfl
      | build other =>
        obtain rfl := Option.some.inj hfound
        exact Nat.lt_irrefl _ (h.shared_lt hkept)
      | release | forget => cases hfound
    rw [find?_after, if_neg htouches] at hfound
    exact ⟨⟨marker, hfound, hkept⟩, htouches, hforget⟩
  · rintro ⟨⟨marker, hfound, hshared⟩, htouches, hforget⟩
    have hfound' : (s.after deed).held.find? name = some marker := by rwa [find?_after, if_neg htouches]
    have hheld := (h.after deed).mem_markers_iff.mpr ⟨name, hfound'⟩
    exact ⟨marker, hfound', (shared_after_iff hobtains).mpr ⟨hforget, hshared, hheld⟩⟩

/-- The names that have obtained the shared marker, and still hold it, are those that hold the shared marker. -/
theorem obtained_iff : Obtained deeds name ↔ (empty.afterAll deeds).HoldsShared name := by
  induction deeds using List.reverseRecOn with
  | nil => exact ⟨fun h => absurd h not_since_nil, fun ⟨_, h, _⟩ => by cases h⟩
  | append_singleton deeds deed ih =>
    have hsound := sound_afterAll deeds
    -- The last deed decides, so the induction takes it off at the back.
    rw [Obtained, since_concat, afterAll_concat]
    change _ ∨ Obtained deeds name ∧ _ ↔ _
    rw [ih]
    by_cases hobtains : ∃ other, deed.Obtains other
    · obtain ⟨other, hobtains⟩ := hobtains
      have hforget : deed ≠ .forget := by
        rintro rfl
        cases hobtains
      rw [hsound.holdsShared_of_obtains hobtains, and_iff_left hforget]
    · have hnone := not_exists.mp hobtains
      rw [hsound.holdsShared_of_not_obtains hnone, or_iff_right (hnone name)]

/-- There is a shared marker exactly as long as a name that has obtained it holds it. -/
theorem isSome_shared_iff : (empty.afterAll deeds).shared.isSome ↔ ∃ name, Obtained deeds name := by
  simp only [obtained_iff, Option.isSome_iff_exists]
  constructor
  · rintro ⟨marker, hshared⟩
    obtain ⟨name, hfound⟩ := (sound_afterAll deeds).exists_holder hshared
    exact ⟨name, marker, hfound, hshared⟩
  · rintro ⟨name, marker, -, hshared⟩
    exact ⟨marker, hshared⟩

end Sound

/-! ### A marker of one's own -/

/-- A marker is held under one name alone, if at all, and is not the shared one. -/
structure Own (s : Holders) (name : Text) (marker : Marker) : Prop where
  old : marker.serial < s.next
  unshared : s.shared ≠ some marker
  only : ∀ other, s.held.find? other = some marker → other = name

section Own
variable {s : Holders} {name : Text} {marker : Marker} {deeds : List Deed} {deed : Deed}

theorem own_build (h : s.Sound) (name : Text) : (s.build name).Own name ⟨s.next⟩ where
  old := Nat.lt_succ_self _
  unshared hshared := by
    have hold := h.shared_lt ((shared_collect_iff _).mp hshared).1
    exact Nat.lt_irrefl _ hold
  only other hfound := by
    by_contra hne
    have hkept := find?_after s (.build name) other
    rw [if_neg (show ¬ Deed.Touches other (.build name) from Ne.symm hne)] at hkept
    exact Nat.lt_irrefl _ (h.old other _ (hkept.symm.trans hfound))

theorem Own.given_ne (h : s.Own name marker) (deed : Deed) : s.given deed ≠ some marker := by
  intro hgiven
  rcases given_cases hgiven with hshared | ⟨rfl, -⟩
  · exact h.unshared hshared
  · exact Nat.lt_irrefl _ h.old

theorem Own.after (h : s.Own name marker) (deed : Deed) : (s.after deed).Own name marker where
  old := Nat.lt_of_lt_of_le h.old (s.next_le_after deed)
  unshared := by
    by_cases hobtains : ∃ other, deed.Obtains other
    · obtain ⟨other, hobtains⟩ := hobtains
      rw [shared_after_obtains hobtains, ← hobtains.given_eq]
      exact h.given_ne deed
    · exact fun hshared => h.unshared ((shared_after_iff (not_exists.mp hobtains)).mp hshared).2.1
  only other hfound := by
    rw [find?_after] at hfound
    split at hfound
    · exact absurd hfound (h.given_ne deed)
    · exact h.only other hfound

theorem Own.afterAll (h : s.Own name marker) (deeds : List Deed) : (s.afterAll deeds).Own name marker := by
  induction deeds generalizing s with
  | nil => exact h
  | cons deed deeds ih => exact ih (h.after deed)

theorem find?_afterAll (h : ∀ deed ∈ deeds, ¬ deed.Touches name) :
    (s.afterAll deeds).held.find? name = s.held.find? name := by
  induction deeds generalizing s with
  | nil => rfl
  | cons deed deeds ih =>
    obtain ⟨hdeed, hdeeds⟩ := List.forall_mem_cons.mp h
    exact (ih hdeeds).trans (by rw [find?_after, if_neg hdeed])

/-- A marker that was built is held under its name alone, and is the shared one at no time, before or after. -/
theorem exists_own_of_built (h : Built deeds name) : ∃ marker, (empty.afterAll deeds).held.find? name = some marker ∧
    (∀ other, (empty.afterAll deeds).held.find? other = some marker → other = name) ∧
    ∀ whole moment, deeds <+: whole → moment <+: whole → (empty.afterAll moment).shared ≠ some marker := by
  obtain ⟨before, _, later, rfl, rfl, hlater⟩ := h
  have hsound := sound_afterAll before
  have hown := own_build hsound name
  have hbuilt : empty.afterAll (before ++ [.build name]) = (empty.afterAll before).build name := afterAll_concat _ _ _
  refine ⟨⟨(empty.afterAll before).next⟩, ?_, ?_, fun whole moment hwhole hmoment => ?_⟩
  · rw [List.append_cons, afterAll_append, find?_afterAll hlater, hbuilt]
    exact Members.find?_insert_self _ _ _
  · rw [List.append_cons, afterAll_append, hbuilt]
    exact (hown.afterAll later).only
  · rw [List.append_cons] at hwhole
    have hstart : before ++ [.build name] <+: whole := (List.prefix_append _ _).trans hwhole
    -- Before the building all shared markers are older; after it no deed makes the marker the shared one.
    rcases List.prefix_or_prefix_of_prefix hmoment hstart with hearly | ⟨more, rfl⟩
    · rcases List.prefix_concat_iff.mp hearly with rfl | ⟨more, rfl⟩
      · rw [hbuilt]
        exact hown.unshared
      · intro hshared
        have hlt := (sound_afterAll moment).shared_lt hshared
        have hle := (empty.afterAll moment).next_le_afterAll more
        rw [← afterAll_append] at hle
        exact Nat.lt_irrefl _ (Nat.lt_of_lt_of_le hlt hle)
    · rw [afterAll_append, hbuilt]
      exact (hown.afterAll more).unshared

end Own

/-- Whatever is done with names and markers: all names that have obtained a marker since the last forgetting, and still
    hold it, hold the shared one; there is a shared one exactly as long as there is such a name; a marker that was built
    is held under its name alone and is never the shared one; and all markers that are ever held are equal, have the
    same hash, count as true, and are one value in a set. -/
theorem one_marker_is_shared (deeds : List Deed) :
    (∀ name name', Obtained deeds name → Obtained deeds name' → ∃ marker,
      (empty.afterAll deeds).held.find? name = some marker ∧ (empty.afterAll deeds).held.find? name' = some marker ∧
      (empty.afterAll deeds).shared = some marker) ∧
    ((empty.afterAll deeds).shared.isSome ↔ ∃ name, Obtained deeds name) ∧
    (∀ name, Built deeds name → ∃ marker, (empty.afterAll deeds).held.find? name = some marker ∧
      (∀ other, (empty.afterAll deeds).held.find? other = some marker → other = name) ∧
      ∀ whole moment, deeds <+: whole → moment <+: whole → (empty.afterAll moment).shared ≠ some marker) ∧
    ∀ moment moment' marker marker', marker ∈ (empty.afterAll moment).markers →
      marker' ∈ (empty.afterAll moment').markers → marker.equals marker'.value ∧
        (∀ ofClass, marker.hash ofClass = marker'.hash ofClass) ∧ marker.value.truthy ∧
        Marker.distinct [marker, marker'] = 1 := by
  refine ⟨fun name name' h h' => ?_, isSome_shared_iff, fun name => exists_own_of_built, fun _ _ _ _ _ _ => ?_⟩
  · obtain ⟨marker, hfound, hshared⟩ := obtained_iff.mp h
    obtain ⟨marker', hfound', hshared'⟩ := obtained_iff.mp h'
    obtain rfl := Option.some.inj (hshared.symm.trans hshared')
    exact ⟨marker, hfound, hfound', hshared⟩
  · exact ⟨Marker.equals_value _ _, fun _ => rfl, rfl, Marker.distinct_cons _ _⟩

/-! One name asks for the shared marker, another one reads a result without an image, and a third one builds. -/

/-- The node of a value without an image. -/
def noImage : Host.Value :=
  .mapping .dict [(.text (.ofString "t"), .text (.ofString "complex"))]

theorem decode_noImage : Wire.decode noImage = .ok (.scalar .marker) := by
  rw [noImage, Wire.decode]
  rfl

/-- Three ways to the marker, under three names. -/
def threeNames : List Deed :=
  [.obtain (.ofString "a"), .build (.ofString "b"), .read (.ofString "c") noImage decode_noImage]

theorem threeNames_share : ∃ shared own, (empty.afterAll threeNames).shared = some shared ∧
    (empty.afterAll threeNames).held.find? (.ofString "a") = some shared ∧
    (empty.afterAll threeNames).held.find? (.ofString "c") = some shared ∧
    (empty.afterAll threeNames).held.find? (.ofString "b") = some own ∧ own ≠ shared := by
  obtain ⟨hobtained, -, hbuilt, -⟩ := one_marker_is_shared threeNames
  have ha : Obtained threeNames (.ofString "a") := ⟨[], _, _, rfl, rfl, List.forall_mem_cons.mpr
    ⟨⟨by decide, nofun⟩, List.forall_mem_singleton.mpr ⟨by decide, nofun⟩⟩⟩
  have hc : Obtained threeNames (.ofString "c") :=
    ⟨[.obtain (.ofString "a"), .build (.ofString "b")], _, [], rfl, rfl, nofun⟩
  have hb : Built threeNames (.ofString "b") := ⟨[.obtain (.ofString "a")], _, _, rfl, rfl, by decide⟩
  obtain ⟨shared, hfound, hfound', hshared⟩ := hobtained _ _ ha hc
  obtain ⟨own, hown, -, hunshared⟩ := hbuilt _ hb
  refine ⟨shared, own, hshared, hfound, hfound', hown, ?_⟩
  rintro rfl
  exact hunshared _ _ List.prefix_rfl List.prefix_rfl hshared

end Holders

end ScriptLink
