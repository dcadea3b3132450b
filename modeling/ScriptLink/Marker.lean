import ScriptLink.Host.Comparison

/-! # Markers

    A script value without an image is represented by a marker. All markers are equal, so it never matters which one
    a caller has; yet there is one shared marker, made on demand and kept only as long as somebody holds it. The
    names under which a caller holds markers, together with the shared one, make up a state on which obtaining,
    building, releasing and forgetting act. Main statement: a shared marker is always held. -/

namespace ScriptLink

/-- A marker; the serial number is its identity. -/
structure Marker where
  serial : Nat
deriving DecidableEq, Inhabited

namespace Marker

/-- A marker as a value; nothing of its identity can be seen there. -/
def value (_ : Marker) : Host.Value := .scalar .marker

/-- Whether a marker is equal to a value: to every marker and to nothing else. -/
def equals (marker : Marker) (other : Host.Value) : Bool :=
  marker.value.equal other

/-- The hash of a marker is that of its class. -/
def hash (ofClass : Int) (_ : Marker) : Int := ofClass

/-- The number of values in a set of these markers. -/
def distinct (markers : List Marker) : Nat :=
  (markers.foldl (fun found marker => Host.assign found marker.value ()) []).length

end Marker

/-- The markers that a caller holds by name, and the shared one. -/
structure Holders where
  held : Members Marker
  shared : Option Marker
  /-- The serial number of the next marker to be made. -/
  next : Nat
deriving Inhabited

namespace Holders

/-- Nothing is held, and there is no shared marker. -/
def empty : Holders := ⟨[], none, 0⟩

/-- The markers that are held under some name. -/
def markers (s : Holders) : List Marker :=
  s.held.map Prod.snd

/-- A shared marker that nobody holds any more is gone. -/
def collect (s : Holders) : Holders :=
  { s with shared := s.shared.filter fun marker => marker ∈ s.markers }

/-- A new marker held under a name, in place of what the name held before. -/
def build (s : Holders) (name : Text) : Holders :=
  collect { s with held := s.held.insert name ⟨s.next⟩, next := s.next + 1 }

/-- The shared marker held under a name; it is made if there is none. The name lets go of what it held before only
    when the marker has been obtained. -/
def obtain (s : Holders) (name : Text) : Holders :=
  match s.shared with
  | some marker => { s with held := s.held.insert name marker }.collect
  | none => collect { held := s.held.insert name ⟨s.next⟩, shared := some ⟨s.next⟩, next := s.next + 1 }

/-- A name without what it held. -/
def release (s : Holders) (name : Text) : Holders :=
  collect { s with held := s.held.filter fun entry => entry.1 ≠ name }

/-- No marker is the shared one any more; those who hold it keep it. -/
def forget (s : Holders) : Holders :=
  { s with shared := none }

-- Texts are compared as the language does it, also where other orders of lists are in scope.
attribute [local instance (10000)] List.instLE in
/-- The names under which a marker is held, in alphabetical order. -/
def namesOf (s : Holders) (marker : Marker) : List Text :=
  ((s.held.filter fun entry => entry.2 = marker).map Prod.fst).mergeSort (· ≤ ·)

/-- The shared marker of a state is held under some name. -/
def SharedIsHeld (s : Holders) : Prop :=
  ∀ marker, s.shared = some marker → marker ∈ s.markers

theorem sharedIsHeld_collect (s : Holders) : s.collect.SharedIsHeld := by
  intro marker h
  simp only [collect, Option.filter_eq_some_iff, decide_eq_true_eq] at h
  exact h.2

theorem sharedIsHeld_build (s : Holders) (name : Text) : (s.build name).SharedIsHeld :=
  sharedIsHeld_collect _

theorem sharedIsHeld_obtain (s : Holders) (name : Text) : (s.obtain name).SharedIsHeld := by
  unfold obtain
  split <;> exact sharedIsHeld_collect _

theorem sharedIsHeld_release (s : Holders) (name : Text) : (s.release name).SharedIsHeld :=
  sharedIsHeld_collect _

end Holders

end ScriptLink
