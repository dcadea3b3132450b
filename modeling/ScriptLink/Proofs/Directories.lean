import Mathlib.Data.List.Induction
import Mathlib.Data.List.Infix
import Mathlib.Data.List.TakeWhile
import ScriptLink.Environment.FileTree

/-! # Making directories

    Every name of a path leads to a place, whatever is there: the stations of the path. To make directories is to put
    one at each station where nothing is, as far as the first file. Two points lead back up, so a file may stand behind
    a place that was missing, and the directory made there stays. Main statements: what comes of making directories
    (`makes_makeDirectories`), and that a path which never leads back up leaves nothing behind where a file is in its
    way (`WellFormed.open_passed`). -/

namespace ScriptLink

namespace Path
variable {path front : Path} {name : Text}

/-- The place to which a name leads from a directory. -/
def follow (place : Path) (name : Text) : Path :=
  if name = up then place.parent else place ++ [name]

/-- The place to which a path leads when all above it are directories. -/
def destination (path : Path) : Path :=
  path.foldl follow []

/-- The places that a path passes, the one to which it leads last. -/
def stations (path : Path) : List Path :=
  path.inits.tail.map destination

theorem destination_concat (front : Path) (name : Text) :
    destination (front ++ [name]) = (destination front).follow name := by
  simp [destination]

theorem destination_concat_of_ne (hup : name ≠ up) : destination (front ++ [name]) = destination front ++ [name] := by
  rw [destination_concat, follow, if_neg hup]

/-- Two names lead from a directory to two places. -/
theorem destination_concat_ne {name' : Text} (hup : name ≠ up) (hup' : name' ≠ up) (hne : name ≠ name') :
    destination (front ++ [name]) ≠ destination (front ++ [name']) := by
  rw [destination_concat_of_ne hup, destination_concat_of_ne hup']
  exact fun h => hne (List.append_singleton_inj.mp h).2

@[simp] theorem stations_nil : stations [] = [] := rfl

@[simp] theorem stations_concat (front : Path) (name : Text) :
    stations (front ++ [name]) = stations front ++ [destination (front ++ [name])] := by
  have hinits : front.inits ≠ [] := by cases front <;> simp
  simp [stations, List.inits_append, List.tail_append_of_ne_nil hinits]

theorem mem_stations {station : Path} :
    station ∈ path.stations ↔ ∃ front ≠ [], front <+: path ∧ destination front = station := by
  induction path using List.reverseRecOn with
  | nil => simp
  | append_singleton path name ih =>
    simp only [stations_concat, List.mem_append, ih, List.mem_singleton, List.prefix_concat_iff]
    constructor
    · rintro (⟨front, hne, hfront, rfl⟩ | rfl)
      · exact ⟨front, hne, .inr hfront, rfl⟩
      · exact ⟨path ++ [name], by simp, .inl rfl, rfl⟩
    · rintro ⟨front, hne, rfl | hfront, rfl⟩
      · exact .inr rfl
      · exact .inl ⟨front, hne, hfront, rfl⟩

theorem destination_mem_stations (hne : path ≠ []) : path.destination ∈ path.stations :=
  mem_stations.mpr ⟨path, hne, List.prefix_rfl, rfl⟩

/-- A path that never leads back up names the place to which it leads. -/
theorem destination_of_descending (hup : up ∉ path) : path.destination = path := by
  induction path using List.reverseRecOn with
  | nil => rfl
  | append_singleton front name ih =>
    rw [List.mem_append, List.mem_singleton, not_or] at hup
    rw [destination_concat_of_ne (Ne.symm hup.2), ih hup.1]

theorem mem_stations_of_descending {station : Path} (hup : up ∉ path) :
    station ∈ path.stations ↔ station ≠ [] ∧ station <+: path := by
  rw [mem_stations]
  constructor
  · rintro ⟨front, hne, hfront, rfl⟩
    rw [destination_of_descending fun h => hup (hfront.subset h)]
    exact ⟨hne, hfront⟩
  · rintro ⟨hne, hstation⟩
    exact ⟨station, hne, hstation, destination_of_descending fun h => hup (hstation.subset h)⟩

theorem parent_concat (h : ¬ AboveAll (front ++ [name])) : parent (front ++ [name]) = front := by
  rw [parent, if_neg h, List.dropLast_concat]

theorem AboveAll.parent (h : AboveAll path) : AboveAll path.parent := by
  rw [Path.parent, if_pos h]
  intro name hname
  rcases List.mem_append.mp hname with hname | hname
  · exact h name hname
  · exact List.mem_singleton.mp hname

end Path

namespace FileTree
variable {t u v : FileTree} {place station : Path} {path front : Path} {places more : List Path} {name : Text}
  {problem : FileProblem}

/-- Whether a file is found at a place. -/
def isFile (t : FileTree) (place : Path) : Bool :=
  match t.lookup? place with
  | some (.file _) => true
  | _ => false

/-- Some station of a path is a file. -/
def Blocked (t : FileTree) (path : Path) : Prop :=
  ∃ station ∈ path.stations, t.isFile station

instance (t : FileTree) (path : Path) : Decidable (t.Blocked path) :=
  inferInstanceAs (Decidable (∃ station ∈ path.stations, t.isFile station))

/-- The stations of a path before the first file. -/
def passed (t : FileTree) (path : Path) : List Path :=
  path.stations.takeWhile fun station => !t.isFile station

/-- A name may stand in a path. -/
def NameFits (name : Text) : Prop :=
  (Utf8.encode name).length ≤ nameLimit

instance (name : Text) : Decidable (NameFits name) :=
  inferInstanceAs (Decidable ((Utf8.encode name).length ≤ nameLimit))

/-- A path can be asked for at all: no null character is in it, and neither a name nor the whole is too long. -/
structure Admits (t : FileTree) (path : Path) : Prop where
  noNull : ∀ name ∈ path, 0 ∉ name
  names : ∀ name ∈ path, NameFits name
  whole : (Utf8.encode (t.nameOf path)).length ≤ pathLimit

/-- There is a directory at each of the places. -/
def Open (t : FileTree) (places : List Path) : Prop :=
  ∀ place ∈ places, t.lookup? place = some .directory

/-- The stations of a path from the first on where no directory is. -/
def ahead (t : FileTree) (path : Path) : List Path :=
  path.stations.dropWhile fun station => t.lookup? station = some .directory

/-- The calls that make what is missing on a path can be nested. -/
def Shallow (t : FileTree) (room : Nat) (path : Path) : Prop :=
  (t.ahead path).length ≤ room + 1

instance (t : FileTree) (room : Nat) (path : Path) : Decidable (t.Shallow room path) :=
  inferInstanceAs (Decidable ((t.ahead path).length ≤ room + 1))

/-- Nothing is wrong with a path but what stands on it. -/
structure Usable (t : FileTree) (room : Nat) (path : Path) : Prop where
  admits : t.Admits path
  shallow : t.Shallow room path

/-- A tree that has become another one by directories at those of the places where nothing was. -/
structure Made (t : FileTree) (places : List Path) (u : FileTree) : Prop where
  root : u.root = t.root
  kept : ∀ place ∉ places, u.lookup? place = t.lookup? place
  made : ∀ place ∈ places, u.lookup? place = (t.lookup? place).or (some .directory)

/-! ### Stations -/

theorem lookup?_of_isFile (h : t.isFile place) : ∃ content, t.lookup? place = some (.file content) := by
  unfold isFile at h
  split at h
  · rename_i content hfound
    exact ⟨content, hfound⟩
  · cases h

theorem isFile_of_open (h : t.lookup? place = some .directory) : t.isFile place = false := by
  rw [isFile, h]

@[simp] theorem lookup?_top : t.lookup? [] = some .directory := by
  simp [lookup?, Path.AboveAll]

theorem open_append : t.Open (places ++ more) ↔ t.Open places ∧ t.Open more := by
  simp only [Open, List.mem_append, or_imp, forall_and]

theorem Open.not_blocked (h : t.Open path.stations) : ¬ t.Blocked path := by
  rintro ⟨station, hstation, hfile⟩
  rw [isFile_of_open (h station hstation)] at hfile
  cases hfile

theorem blocked_concat :
    t.Blocked (front ++ [name]) ↔ t.Blocked front ∨ t.isFile (Path.destination (front ++ [name])) := by
  simp [Blocked, or_and_right, exists_or]

theorem passed_concat_of_blocked (h : t.Blocked front) : t.passed (front ++ [name]) = t.passed front := by
  obtain ⟨station, hstation, hfile⟩ := h
  rw [passed, Path.stations_concat, List.takeWhile_append, if_neg]
  · rfl
  · intro hlength
    have hself := List.IsPrefix.eq_of_length (List.takeWhile_prefix _) hlength
    have := List.takeWhile_eq_self_iff.mp hself station hstation
    simp [hfile] at this

theorem passed_concat_of_file (h : ¬ t.Blocked front) (hfile : t.isFile (Path.destination (front ++ [name]))) :
    t.passed (front ++ [name]) = front.stations := by
  have hfront : ∀ station ∈ front.stations, (!t.isFile station) = true := fun station hstation => by
    simpa using fun hfile => h ⟨station, hstation, hfile⟩
  rw [passed, Path.stations_concat, List.takeWhile_append_of_pos hfront]
  simp [hfile]

theorem ahead_eq_nil : t.ahead path = [] ↔ t.Open path.stations := by
  simp [ahead, Open, List.dropWhile_eq_nil_iff]

theorem ahead_concat (h : ¬ t.Open front.stations) :
    t.ahead (front ++ [name]) = t.ahead front ++ [Path.destination (front ++ [name])] := by
  rw [ahead, Path.stations_concat, List.dropWhile_append, ← ahead, if_neg]
  rw [List.isEmpty_iff, ahead_eq_nil]
  exact h

/-- Where everything above it is there, the last directory at most is missing. -/
theorem length_ahead_concat_le (h : t.Open front.stations) : (t.ahead (front ++ [name])).length ≤ 1 := by
  have hfront : t.ahead front = [] := ahead_eq_nil.mpr h
  rw [ahead, Path.stations_concat, List.dropWhile_append, ← ahead, hfront, List.isEmpty_nil, if_pos rfl]
  exact (List.dropWhile_suffix _).length_le

theorem length_ahead_le (t : FileTree) (path : Path) : (t.ahead path).length ≤ path.length := by
  refine (List.dropWhile_suffix _).length_le.trans (Nat.le_of_eq ?_)
  simp [Path.stations]

/-- As many nested calls as a path has names are enough. -/
theorem shallow_length (t : FileTree) (path : Path) : t.Shallow path.length path :=
  (t.length_ahead_le path).trans (Nat.le_succ _)

/-! ### Directories made -/

namespace Made

theorem refl (h : t.Open places) : t.Made places t where
  root := rfl
  kept _ _ := rfl
  made place hplace := by rw [h place hplace, Option.some_or]

theorem nil (t : FileTree) : t.Made [] t := refl fun _ h => by cases h

theorem trans (h : t.Made places u) (h' : u.Made more v) : t.Made (places ++ more) v where
  root := h'.root.trans h.root
  kept place hplace := by
    rw [List.mem_append, not_or] at hplace
    rw [h'.kept place hplace.2, h.kept place hplace.1]
  made place hplace := by
    by_cases hmore : place ∈ more
    · rw [h'.made place hmore]
      by_cases hplaces : place ∈ places
      · rw [h.made place hplaces, Option.or_assoc, Option.some_or]
      · rw [h.kept place hplaces]
    · rw [h'.kept place hmore, h.made place ((List.mem_append.mp hplace).resolve_right hmore)]

/-- Places where directories were add nothing. -/
theorem of_open (h : t.Made (places ++ more) u) (hopen : t.Open places) : t.Made more u where
  root := h.root
  kept place hmore := by
    by_cases hplaces : place ∈ places
    · rw [h.made place (List.mem_append_left _ hplaces), hopen place hplaces, Option.some_or]
    · exact h.kept place fun hplace => (List.mem_append.mp hplace).elim hplaces hmore
  made place hmore := h.made place (List.mem_append_right _ hmore)

theorem symm (h : t.Made [] u) : u.Made [] t where
  root := h.root.symm
  kept place hplace := (h.kept place hplace).symm
  made := List.forall_mem_nil _

theorem lookup?_of_some (h : t.Made places u) {entry : Entry} (hfound : t.lookup? place = some entry) :
    u.lookup? place = some entry := by
  by_cases hplace : place ∈ places
  · rw [h.made place hplace, hfound, Option.some_or]
  · rw [h.kept place hplace, hfound]

theorem lookup?_of_none (h : t.Made places u) (hplace : place ∈ places) (hnone : t.lookup? place = none) :
    u.lookup? place = some .directory := by
  rw [h.made place hplace, hnone, Option.none_or]

/-- What has changed is one of the places, where nothing was and now a directory is. -/
theorem of_changed (h : t.Made places u) (hchanged : u.lookup? place ≠ t.lookup? place) :
    place ∈ places ∧ t.lookup? place = none ∧ u.lookup? place = some .directory := by
  have hplace : place ∈ places := by
    by_contra hplace
    exact hchanged (h.kept place hplace)
  rcases hfound : t.lookup? place with _ | entry
  · exact ⟨hplace, rfl, h.lookup?_of_none hplace hfound⟩
  · exact absurd ((h.lookup?_of_some hfound).trans hfound.symm) hchanged

theorem isFile (h : t.Made places u) (place : Path) : u.isFile place = t.isFile place := by
  by_cases hchanged : u.lookup? place = t.lookup? place
  · rw [FileTree.isFile, hchanged, FileTree.isFile]
  · obtain ⟨-, hnone, hmade⟩ := h.of_changed hchanged
    rw [FileTree.isFile, hmade, FileTree.isFile, hnone]

theorem blocked_iff (h : t.Made places u) : u.Blocked path ↔ t.Blocked path := by
  simp only [Blocked, h.isFile]

theorem passed (h : t.Made places u) (path : Path) : u.passed path = t.passed path := by
  simp only [FileTree.passed, h.isFile]

theorem admits_iff (h : t.Made places u) : u.Admits path ↔ t.Admits path := by
  have hname : u.nameOf path = t.nameOf path := by rw [nameOf, nameOf, h.root]
  exact ⟨fun ⟨h₁, h₂, h₃⟩ => ⟨h₁, h₂, hname ▸ h₃⟩, fun ⟨h₁, h₂, h₃⟩ => ⟨h₁, h₂, hname ▸ h₃⟩⟩

/-- Directories that were made need no call any more. -/
theorem shallow (h : t.Made places u) {room : Nat} (hshallow : t.Shallow room path) : u.Shallow room path := by
  refine Nat.le_trans ?_ hshallow
  unfold ahead
  induction path.stations with
  | nil => exact Nat.le_refl _
  | cons station stations ih =>
    by_cases hfound : t.lookup? station = some .directory
    · simpa [List.dropWhile_cons, hfound, h.lookup?_of_some hfound] using ih
    · rw [List.dropWhile_cons_of_neg (p := fun station => decide (t.lookup? station = _)) (by simpa using hfound)]
      exact (List.dropWhile_suffix _).length_le

theorem usable (h : t.Made places u) {room : Nat} (husable : t.Usable room path) : u.Usable room path :=
  ⟨h.admits_iff.mpr husable.admits, h.shallow husable.shallow⟩

/-- Where no file stands, there is a directory at each of the places afterwards. -/
theorem opened (h : t.Made path.stations u) (hclear : ¬ t.Blocked path) : u.Open path.stations := by
  intro station hstation
  rcases hfound : t.lookup? station with _ | _ | content
  · exact h.lookup?_of_none hstation hfound
  · exact h.lookup?_of_some hfound
  · exact absurd ⟨station, hstation, by rw [FileTree.isFile, hfound]⟩ hclear

/-- A directory is put where nothing was. -/
theorem put (hnone : t.lookup? place = none) : t.Made [place] (t.put place .directory) := by
  have hold : t.lookup? place ≠ some .directory := by simp [hnone]
  have hbelow := not_aboveAll_of_lookup? hold
  refine ⟨rfl, fun other hother => ?_, fun other hother => ?_⟩
  · rw [lookup?_put hbelow, if_neg (mt List.mem_singleton.mpr hother)]
  · obtain rfl := List.mem_singleton.mp hother
    rw [lookup?_put hbelow, if_pos rfl, hnone, Option.none_or]

end Made

/-! ### Following a path -/

/-- The place to which a path leads, whatever its length. -/
def route (t : FileTree) (path : Path) : Except FileProblem Path :=
  path.foldlM t.step []

theorem place_eq (t : FileTree) (path : Path) : t.place path =
    if path.any fun name => name.contains 0 then .error .nullCharacter
    else if pathLimit < (Utf8.encode (t.nameOf path)).length then .error .nameTooLong else t.route path := rfl

theorem route_concat (t : FileTree) (front : Path) (name : Text) :
    t.route (front ++ [name]) = (t.route front).bind fun place => t.step place name := by
  rw [route, List.foldlM_append]
  change (List.foldlM t.step [] front).bind _ = _
  rw [route]
  cases List.foldlM t.step [] front with
  | error problem => rfl
  | ok place => simp only [Except.bind, List.foldlM_cons, List.foldlM_nil]; cases t.step place name <;> rfl

theorem nameFits_up : NameFits Path.up := by decide

theorem step_of_directory (h : t.lookup? place = some .directory) (name : Text) :
    t.step place name = if NameFits name then .ok (place.follow name) else .error .nameTooLong := by
  rw [step, h]
  by_cases hup : name = Path.up
  · subst hup
    simp [nameFits_up, Path.follow]
  · by_cases hfits : NameFits name
    · simp [hup, hfits, Path.follow, not_lt.mpr hfits]
    · simp [hup, hfits, not_le.mp hfits]

theorem step_cases (t : FileTree) (place : Path) (name : Text) :
    (t.lookup? place = none ∧ t.step place name = .error .missing) ∨
    (t.isFile place ∧ t.step place name = .error .notADirectory) ∨
    (t.lookup? place = some .directory ∧ NameFits name ∧ t.step place name = .ok (place.follow name)) ∨
    (t.lookup? place = some .directory ∧ ¬ NameFits name ∧ t.step place name = .error .nameTooLong) := by
  rcases hfound : t.lookup? place with _ | _ | content
  · exact .inl ⟨rfl, by simp [step, hfound]⟩
  · rw [step_of_directory hfound]
    by_cases hfits : NameFits name
    · exact .inr (.inr (.inl ⟨rfl, hfits, if_pos hfits⟩))
    · exact .inr (.inr (.inr ⟨rfl, hfits, if_neg hfits⟩))
  · exact .inr (.inl ⟨by rw [isFile, hfound], by simp [step, hfound]⟩)

theorem route_concat_ok (h : t.route (front ++ [name]) = .ok place) :
    ∃ above, t.route front = .ok above ∧ t.lookup? above = some .directory ∧ NameFits name ∧
      place = above.follow name := by
  rw [route_concat] at h
  rcases hfront : t.route front with problem | above
  · rw [hfront] at h
    cases h
  rw [hfront] at h
  rcases t.step_cases above name with ⟨-, hs⟩ | ⟨-, hs⟩ | ⟨hdirectory, hfits, hs⟩ | ⟨-, -, hs⟩
    <;> rw [Except.bind, hs] at h <;> cases h
  exact ⟨above, rfl, hdirectory, hfits, rfl⟩

/-- A path leads somewhere only through directories. -/
theorem route_ok (h : t.route path = .ok place) : place = path.destination ∧ (∀ name ∈ path, NameFits name) ∧
    (t.lookup? place = some .directory → t.Open path.stations) := by
  induction path using List.reverseRecOn generalizing place with
  | nil =>
    obtain rfl := Except.ok.inj h
    exact ⟨rfl, by simp, fun _ _ h => by cases h⟩
  | append_singleton front name ih =>
    obtain ⟨above, hfront, hdirectory, hfits, rfl⟩ := route_concat_ok h
    obtain ⟨rfl, hnames, hopen⟩ := ih hfront
    refine ⟨(Path.destination_concat _ _).symm, ?_, fun hfound => ?_⟩
    · simp only [List.mem_append, List.mem_singleton]
      rintro other (hother | rfl)
      · exact hnames other hother
      · exact hfits
    · rw [Path.stations_concat, open_append]
      refine ⟨hopen hdirectory, fun other hother => ?_⟩
      rwa [List.mem_singleton.mp hother, Path.destination_concat]

theorem route_of_open (hopen : t.Open path.stations) (hnames : ∀ name ∈ path, NameFits name) :
    t.route path = .ok path.destination ∧ t.lookup? path.destination = some .directory := by
  induction path using List.reverseRecOn with
  | nil => exact ⟨rfl, lookup?_top⟩
  | append_singleton front name ih =>
    rw [Path.stations_concat, open_append] at hopen
    obtain ⟨hroute, hfound⟩ := ih hopen.1 fun other hother => hnames other (List.mem_append_left _ hother)
    refine ⟨?_, hopen.2 _ List.mem_cons_self⟩
    rw [route_concat, hroute, Except.bind, step_of_directory hfound, if_pos (hnames name (by simp)),
      Path.destination_concat]

/-- A path that leads to a file has directories alone on its way there. -/
theorem blocked_of_route (h : t.route path = .ok place) (hfile : t.isFile place) :
    t.Blocked path ∧ t.Open (t.passed path) := by
  rcases List.eq_nil_or_concat' path with rfl | ⟨front, name, rfl⟩
  · obtain rfl := Except.ok.inj h
    rw [isFile_of_open lookup?_top] at hfile
    cases hfile
  · obtain ⟨above, hfront, hdirectory, -, -⟩ := route_concat_ok h
    have hopen := (route_ok hfront).2.2 hdirectory
    rw [(route_ok h).1] at hfile
    exact ⟨blocked_concat.mpr (.inr hfile), by rwa [passed_concat_of_file hopen.not_blocked hfile]⟩

/-- A path finds its place where it can be asked for and all above it are directories. -/
theorem place_ok_iff : t.place path = .ok place ↔ t.Admits path ∧ t.route path = .ok place := by
  rw [place_eq]
  constructor
  · intro h
    split at h
    · cases h
    rename_i hnull
    split at h
    · cases h
    rename_i hlong
    refine ⟨⟨fun name hname hzero => hnull ?_, (route_ok h).2.1, not_lt.mp hlong⟩, h⟩
    exact List.any_eq_true.mpr ⟨name, hname, by simpa using hzero⟩
  · rintro ⟨hadmits, hroute⟩
    rw [if_neg, if_neg (not_lt.mpr hadmits.whole), hroute]
    intro hnull
    obtain ⟨name, hname, hzero⟩ := List.any_eq_true.mp hnull
    exact hadmits.noNull name hname (by simpa using hzero)

theorem place_error (h : t.place path = .error problem) :
    (problem = .nullCharacter ∨ problem = .nameTooLong) ∧ ¬ t.Admits path ∨ t.route path = .error problem := by
  rw [place_eq] at h
  split at h
  · rename_i hnull
    cases h
    obtain ⟨name, hname, hzero⟩ := List.any_eq_true.mp hnull
    exact .inl ⟨.inl rfl, fun h => h.noNull name hname (by simpa using hzero)⟩
  · split at h
    · rename_i hlong
      cases h
      exact .inl ⟨.inr rfl, fun h => absurd h.whole (not_le.mpr hlong)⟩
    · exact .inr h

theorem place_concat_iff : t.place (front ++ [name]) = .ok place ↔
    t.Admits (front ++ [name]) ∧ t.Open front.stations ∧ place = Path.destination (front ++ [name]) := by
  rw [place_ok_iff]
  constructor
  · rintro ⟨hadmits, hroute⟩
    obtain ⟨above, hfront, hdirectory, -, -⟩ := route_concat_ok hroute
    exact ⟨hadmits, (route_ok hfront).2.2 hdirectory, (route_ok hroute).1⟩
  · rintro ⟨hadmits, hopen, rfl⟩
    refine ⟨hadmits, ?_⟩
    have hnames (other : Text) (hother : other ∈ front) := hadmits.names other (List.mem_append_left _ hother)
    obtain ⟨hroute, hfound⟩ := route_of_open hopen hnames
    rw [route_concat, hroute, Except.bind, step_of_directory hfound, if_pos (hadmits.names name (by simp)),
      Path.destination_concat]

/-- Why a path leads nowhere. -/
theorem route_error (h : t.route path = .error problem) :
    problem = .missing ∨ (problem = .notADirectory ∧ t.Blocked path ∧ t.Open (t.passed path)) ∨
      (problem = .nameTooLong ∧ ∃ name ∈ path, ¬ NameFits name) := by
  induction path using List.reverseRecOn with
  | nil => cases h
  | append_singleton front name ih =>
    rw [route_concat] at h
    -- Whatever a shorter path meets, the longer one meets as well.
    have hkept : t.Blocked front ∧ t.Open (t.passed front) →
        t.Blocked (front ++ [name]) ∧ t.Open (t.passed (front ++ [name])) := by
      rintro ⟨hblocked, hopen⟩
      exact ⟨blocked_concat.mpr (.inl hblocked), by rwa [passed_concat_of_blocked hblocked]⟩
    rcases hfront : t.route front with problem | above
    · rw [hfront] at h
      obtain rfl := Except.error.inj h
      rcases ih hfront with hmissing | ⟨hproblem, hfile⟩ | ⟨hproblem, long, hlong, hfits⟩
      · exact .inl hmissing
      · exact .inr (.inl ⟨hproblem, hkept hfile⟩)
      · exact .inr (.inr ⟨hproblem, long, List.mem_append_left _ hlong, hfits⟩)
    · rw [hfront] at h
      rcases t.step_cases above name with ⟨-, hs⟩ | ⟨hfile, hs⟩ | ⟨-, -, hs⟩ | ⟨-, hfits, hs⟩
        <;> rw [Except.bind, hs] at h <;> cases h
      · exact .inl rfl
      · exact .inr (.inl ⟨rfl, hkept (blocked_of_route hfront hfile)⟩)
      · exact .inr (.inr ⟨rfl, name, by simp, hfits⟩)

/-- A path is missing only where some place on its way is. -/
theorem not_open_of_missing (h : t.route (front ++ [name]) = .error .missing) : ¬ t.Open front.stations := by
  intro hopen
  induction front using List.reverseRecOn generalizing name with
  | nil =>
    rw [route_concat, show t.route [] = .ok [] from rfl, Except.bind, step_of_directory lookup?_top] at h
    split at h <;> cases h
  | append_singleton front last ih =>
    rw [route_concat] at h
    rcases hfront : t.route (front ++ [last]) with problem | place
    · rw [hfront] at h
      obtain rfl := Except.error.inj h
      rw [Path.stations_concat, open_append] at hopen
      exact ih hfront hopen.1
    · have hfound := hopen _ (Path.destination_mem_stations (by simp))
      rw [← (route_ok hfront).1] at hfound
      rw [hfront, Except.bind, step_of_directory hfound] at h
      split at h <;> cases h

/-! ### Making one directory -/

theorem nameOf_concat (t : FileTree) (front : Path) (name : Text) :
    t.nameOf (front ++ [name]) = t.nameOf front ++ [0x2F] ++ name := by
  have htext : ∀ (first : Text) (path : Path), Path.text (first :: (path ++ [name])) =
      Path.text (first :: path) ++ [0x2F] ++ name := by
    intro first path
    induction path generalizing first with
    | nil => simp [Path.text, Text.intercalate, List.intercalate]
    | cons second path ih =>
      have hnext := ih second
      simp only [Path.text, Text.intercalate, List.cons_append, List.intercalate_cons_cons] at hnext ⊢
      rw [hnext]
      simp
  exact htext t.root front

theorem length_nameOf_concat (t : FileTree) (front : Path) (name : Text) :
    (Utf8.encode (t.nameOf (front ++ [name]))).length =
      (Utf8.encode (t.nameOf front)).length + 1 + (Utf8.encode name).length := by
  have hslash : Utf8.encode [0x2F] = [0x2F] := by decide
  rw [Utf8.encode] at hslash
  rw [nameOf_concat, Utf8.encode, List.flatMap_append, List.flatMap_append, hslash, List.length_append,
    List.length_append]
  rfl

theorem Admits.of_concat (h : t.Admits (front ++ [name])) : t.Admits front where
  noNull other hother := h.noNull other (List.mem_append_left _ hother)
  names other hother := h.names other (List.mem_append_left _ hother)
  whole := by
    have hwhole := h.whole
    rw [length_nameOf_concat] at hwhole
    omega

theorem Admits.concat (h : t.Admits front) (hnull : 0 ∉ name) (hfits : NameFits name)
    (hwhole : (Utf8.encode (t.nameOf front)).length + 1 + (Utf8.encode name).length ≤ pathLimit) :
    t.Admits (front ++ [name]) where
  noNull other hother := by
    rcases List.mem_append.mp hother with hother | hother
    · exact h.noNull other hother
    · exact List.mem_singleton.mp hother ▸ hnull
  names other hother := by
    rcases List.mem_append.mp hother with hother | hother
    · exact h.names other hother
    · exact List.mem_singleton.mp hother ▸ hfits
  whole := by rwa [length_nameOf_concat]

/-- What comes of asking for one directory. -/
inductive MakesOne (t : FileTree) (front : Path) (name : Text) : Except FileProblem FileTree → Prop
  | made {u : FileTree} (admits : t.Admits (front ++ [name])) (above : t.Open front.stations)
      (clear : ¬ t.Blocked (front ++ [name])) (made : t.Made (Path.stations (front ++ [name])) u) :
      MakesOne t front name (.ok u)
  | missing (above : ¬ t.Open front.stations) :
      MakesOne t front name (.error .missing)
  | blocked {problem : FileProblem} (obstructs : problem = .exists ∨ problem = .notADirectory)
      (blocked : t.Blocked (front ++ [name])) (opened : t.Open (t.passed (front ++ [name]))) :
      MakesOne t front name (.error problem)
  | refused {problem : FileProblem} (refuses : problem = .nullCharacter ∨ problem = .nameTooLong)
      (admits : ¬ t.Admits (front ++ [name])) : MakesOne t front name (.error problem)

theorem makesOne_makeDirectory (t : FileTree) (front : Path) (name : Text) :
    t.MakesOne front name (t.makeDirectory (front ++ [name])) := by
  rw [makeDirectory]
  rcases hplace : t.place (front ++ [name]) with problem | place
  · rcases place_error hplace with ⟨hrefuses, hadmits⟩ | hroute
    · exact .refused hrefuses hadmits
    rcases route_error hroute with rfl | ⟨rfl, hblocked, hopen⟩ | ⟨rfl, long, hmem, hfits⟩
    · exact .missing (not_open_of_missing hroute)
    · exact .blocked (.inr rfl) hblocked hopen
    · exact .refused (.inr rfl) fun h => hfits (h.names long hmem)
  · obtain ⟨hadmits, habove, rfl⟩ := place_concat_iff.mp hplace
    rcases hfound : t.lookup? (Path.destination (front ++ [name])) with _ | _ | content
    all_goals simp only [bind, Except.bind, hfound]
    · refine .made hadmits habove ?_ ?_
      · rw [blocked_concat, isFile, hfound]
        simpa using habove.not_blocked
      · rw [Path.stations_concat]
        exact (Made.refl habove).trans (.put hfound)
    · have hopen : t.Open (Path.stations (front ++ [name])) := by
        rw [Path.stations_concat, open_append]
        exact ⟨habove, fun other hother => List.mem_singleton.mp hother ▸ hfound⟩
      exact .made hadmits habove hopen.not_blocked (.refl hopen)
    · have hfile : t.isFile (Path.destination (front ++ [name])) := by rw [isFile, hfound]
      refine .blocked (.inl rfl) (blocked_concat.mpr (.inr hfile)) ?_
      rwa [passed_concat_of_file habove.not_blocked hfile]

/-! ### Making all directories of a path -/

/-- What comes of making the directories of a path: they are made as far as the first file, if the path can be asked
    for, and none is made where too many calls would be nested. -/
inductive Makes (t : FileTree) (room : Nat) (path : Path) : FileTree × Option FileFault → Prop
  | made {u : FileTree} (usable : t.Usable room path) (clear : ¬ t.Blocked path) (made : t.Made path.stations u) :
      Makes t room path (u, none)
  | blocked {u : FileTree} {fault : FileFault} (obstructs : fault.problem = .exists ∨ fault.problem = .notADirectory)
      (blocked : t.Blocked path) (made : t.Made (t.passed path) u) : Makes t room path (u, some fault)
  | refused {u : FileTree} {fault : FileFault} {places : List Path}
      (refuses : fault.problem = .nullCharacter ∨ fault.problem = .nameTooLong) (admits : ¬ t.Admits path)
      (within : places ⊆ path.stations) (made : t.Made places u) : Makes t room path (u, some fault)
  | nested {fault : FileFault} (nests : fault.problem = .nestedTooDeep) (deep : ¬ t.Shallow room path) :
      Makes t room path (t, some fault)

theorem Made.congr (h : t.Made places u) (hsame : ∀ place, place ∈ places ↔ place ∈ more) : t.Made more u where
  root := h.root
  kept place hplace := h.kept place (mt (hsame place).mp hplace)
  made place hplace := h.made place ((hsame place).mpr hplace)

/-- The last directory of a path is asked for once more when those above it have been made. -/
theorem makes_of_above {room : Nat} (hshallow : t.Shallow room (front ++ [name])) (hclear : ¬ t.Blocked front)
    (hmade : t.Made front.stations u) : t.Makes room (front ++ [name]) (match u.makeDirectory (front ++ [name]) with
      | .ok v => (v, none)
      | .error problem => (u, some (u.fault problem (front ++ [name])))) := by
  have hone := u.makesOne_makeDirectory front name
  generalize u.makeDirectory (front ++ [name]) = result at hone ⊢
  cases hone with
  | made hadmits' _ hclear' hmade' =>
    refine .made ⟨hmade.admits_iff.mp hadmits', hshallow⟩ (fun h => hclear' (hmade.blocked_iff.mpr h))
      ((hmade.trans hmade').congr fun place => ?_)
    simp only [Path.stations_concat, List.mem_append]
    tauto
  | missing habove => exact absurd (hmade.opened hclear) habove
  | blocked hobstructs hblocked =>
    have hblocked' := hmade.blocked_iff.mp hblocked
    refine .blocked hobstructs hblocked' ?_
    rwa [passed_concat_of_file hclear ((blocked_concat.mp hblocked').resolve_left hclear)]
  | refused hrefuses hadmits' =>
    refine .refused hrefuses (fun h => hadmits' (hmade.admits_iff.mpr h)) ?_ hmade
    rw [Path.stations_concat]
    exact List.subset_append_left _ _

theorem makes_makeDirectoriesTo (t : FileTree) (room : Nat) {names : List Text} (hne : names ≠ []) :
    t.Makes room names.reverse (t.makeDirectoriesTo room names) := by
  induction names generalizing room with
  | nil => exact absurd rfl hne
  | cons name above ih =>
    have hone := t.makesOne_makeDirectory above.reverse name
    unfold makeDirectoriesTo
    dsimp only
    rw [List.reverse_cons]
    generalize t.makeDirectory (above.reverse ++ [name]) = result at hone ⊢
    cases hone with
    | made hadmits habove hclear hmade =>
      exact .made ⟨hadmits, (length_ahead_concat_le habove).trans (Nat.le_add_left 1 room)⟩ hclear hmade
    | blocked hobstructs hblocked hopen =>
      rcases hobstructs with rfl | rfl
      · exact .blocked (.inl rfl) hblocked (.refl hopen)
      · exact .blocked (.inr rfl) hblocked (.refl hopen)
    | refused hrefuses hadmits =>
      rcases hrefuses with rfl | rfl
      · exact .refused (.inl rfl) hadmits (List.nil_subset _) (.nil t)
      · exact .refused (.inr rfl) hadmits (List.nil_subset _) (.nil t)
    | missing habove =>
      have hne : above ≠ [] := by
        rintro rfl
        exact habove fun _ h => by cases h
      -- The call for the last name comes on top of those for the names above it.
      have hlength : (t.ahead (above.reverse ++ [name])).length = (t.ahead above.reverse).length + 1 := by
        rw [ahead_concat habove, List.length_append, List.length_singleton]
      rcases room with _ | room
      · refine .nested rfl fun hshallow => habove (ahead_eq_nil.mp (List.length_eq_zero_iff.mp ?_))
        rw [Shallow, hlength] at hshallow
        omega
      have hmakes := ih room hne
      dsimp only
      generalize t.makeDirectoriesTo room above = made at hmakes ⊢
      cases hmakes with
      | made husable hclear hmade =>
        refine makes_of_above ?_ hclear hmade
        rw [Shallow, hlength]
        exact Nat.succ_le_succ husable.shallow
      | blocked hobstructs hblocked hmade =>
        refine .blocked hobstructs (blocked_concat.mpr (.inl hblocked)) ?_
        rwa [passed_concat_of_blocked hblocked]
      | refused hrefuses hadmits hwithin hmade =>
        refine .refused hrefuses (fun h => hadmits h.of_concat) (List.Subset.trans hwithin ?_) hmade
        rw [Path.stations_concat]
        exact List.subset_append_left _ _
      | nested hnests hdeep =>
        refine .nested hnests fun hshallow => hdeep ?_
        rw [Shallow, hlength] at hshallow
        exact Nat.le_of_succ_le_succ hshallow

theorem makes_makeDirectories (t : FileTree) (room : Nat) {path : Path} (hne : path ≠ []) :
    t.Makes room path (t.makeDirectories room path) := by
  have hmakes := t.makes_makeDirectoriesTo room (List.reverse_ne_nil_iff.mpr hne)
  rwa [List.reverse_reverse] at hmakes

/-- With no file in the way all directories of a path are made. -/
theorem Makes.made_stations {room : Nat} {result : FileTree × Option FileFault} (h : t.Makes room path result)
    (hadmits : t.Admits path) (hclear : ¬ t.Blocked path) (hshallow : t.Shallow room path) :
    t.Made path.stations result.1 := by
  cases h with
  | nested _ deep => exact absurd hshallow deep
  | made _ _ made => exact made
  | blocked _ blocked => exact absurd blocked hclear
  | refused _ refused => exact absurd hadmits refused

/-! ### Trees where everything lies in a directory -/

/-- What is found anywhere lies in a directory. -/
def WellFormed (t : FileTree) : Prop :=
  ∀ place, t.lookup? place ≠ none → t.lookup? place.parent = some .directory

theorem wellFormed_empty (root : Text) : WellFormed ⟨root, []⟩ := by
  intro place hfound
  have habove : place.AboveAll := by
    by_contra h
    simp [lookup?, h] at hfound
  rw [lookup?, if_pos habove.parent]

/-- An entry may be put in a directory, in place of a file or of nothing. -/
theorem WellFormed.put (h : t.WellFormed) (hold : t.lookup? place ≠ some .directory)
    (hparent : t.lookup? place.parent = some .directory) (entry : Entry) : (t.put place entry).WellFormed := by
  intro other hother
  have hne : other.parent ≠ place := by
    intro hsame
    by_cases hself : other = place
    · rw [← hself, hsame] at hparent
      exact hold hparent
    · rw [lookup?_put (not_aboveAll_of_lookup? hold), if_neg hself] at hother
      exact hold (hsame ▸ h other hother)
  rw [lookup?_put (not_aboveAll_of_lookup? hold), if_neg hne]
  by_cases hself : other = place
  · exact hself ▸ hparent
  · rw [lookup?_put (not_aboveAll_of_lookup? hold), if_neg hself] at hother
    exact h other hother

/-- Where a path leads, there is a directory to put something in. -/
theorem WellFormed.parent_of_route (h : t.WellFormed) (hroute : t.route path = .ok place)
    (hold : t.lookup? place ≠ some .directory) : t.lookup? place.parent = some .directory := by
  rcases List.eq_nil_or_concat' path with rfl | ⟨front, name, rfl⟩
  · obtain rfl := Except.ok.inj hroute
    exact absurd lookup?_top hold
  · obtain ⟨above, -, hdirectory, -, rfl⟩ := route_concat_ok hroute
    by_cases hup : name = Path.up
    · rw [Path.follow, if_pos hup] at hold
      exact absurd (h above (by simp [hdirectory])) hold
    · rw [Path.follow, if_neg hup] at hold ⊢
      rwa [Path.parent_concat (not_aboveAll_of_lookup? hold)]

theorem WellFormed.makeDirectory (h : t.WellFormed) (hmade : t.makeDirectory path = .ok u) : u.WellFormed := by
  rw [FileTree.makeDirectory] at hmade
  rcases hplace : t.place path with problem | place
  · simp [hplace, bind, Except.bind] at hmade
  · simp only [hplace, bind, Except.bind] at hmade
    split at hmade
    · cases hmade
      exact h
    · cases hmade
    · rename_i hnone
      cases hmade
      have hold : t.lookup? place ≠ some .directory := by simp [hnone]
      exact h.put hold (h.parent_of_route (place_ok_iff.mp hplace).2 hold) _

theorem WellFormed.makeDirectoriesTo (h : t.WellFormed) (room : Nat) (names : List Text) :
    (t.makeDirectoriesTo room names).1.WellFormed := by
  induction names generalizing room with
  | nil => exact h
  | cons name above ih =>
    unfold FileTree.makeDirectoriesTo
    dsimp only
    split
    · rename_i u hmade
      exact h.makeDirectory hmade
    · cases room with
      | zero => exact h
      | succ room =>
        have habove := ih room
        dsimp only
        split
        · rename_i u fault hu
          rwa [hu] at habove
        · rename_i u hu
          rw [hu] at habove
          split
          · rename_i v hmade
            exact habove.makeDirectory hmade
          · exact habove
    · exact h

theorem WellFormed.makeDirectories (h : t.WellFormed) (room : Nat) (path : Path) :
    (t.makeDirectories room path).1.WellFormed :=
  h.makeDirectoriesTo room _

theorem WellFormed.write (h : t.WellFormed) {content : List UInt8} (hwritten : t.write path content = .ok u) :
    u.WellFormed := by
  rw [FileTree.write] at hwritten
  rcases hplace : t.place path with problem | place
  · simp [hplace] at hwritten
  · simp only [hplace] at hwritten
    split at hwritten
    · cases hwritten
    · rename_i hold
      cases hwritten
      exact h.put hold (h.parent_of_route (place_ok_iff.mp hplace).2 hold) _

/-- What is left is found where it was, and nothing is found below the place that is gone. -/
theorem lookup?_withoutBelow {other : Path} (gone : Path) (hother : ¬ other.AboveAll) :
    lookup? { t with entries := t.entries.filter fun entry => !gone.isPrefixOf entry.1 } other =
      if gone <+: other then none else t.lookup? other := by
  simp only [lookup?, if_neg hother, List.find?_filter]
  split
  case isTrue hgone =>
    rw [Option.map_eq_none_iff, List.find?_eq_none]
    rintro entry -
    by_cases heq : entry.1 = other
    · simp [heq, List.isPrefixOf_iff_prefix.mpr hgone]
    · simp [heq]
  case isFalse hkept =>
    refine congrArg _ (congrArg (t.entries.find? ·) (funext fun entry => ?_))
    by_cases heq : entry.1 = other
    · simp [heq, Bool.eq_false_iff.mpr (mt List.isPrefixOf_iff_prefix.mp hkept)]
    · simp [heq]

theorem WellFormed.remove (h : t.WellFormed) (path : Path) : (t.remove path).WellFormed := by
  rw [FileTree.remove]
  split
  case h_2 => exact h
  case h_1 gone _ =>
    intro other hfound
    by_cases habove : other.parent.AboveAll
    · rw [lookup?, if_pos habove]
    have hother : ¬ other.AboveAll := fun h => habove h.parent
    rw [lookup?_withoutBelow gone hother] at hfound
    split at hfound
    case isTrue => exact absurd rfl hfound
    case isFalse hkept =>
      -- The parent is still there: it is below nothing that its entry is not below.
      rw [lookup?_withoutBelow gone habove, if_neg, h other hfound]
      intro hgone
      rw [Path.parent, if_neg hother] at hgone
      exact hkept (hgone.trans (List.dropLast_prefix _))

/-- What lies under a name lies in a directory. -/
theorem WellFormed.above (h : t.WellFormed) (hup : name ≠ Path.up) (hfound : t.lookup? (front ++ [name]) ≠ none) :
    t.lookup? front = some .directory := by
  have hbelow : ¬ Path.AboveAll (front ++ [name]) := fun habove => hup (habove name (by simp))
  rw [← Path.parent_concat hbelow]
  exact h _ hfound

/-- A directory is reached by its names through directories. -/
theorem WellFormed.open_stations (h : t.WellFormed) (hup : Path.up ∉ path) (hfound : t.lookup? path = some .directory) :
    t.Open path.stations := by
  induction path using List.reverseRecOn with
  | nil => exact fun _ h => by cases h
  | append_singleton front name ih =>
    rw [Path.stations_concat, Path.destination_of_descending hup, open_append]
    rw [List.mem_append, List.mem_singleton, not_or] at hup
    refine ⟨ih hup.1 (h.above (Ne.symm hup.2) (by simp [hfound])), fun other hother => ?_⟩
    rwa [List.mem_singleton.mp hother]

/-- A path that never leads back up misses nothing before the file in its way. -/
theorem WellFormed.open_passed (h : t.WellFormed) (hup : Path.up ∉ path) (hblocked : t.Blocked path) :
    t.Open (t.passed path) := by
  induction path using List.reverseRecOn with
  | nil => exact fun _ h => by cases h
  | append_singleton front name ih =>
    have hnames := hup
    rw [List.mem_append, List.mem_singleton, not_or] at hnames
    by_cases hfront : t.Blocked front
    · rw [passed_concat_of_blocked hfront]
      exact ih hnames.1 hfront
    · have hfile := (blocked_concat.mp hblocked).resolve_left hfront
      rw [passed_concat_of_file hfront hfile]
      rw [Path.destination_of_descending hup] at hfile
      obtain ⟨content, hfound⟩ := lookup?_of_isFile hfile
      exact h.open_stations hnames.1 (h.above (Ne.symm hnames.2) (by simp [hfound]))

end FileTree
end ScriptLink
