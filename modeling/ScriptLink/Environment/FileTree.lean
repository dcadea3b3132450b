import ScriptLink.Error.System
import ScriptLink.Text.Utf8

/-! # Trees of files

    A tree is a list of places below a root, each with a directory or a file. A path is followed name by name; two
    points lead back up, so that every name before the last has to be that of a directory, and one place may have many
    paths. What lies above the root is known only to consist of directories. Directories are made with all that is
    missing above them, and what was made stays even when a later one cannot be; where too many are missing, none is
    made. A file is written only into a directory that exists. Main statements: making directories changes no entry that was there, and writing a file
    changes that file alone. -/

namespace ScriptLink

/-- The names from the root to a file or a directory. -/
abbrev Path := List Text

namespace Path

/-- The name that leads back up. -/
def up : Text := .ofString ".."

/-- The names between slashes; empty ones and single points mean nothing. -/
def ofText (t : Text) : Path :=
  let (names, last) := t.foldr (fun c (names, name) => if c = 0x2F then (name :: names, []) else (names, c :: name))
    (([], []) : List Text × Text)
  (last :: names).filter fun name => name ≠ [] ∧ name ≠ [0x2E]

/-- The names with slashes between them. -/
def text (path : Path) : Text :=
  Text.intercalate [0x2F] path

/-- Whether a place lies at the root or above it. -/
def AboveAll (place : Path) : Prop :=
  ∀ name ∈ place, name = up

instance (place : Path) : Decidable place.AboveAll := inferInstanceAs (Decidable (∀ name ∈ place, name = up))

/-- The place of the directory in which a place lies. -/
def parent (place : Path) : Path :=
  if place.AboveAll then place ++ [up] else place.dropLast

end Path

/-- What is found at a place. -/
inductive Entry where
  | directory
  | file (content : List UInt8)
deriving DecidableEq

/-- A tree of files. -/
structure FileTree where
  /-- How messages call the root. -/
  root : Text
  entries : List (Path × Entry)

namespace FileTree

/-- The number of bytes that a name may have. -/
def nameLimit : Nat := 255

/-- The number of bytes that a whole path may have. -/
def pathLimit : Nat := 4095

/-- What is found at a place, if anything; at the root and above it are directories. -/
def lookup? (t : FileTree) (place : Path) : Option Entry :=
  if place.AboveAll then some .directory else (t.entries.find? fun entry => entry.1 = place).map Prod.snd

/-- The tree with an entry at a place, instead of the one that was there. -/
def put (t : FileTree) (place : Path) (entry : Entry) : FileTree :=
  { t with entries := (place, entry) :: t.entries.filter fun old => old.1 ≠ place }

/-- How messages call a path. -/
def nameOf (t : FileTree) (path : Path) : Text :=
  Path.text (t.root :: path)

/-- The fault of a path. -/
def fault (t : FileTree) (problem : FileProblem) (path : Path) : FileFault :=
  ⟨problem, t.nameOf path⟩

/-- The place to which a name leads from another place. -/
def step (t : FileTree) (place : Path) (name : Text) : Except FileProblem Path :=
  match t.lookup? place with
  | none => .error .missing
  | some (.file _) => .error .notADirectory
  | some .directory =>
    if name = Path.up then .ok place.parent
    else if nameLimit < (Utf8.encode name).length then .error .nameTooLong
    else .ok (place ++ [name])

/-- The place to which a path leads; there need not be anything yet. -/
def place (t : FileTree) (path : Path) : Except FileProblem Path :=
  if path.any fun name => name.contains 0 then .error .nullCharacter
  else if pathLimit < (Utf8.encode (t.nameOf path)).length then .error .nameTooLong
  else path.foldlM t.step []

/-- What a path leads to. -/
def find (t : FileTree) (path : Path) : Except FileProblem Entry := do
  match t.lookup? (← t.place path) with
  | some entry => return entry
  | none => throw .missing

/-- The tree in which a path leads to a directory; all above it has to be there. -/
def makeDirectory (t : FileTree) (path : Path) : Except FileProblem FileTree := do
  let place ← t.place path
  match t.lookup? place with
  | some .directory => return t
  | some (.file _) => throw .exists
  | none => return t.put place .directory

/-- Directories made from the root down to a path that is given in reverse. The one above is asked for within the call
    that misses it, and no more than `room` calls may be nested in that way. -/
def makeDirectoriesTo (t : FileTree) : (room : Nat) → List Text → FileTree × Option FileFault
  | _, [] => (t, none)
  | room, name :: above =>
    let path := (name :: above).reverse
    match t.makeDirectory path with
    | .ok t => (t, none)
    | .error .missing =>
      match room with
      | 0 => (t, some (t.fault .nestedTooDeep path))
      | room + 1 =>
        match t.makeDirectoriesTo room above with
        | (t, some fault) => (t, some fault)
        | (t, none) =>
          match t.makeDirectory path with
          | .ok t => (t, none)
          | .error problem => (t, some (t.fault problem path))
    | .error problem => (t, some (t.fault problem path))
termination_by structural _ names => names

/-- The tree with a directory under a path and with all that was missing above it, as far as they can be made. -/
def makeDirectories (t : FileTree) (room : Nat) (path : Path) : FileTree × Option FileFault :=
  t.makeDirectoriesTo room path.reverse

/-- The tree with a file of this content under a path. -/
def write (t : FileTree) (path : Path) (content : List UInt8) : Except FileFault FileTree :=
  match t.place path with
  | .error problem => .error (t.fault problem path)
  | .ok place =>
    match t.lookup? place with
    | some .directory => .error (t.fault .isADirectory path)
    | _ => .ok (t.put place (.file content))

/-- The content of a file. -/
def read (t : FileTree) (path : Path) : Except FileFault (List UInt8) :=
  match t.find path with
  | .ok (.file content) => .ok content
  | .ok .directory => .error (t.fault .isADirectory path)
  | .error problem => .error (t.fault problem path)

/-- The tree without what a path leads to and all below it. -/
def remove (t : FileTree) (path : Path) : FileTree :=
  match t.place path with
  | .ok place => { t with entries := t.entries.filter fun entry => !place.isPrefixOf entry.1 }
  | .error _ => t

/-- All places below the root, directories with a slash at the end. -/
def listing (t : FileTree) : List Text :=
  (t.entries.filter fun entry => entry.1.head? ≠ some Path.up).map fun (place, entry) =>
    match entry with
    | .directory => Path.text place ++ [0x2F]
    | .file _ => Path.text place

theorem lookup?_put {t : FileTree} {place : Path} (h : ¬ place.AboveAll) (other : Path) (entry : Entry) :
    (t.put place entry).lookup? other = if other = place then some entry else t.lookup? other := by
  unfold lookup? put
  by_cases hr : other.AboveAll
  · have ho : other ≠ place := by
      rintro rfl
      exact h hr
    simp [hr, ho]
  · by_cases ho : other = place
    · simp [ho, h]
    · have hne : ∀ old : Path × Entry, (old.1 ≠ place ∧ old.1 = other) ↔ old.1 = other := by
        intro old
        constructor
        · exact And.right
        · intro e
          exact ⟨by rw [e]; exact ho, e⟩
      simp [hr, ho, Ne.symm ho, List.find?_filter, hne]

/-- At the root and above it there is always something. -/
theorem not_aboveAll_of_lookup? {t : FileTree} {place : Path} (h : t.lookup? place ≠ some .directory) :
    ¬ place.AboveAll := by
  intro ha
  exact h (by simp [lookup?, ha])

/-- Making a directory changes no entry that was there. -/
theorem lookup?_makeDirectory {t u : FileTree} {path other : Path} {entry : Entry}
    (hm : t.makeDirectory path = .ok u) (h : t.lookup? other = some entry) : u.lookup? other = some entry := by
  unfold makeDirectory at hm
  cases hp : t.place path with
  | error problem => simp [hp, bind, Except.bind] at hm
  | ok place =>
    simp only [hp, bind, Except.bind] at hm
    split at hm
    · cases hm
      exact h
    · cases hm
    · rename_i hn
      cases hm
      have ho : other ≠ place := by
        rintro rfl
        simp [h] at hn
      have hd : t.lookup? place ≠ some .directory := by simp [hn]
      rw [lookup?_put (not_aboveAll_of_lookup? hd), if_neg ho, h]

theorem lookup?_makeDirectoriesTo {t : FileTree} {names : List Text} {other : Path} {entry : Entry}
    (h : t.lookup? other = some entry) (room : Nat) :
    (t.makeDirectoriesTo room names).1.lookup? other = some entry := by
  induction names generalizing room with
  | nil => exact h
  | cons name above ih =>
    unfold makeDirectoriesTo
    dsimp only
    split
    · rename_i u hm
      exact lookup?_makeDirectory hm h
    · cases room with
      | zero => exact h
      | succ room =>
        have hu := ih room
        dsimp only
        split
        · rename_i u fault hmade
          rwa [hmade] at hu
        · rename_i u hmade
          rw [hmade] at hu
          split
          · rename_i v hm
            exact lookup?_makeDirectory hm hu
          · exact hu
    · exact h

/-- Making directories changes no entry that was there, whether or not it comes to its end. -/
theorem lookup?_makeDirectories {t : FileTree} {room : Nat} {path other : Path} {entry : Entry}
    (h : t.lookup? other = some entry) : (t.makeDirectories room path).1.lookup? other = some entry :=
  lookup?_makeDirectoriesTo h room

/-- Writing a file changes that file alone. -/
theorem lookup?_write {t u : FileTree} {path place other : Path} {content : List UInt8}
    (hw : t.write path content = .ok u) (hp : t.place path = .ok place) :
    u.lookup? other = if other = place then some (.file content) else t.lookup? other := by
  simp only [write, hp] at hw
  split at hw
  · cases hw
  · rename_i hd
    cases hw
    exact lookup?_put (not_aboveAll_of_lookup? hd) other _

end FileTree

end ScriptLink
