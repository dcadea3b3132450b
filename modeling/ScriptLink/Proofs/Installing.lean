import ScriptLink.Proofs.Choosing
import ScriptLink.Proofs.JsonText

/-! # Writing the files of the directory

    The declaration and the script are written one after the other into a directory that may be stale by then, so the
    writing can end at either. Main statement: where it comes to its end, both files have their content and doing it
    again changes nothing; wherever it ends, only these two files and directories that were missing have changed. -/

namespace ScriptLink

namespace FileTree
variable {t u : FileTree} {front place : Path} {name : Text} {content : List UInt8}

/-- A file is written into a directory, in place of a file or of nothing. -/
theorem write_concat_iff : t.write (front ++ [name]) content = .ok u ↔
    t.Admits (front ++ [name]) ∧ t.Open front.stations ∧
      t.lookup? (Path.destination (front ++ [name])) ≠ some .directory ∧
      u = t.put (Path.destination (front ++ [name])) (.file content) := by
  rw [write]
  constructor
  · intro h
    rcases hplace : t.place (front ++ [name]) with problem | place
    · simp [hplace] at h
    obtain ⟨hadmits, hopen, rfl⟩ := place_concat_iff.mp hplace
    simp only [hplace] at h
    split at h
    · cases h
    · rename_i hold
      cases h
      exact ⟨hadmits, hopen, hold, rfl⟩
  · rintro ⟨hadmits, hopen, hold, rfl⟩
    rw [place_concat_iff.mpr ⟨hadmits, hopen, rfl⟩]
    dsimp only
    split
    · rename_i hdirectory
      exact absurd hdirectory hold
    · rfl

theorem read_concat (hadmits : t.Admits (front ++ [name])) (hopen : t.Open front.stations)
    (hfound : t.lookup? (Path.destination (front ++ [name])) = some (.file content)) :
    t.read (front ++ [name]) = .ok content := by
  simp [read, find, place_concat_iff.mpr ⟨hadmits, hopen, rfl⟩, bind, Except.bind, hfound, pure, Except.pure]

/-- A file put somewhere leaves open what was open. -/
theorem Open.put {places : List Path} (h : t.Open places) (hold : t.lookup? place ≠ some .directory) :
    (t.put place (.file content)).Open places := by
  intro other hother
  have hne : other ≠ place := by
    rintro rfl
    exact hold (h other hother)
  rw [lookup?_put (not_aboveAll_of_lookup? hold), if_neg hne, h other hother]

/-- Two entries put again change nothing. -/
theorem put_put {other : Path} (hne : place ≠ other) (entry entry' : Entry) :
    (((t.put place entry).put other entry').put place entry).put other entry' =
      (t.put place entry).put other entry' := by
  simp only [put, FileTree.mk.injEq, true_and, List.filter_cons, ne_eq, hne, hne.symm, not_true_eq_false,
    not_false_eq_true, decide_true, decide_false, if_true, Bool.false_eq_true, if_false, List.filter_filter]
  refine congrArg _ (congrArg _ (List.filter_congr fun old _ => ?_))
  by_cases hplace : old.1 = place <;> by_cases hother : old.1 = other <;> simp [hplace, hother]

theorem lookup?_write_destination {path : Path} (h : t.write path content = .ok u) (other : Path) :
    u.lookup? other = if other = path.destination then some (.file content) else t.lookup? other := by
  rcases hplace : t.place path with problem | place
  · rw [write, hplace] at h
    cases h
  · rw [lookup?_write h hplace, (route_ok (place_ok_iff.mp hplace).2).1]

/-! ### Two files of one directory -/

section Pair
variable {v : FileTree} {name' : Text} {content' : List UInt8}

theorem Open.write {places : List Path} (h : t.Open places) (hwritten : t.write (front ++ [name]) content = .ok u) :
    u.Open places := by
  obtain ⟨-, -, hold, rfl⟩ := write_concat_iff.mp hwritten
  exact h.put hold

theorem Admits.write {path : Path} (h : t.Admits path) (hwritten : t.write (front ++ [name]) content = .ok u) :
    u.Admits path := by
  obtain ⟨-, -, -, rfl⟩ := write_concat_iff.mp hwritten
  exact ⟨h.noNull, h.names, h.whole⟩

/-- Of two files written one after the other both are found. -/
theorem lookup?_writes (hup : name ≠ Path.up) (hup' : name' ≠ Path.up) (hne : name ≠ name')
    (h : t.write (front ++ [name]) content = .ok u) (h' : u.write (front ++ [name']) content' = .ok v) :
    v.lookup? (Path.destination (front ++ [name])) = some (.file content) ∧
      v.lookup? (Path.destination (front ++ [name'])) = some (.file content') := by
  rw [lookup?_write_destination h', lookup?_write_destination h', if_neg (Path.destination_concat_ne hup hup' hne),
    lookup?_write_destination h, if_pos rfl, if_pos rfl]
  exact ⟨rfl, rfl⟩

theorem read_of_writes (hup : name ≠ Path.up) (hup' : name' ≠ Path.up) (hne : name ≠ name')
    (h : t.write (front ++ [name]) content = .ok u) (h' : u.write (front ++ [name']) content' = .ok v) :
    v.read (front ++ [name]) = .ok content ∧ v.read (front ++ [name']) = .ok content' := by
  obtain ⟨hfound, hfound'⟩ := lookup?_writes hup hup' hne h h'
  obtain ⟨hadmits, hopen, -, -⟩ := write_concat_iff.mp h
  obtain ⟨hadmits', hopen', -, -⟩ := write_concat_iff.mp h'
  exact ⟨read_concat ((hadmits.write h).write h') ((hopen.write h).write h') hfound,
    read_concat (hadmits'.write h') (hopen'.write h') hfound'⟩

/-- Two files written again leave everything as it is. -/
theorem write_again (hup : name ≠ Path.up) (hup' : name' ≠ Path.up) (hne : name ≠ name')
    (h : t.write (front ++ [name]) content = .ok u) (h' : u.write (front ++ [name']) content' = .ok v) :
    ∃ w, v.write (front ++ [name]) content = .ok w ∧ w.write (front ++ [name']) content' = .ok v := by
  have hplaces : Path.destination (front ++ [name]) ≠ Path.destination (front ++ [name']) :=
    Path.destination_concat_ne hup hup' hne
  obtain ⟨hfound, hfound'⟩ := lookup?_writes hup hup' hne h h'
  obtain ⟨hadmits, hopen, -, hu⟩ := write_concat_iff.mp h
  obtain ⟨hadmits', hopen', -, hv⟩ := write_concat_iff.mp h'
  have hfirst : v.write (front ++ [name]) content = .ok (v.put (Path.destination (front ++ [name])) (.file content)) :=
    write_concat_iff.mpr
      ⟨(hadmits.write h).write h', (hopen.write h).write h', by rw [hfound]; simp, rfl⟩
  have hsecond := lookup?_write_destination hfirst (Path.destination (front ++ [name']))
  rw [if_neg hplaces.symm, hfound'] at hsecond
  refine ⟨_, hfirst, write_concat_iff.mpr ⟨(hadmits'.write h').write hfirst, (hopen'.write h').write hfirst, ?_, ?_⟩⟩
  · rw [hsecond]
    simp
  · rw [hv, hu]
    exact (put_put hplaces _ _).symm

end Pair

end FileTree

namespace Environment
variable {env : Environment} {directory place : Path}

/-! ### The text of the declaration -/

/-- The declaration is read as an object that declares modules. -/
theorem read?_declaration : Json.read? Json.nestingLimit declaration = some (.object
    [(.ofString "name", .text (.ofString "jsbridge-runtime")), (.ofString "private", .bool true),
     (.ofString "type", .text (.ofString "module"))]) := by
  have hindent : Json.Grammar.Blanks (.ofString "\n    ") := List.all_eq_true.mp (by decide)
  have hnewline : Json.Grammar.Blanks (.ofString "\n") := List.all_eq_true.mp (by decide)
  have hplain (t : Text) (h : t.all fun c => c ≠ 0x22 ∧ c ≠ 0x5C ∧ 0x20 ≤ c.val) : Json.SpellsCharacters t t := by
    induction t with
    | nil => exact fun _ _ => rfl
    | cons c t ih =>
      simp only [List.all_cons, Bool.and_eq_true, decide_eq_true_eq] at h
      obtain ⟨⟨hquote, hslash, hspace⟩, ht⟩ := h
      exact (Json.spellsCharacters_self hquote hslash hspace).append (ih ht)
  obtain ⟨room, hroom⟩ : ∃ room, Json.nestingLimit = room + 1 := ⟨_, rfl⟩
  have hname := Json.spellsMember_close (hplain (.ofString "name") (by decide)) Json.blanks_space
    (Json.spells_text room (hplain (.ofString "jsbridge-runtime") (by decide)))
  have hprivate := Json.spellsMember_close (hplain (.ofString "private") (by decide)) Json.blanks_space
    (Json.spells_boolWord room true)
  have htype := Json.spellsMember_close (hplain (.ofString "type") (by decide)) Json.blanks_space
    (Json.spells_text room (hplain (.ofString "module") (by decide)))
  have hobject := Json.spells_object (.cons hindent hname Json.blanks_nil
    (.cons hindent hprivate Json.blanks_nil (.last hindent htype hnewline)))
  rw [hroom]
  exact hobject.read?

/-! ### Where directories are made -/

/-- Where a choice may make a directory: on the way to the candidate with which it ends, or before the file on a way
    that leads back up. -/
inductive OnTheWay (t : FileTree) (candidates : List Path) (place : Path) : Prop
  | ending (before after : List Path) (candidate : Path) (split : candidates = before ++ candidate :: after)
      (blocked : ∀ other ∈ before, t.Blocked (directoryBelow other))
      (ends : ¬ (t.Admits (directoryBelow candidate) ∧ t.Blocked (directoryBelow candidate)))
      (station : place ∈ (directoryBelow candidate).stations) : OnTheWay t candidates place
  | turnedDown (before after : List Path) (candidate : Path) (split : candidates = before ++ candidate :: after)
      (blocked : ∀ other ∈ before ++ [candidate], t.Blocked (directoryBelow other)) (leadsUp : Path.up ∈ candidate)
      (passed : place ∈ t.passed (directoryBelow candidate)) : OnTheWay t candidates place

section Way
variable {t u : FileTree} {candidates before after places : List Path} {result : Except Failure Path}

/-- A candidate that is turned down makes something only where it leads back up. -/
theorem onTheWay_of_passedBelow (ht : t.WellFormed) (split : candidates = before ++ after)
    (blocked : ∀ other ∈ before, t.Blocked (directoryBelow other)) (hnone : t.lookup? place = none)
    (hplace : place ∈ passedBelow t before) : OnTheWay t candidates place := by
  obtain ⟨candidate, hcandidate, hpassed⟩ := List.mem_flatMap.mp hplace
  obtain ⟨front, back, rfl⟩ := List.append_of_mem hcandidate
  refine .turnedDown front (back ++ after) candidate (by simp [split]) ?_ ?_ hpassed
  · intro other hother
    refine blocked other ?_
    rw [List.append_cons]
    exact List.mem_append_left _ hother
  · by_contra hup
    have hopen := ht.open_passed (up_notMem_directoryBelow hup) (blocked candidate hcandidate) place hpassed
    rw [hnone] at hopen
    cases hopen

/-- A choice changes nothing but to make directories on its way. -/
theorem Chooses.changed {room : Nat} (h : Chooses room t candidates (result, u)) (ht : t.WellFormed)
    (hchanged : u.lookup? place ≠ t.lookup? place) :
    t.lookup? place = none ∧ u.lookup? place = some .directory ∧ OnTheWay t candidates place := by
  cases h with
  | found before after candidate split blocked _ _ clear made =>
    obtain ⟨hplace, hnone, hmade⟩ := made.of_changed hchanged
    refine ⟨hnone, hmade, (List.mem_append.mp hplace).elim ?_ ?_⟩
    · exact onTheWay_of_passedBelow ht split blocked hnone
    · exact .ending before after candidate split blocked fun h => clear h.2
  | exhausted blocked made =>
    obtain ⟨hplace, hnone, hmade⟩ := made.of_changed hchanged
    exact ⟨hnone, hmade, onTheWay_of_passedBelow ht (List.append_nil _).symm blocked hnone hplace⟩
  | refused before after candidate split blocked admits within made =>
    obtain ⟨hplace, hnone, hmade⟩ := made.of_changed hchanged
    refine ⟨hnone, hmade, (List.mem_append.mp hplace).elim ?_ fun hplace => ?_⟩
    · exact onTheWay_of_passedBelow ht split blocked hnone
    · exact .ending before after candidate split blocked (fun h => admits h.1) (within hplace)
  | nested before after candidate split blocked deep made =>
    obtain ⟨hplace, hnone, hmade⟩ := made.of_changed hchanged
    exact ⟨hnone, hmade, onTheWay_of_passedBelow ht split blocked hnone hplace⟩

end Way

/-- A new directory at a place where nothing was, on the way of a choice that had to be made. -/
structure NewDirectory (env last : Environment) (place : Path) : Prop where
  unchosen : env.directory = none
  missing : env.files.lookup? place = none
  made : last.files.lookup? place = some .directory
  onTheWay : OnTheWay env.files env.candidates place

/-- A new directory stays where the files change elsewhere. -/
theorem NewDirectory.keep {chosen : Environment} {t : FileTree} (h : NewDirectory env chosen place)
    (hkept : t.lookup? place = chosen.files.lookup? place) : NewDirectory env { chosen with files := t } place :=
  ⟨h.unchosen, h.missing, hkept.trans h.made, h.onTheWay⟩

theorem changed_ensure (hfiles : env.files.WellFormed) (place : Path)
    (hchanged : (env.ensure false).2.files.lookup? place ≠ env.files.lookup? place) :
    NewDirectory env (env.ensure false).2 place := by
  rcases hdirectory : env.directory with _ | directory
  · rw [ensure_of_none hdirectory] at hchanged ⊢
    rcases env.choose_cases with ⟨found, u, hchoose, hchooses⟩ | ⟨failure, u, hchoose, hchooses⟩
    all_goals
      rw [hchoose] at hchanged ⊢
      obtain ⟨hnone, hmade, hway⟩ := hchooses.changed hfiles hchanged
      exact ⟨hdirectory, hnone, hmade, hway⟩
  · rw [ensure_of_some hdirectory] at hchanged
    exact absurd rfl hchanged

theorem directory_of_ensure {last : Environment} (h : env.ensure false = (.ok directory, last)) :
    last.directory = some directory := by
  rcases hdirectory : env.directory with _ | old
  · rw [ensure_of_none hdirectory] at h
    rcases env.choose_cases with ⟨found, u, hchoose, -⟩ | ⟨failure, u, hchoose, -⟩
    · rw [hchoose] at h
      cases h
      rfl
    · rw [hchoose] at h
      cases h
  · rw [ensure_of_some hdirectory] at h
    cases h
    exact hdirectory

/-! ### Both files -/

/-- The place of one of the two files of a directory. -/
def IsFileOf (directory place : Path) : Prop :=
  place = (declarationPath directory).destination ∨ place = (scriptPath directory).destination

theorem directory_of_create {last : Environment} (h : env.create = (.ok directory, last)) :
    last.directory = some directory := by
  have hcreates := env.creates_create
  rw [h] at hcreates
  cases hcreates with
  | created ensure =>
    have hdirectory := directory_of_ensure ensure
    exact hdirectory

/-- Where both files are written, each has its content, and writing them again changes nothing. -/
theorem create_complete {last : Environment} (h : env.create = (.ok directory, last)) :
    last.files.read (declarationPath directory) = .ok (Utf8.encode declaration) ∧
    last.files.read (scriptPath directory) = .ok Runtime.bytes ∧ last.create = (.ok directory, last) := by
  have hcreates := env.creates_create
  rw [h] at hcreates
  cases hcreates with
  | @created _ chosen t u ensure declare script =>
    obtain ⟨hdeclared, hscript⟩ := FileTree.read_of_writes (by decide) (by decide) (by decide) declare script
    obtain ⟨v, hdeclare, hagain⟩ := FileTree.write_again (by decide) (by decide) (by decide) declare script
    refine ⟨hdeclared, hscript, ?_⟩
    rw [create, ensure_of_some (directory_of_create h)]
    simp only [install, declarationPath, scriptPath, hdeclare, hagain]

/-- Wherever the writing ends, nothing but the two files and new directories has changed. -/
theorem changed_create (hfiles : env.files.WellFormed) (place : Path)
    (hchanged : env.create.2.files.lookup? place ≠ env.files.lookup? place) :
    (∃ directory, env.create.2.directory = some directory ∧ IsFileOf directory place) ∨
      NewDirectory env env.create.2 place := by
  have hchosen := changed_ensure hfiles place
  have hcreates := env.creates_create
  generalize env.create = result at hcreates hchanged ⊢
  cases hcreates with
  | unchosen ensure | undeclared ensure =>
    rw [ensure] at hchosen
    exact .inr (hchosen hchanged)
  | @declared directory chosen t fault ensure declare =>
    -- Only the declaration was written, so any other change is one of the choice.
    by_cases hdeclared : place = (declarationPath directory).destination
    · have hdirectory := directory_of_ensure ensure
      exact .inl ⟨directory, hdirectory, .inl hdeclared⟩
    have hkept := FileTree.lookup?_write_destination declare place
    rw [if_neg hdeclared] at hkept
    dsimp only at hchanged
    rw [ensure] at hchosen
    rw [hkept] at hchanged
    exact .inr ((hchosen hchanged).keep hkept)
  | @created directory chosen t u ensure declare script =>
    by_cases hplace : IsFileOf directory place
    · have hdirectory := directory_of_ensure ensure
      exact .inl ⟨directory, hdirectory, hplace⟩
    obtain ⟨hdeclared, hscript⟩ := not_or.mp hplace
    have hkept := FileTree.lookup?_write_destination script place
    rw [if_neg hscript, FileTree.lookup?_write_destination declare place, if_neg hdeclared] at hkept
    dsimp only at hchanged
    rw [ensure] at hchosen
    rw [hkept] at hchanged
    exact .inr ((hchosen hchanged).keep hkept)

/-- Where the writing of both files comes to its end, after whatever was done and happened before, the script and the
    declaration have their content, every other file and directory that was there is as before, and doing it again
    changes nothing. Wherever it ends, what has changed besides the two files are places where nothing was and now a
    directory is, on the way of the choice. -/
theorem created_directory_is_complete (env : Environment) (hfiles : env.files.WellFormed) (deeds : List Deed) :
    Json.read? Json.nestingLimit declaration = some (.object
      [(.ofString "name", .text (.ofString "jsbridge-runtime")), (.ofString "private", .bool true),
       (.ofString "type", .text (.ofString "module"))]) ∧
    (∀ directory last, (env.afterAll deeds).create = (.ok directory, last) →
      last.files.read (scriptPath directory) = .ok Runtime.bytes ∧
      last.files.read (declarationPath directory) = .ok (Utf8.encode declaration) ∧
      (∀ place entry, ¬ IsFileOf directory place → (env.afterAll deeds).files.lookup? place = some entry →
        last.files.lookup? place = some entry) ∧
      last.create = (.ok directory, last)) ∧
    ∀ result last, (env.afterAll deeds).create = (result, last) →
      ∀ place, last.files.lookup? place ≠ (env.afterAll deeds).files.lookup? place →
        (∃ directory, last.directory = some directory ∧ IsFileOf directory place) ∨
          NewDirectory (env.afterAll deeds) last place := by
  have hfiles' := wellFormed_afterAll hfiles deeds
  have hchanged := changed_create hfiles'
  refine ⟨read?_declaration, fun directory last hcreate => ?_, fun result last hcreate => ?_⟩
  · obtain ⟨hdeclared, hscript, hagain⟩ := create_complete hcreate
    refine ⟨hscript, hdeclared, fun place entry hplace hfound => ?_, hagain⟩
    by_contra hlost
    rw [hcreate] at hchanged
    rcases hchanged place (fun h => hlost (h.trans hfound)) with ⟨other, hother, hfile⟩ | hnew
    · rw [directory_of_create hcreate] at hother
      cases hother
      exact hplace hfile
    · rw [hnew.missing] at hfound
      cases hfound
  · rw [hcreate] at hchanged
    exact hchanged

/-! A directory with a script that is out of date. -/

/-- The directory, which is the one that was chosen. -/
def outdated : Environment :=
  ⟨⟨.ofString "root", [([.ofString "d", .ofString "index.js"], .file []), ([.ofString "d"], .directory)]⟩, [],
    some [.ofString "d"], 5⟩

theorem wellFormed_outdated : outdated.files.WellFormed :=
  ((FileTree.wellFormed_empty (.ofString "root")).put
    (show FileTree.lookup? _ [.ofString "d"] ≠ some .directory by decide) (by decide) .directory).put
    (show FileTree.lookup? _ [.ofString "d", .ofString "index.js"] ≠ some .directory by decide) (by decide) (.file [])

theorem outdated_is_replaced : outdated.files.WellFormed ∧ ∃ last,
    (outdated.afterAll [.file [.ofString "d", .ofString "index.js"] [0x2F]]).create = (.ok [.ofString "d"], last) ∧
    last.files.read (scriptPath [.ofString "d"]) = .ok Runtime.bytes ∧ last.create = (.ok [.ofString "d"], last) := by
  obtain ⟨-, hcomplete, -⟩ := created_directory_is_complete outdated wellFormed_outdated
    [.file [.ofString "d", .ofString "index.js"] [0x2F]]
  have hcreate : ∃ last, (outdated.afterAll [.file [.ofString "d", .ofString "index.js"] [0x2F]]).create =
      (.ok [.ofString "d"], last) := ⟨_, rfl⟩
  obtain ⟨last, hcreate⟩ := hcreate
  obtain ⟨hscript, -, -, hagain⟩ := hcomplete _ _ hcreate
  exact ⟨wellFormed_outdated, last, hcreate, hscript, hagain⟩

/-- A directory in the place of the declaration ends the writing. -/
theorem create_of_directory {chosen : Environment} (ensure : env.ensure false = (.ok directory, chosen))
    (hfound : chosen.files.lookup? (declarationPath directory).destination = some .directory) :
    ∃ fault, env.create = (.error (.file fault), chosen) := by
  rcases hdeclare : chosen.files.write (declarationPath directory) (Utf8.encode declaration) with fault | t
  · refine ⟨fault, ?_⟩
    rw [create, ensure]
    simp only [install, hdeclare]
  · exact absurd hfound (FileTree.write_concat_iff.mp hdeclare).2.2.1

/-- A directory where the declaration should stand. -/
def obstructed : Environment :=
  straying.after (.directories (declarationPath (directoryBelow [.ofString "ok"])))

theorem up_notMem_ok_concat {name : Text} (hup : name ≠ Path.up) :
    Path.up ∉ directoryBelow [.ofString "ok"] ++ [name] := by
  rw [List.mem_append, not_or, List.mem_singleton]
  exact ⟨up_notMem_ok, hup.symm⟩

theorem declarationPath_ne_nil (directory : Path) : declarationPath directory ≠ [] :=
  List.append_ne_nil_of_right_ne_nil _ (List.cons_ne_nil _ _)

theorem clear_declarationPath : ¬ occupied.Blocked (declarationPath (directoryBelow [.ofString "ok"])) :=
  not_blocked_occupied (up_notMem_ok_concat (by decide)) rfl

theorem made_obstructed :
    occupied.Made (declarationPath (directoryBelow [.ofString "ok"])).stations obstructed.files := by
  have hadmits : occupied.Admits (declarationPath (directoryBelow [.ofString "ok"])) := by
    refine admits_ok.concat (by decide) (by decide) ?_
    rw [length_nameOf_directoryBelow]
    decide
  rw [obstructed, files_after_directories]
  exact (occupied.makes_makeDirectories _ (declarationPath_ne_nil _)).made_stations hadmits clear_declarationPath
    (occupied.shallow_length _)

theorem missing_obstructed : obstructed.files.lookup? [.ofString "a"] = none := by
  rw [made_obstructed.kept]
  · decide
  · exact fun hstation => absurd (head?_of_station (up_notMem_ok_concat (by decide)) rfl hstation) (by decide)

theorem obstructed_ensure : ∃ u, obstructed.ensure false = (.ok (directoryBelow [.ofString "ok"]),
      ⟨u, straying.candidates, some (directoryBelow [.ofString "ok"]), 5⟩) ∧
    u.lookup? [.ofString "a"] = some .directory ∧
    u.lookup? (declarationPath (directoryBelow [.ofString "ok"])).destination = some .directory := by
  have hmade := made_obstructed
  have hsplit : straying.candidates = [stray] ++ [.ofString "ok"] :: [] := rfl
  obtain ⟨u, hchosen, hmade'⟩ := (chooses_chooseAmong 5 obstructed.files straying.candidates).eq_found hsplit
    (List.forall_mem_singleton.mpr ⟨hmade.usable usable_stray, hmade.blocked_iff.mpr blocked_stray⟩)
    (hmade.usable usable_ok) (mt hmade.blocked_iff.mp (not_blocked_occupied up_notMem_ok rfl))
  refine ⟨u, ?_, ?_, hmade'.lookup?_of_some ?_⟩
  · rw [ensure_of_none rfl, choose, show obstructed.candidates = straying.candidates from rfl,
      show obstructed.room = 5 from rfl, hchosen]
  · refine hmade'.lookup?_of_none (List.mem_append_left _ ?_) missing_obstructed
    rw [passedBelow_of_made hmade]
    exact mem_passedBelow_stray
  · exact hmade.opened clear_declarationPath _ (Path.destination_mem_stations (declarationPath_ne_nil _))

/-- Where the declaration cannot be written, a directory stays on the way of a candidate that was turned down. -/
theorem failed_creation_leaves_directory : ∃ fault last, obstructed.create = (.error (.file fault), last) ∧
    last.directory = some (directoryBelow [.ofString "ok"]) ∧
    obstructed.files.lookup? [.ofString "a"] = none ∧ last.files.lookup? [.ofString "a"] = some .directory ∧
    [.ofString "a"] ∉ (directoryBelow [.ofString "ok"]).stations ∧
    ¬ IsFileOf (directoryBelow [.ofString "ok"]) [.ofString "a"] := by
  obtain ⟨u, hensure, hleft, hdirectory⟩ := obstructed_ensure
  obtain ⟨fault, hcreate⟩ := create_of_directory hensure hdirectory
  refine ⟨fault, _, hcreate, rfl, missing_obstructed, hleft, fun hstation => ?_, fun hfile => ?_⟩
  · exact absurd (head?_of_station up_notMem_ok rfl hstation) (by decide)
  · rcases hfile with hplace | hplace
    all_goals
      have hnames := hplace.trans (Path.destination_of_descending (up_notMem_ok_concat (by decide)))
      exact absurd (congrArg List.head? hnames) (by decide)

end Environment

end ScriptLink
