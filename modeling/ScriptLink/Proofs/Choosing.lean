import ScriptLink.Environment.Directory
import ScriptLink.Proofs.Directories
import ScriptLink.Proofs.LineText

/-! # Choosing the directory

    The candidates are tried in order, and a file on the way to a directory turns a candidate down; anything else that is
    wrong with a path ends the choice. Main statement: among paths with nothing else wrong, the directory lies below the
    first candidate without a file, made together with what was missing above it; what a candidate that was turned down
    leaves behind are directories that its path leads back out of. A choice that fails keeps the directory that was
    chosen before. -/

namespace ScriptLink

/-! ### The name of the directory -/

theorem Text.length_hex (width n : Nat) : (Text.hex width n).length = width := by
  induction width generalizing n with
  | zero => rfl
  | succ width ih => rw [hex, List.length_append, ih, List.length_singleton]

theorem Sha256.length_hexDigest (message : List UInt8) : (hexDigest message).length = 64 := by
  simp [hexDigest, Text.length_hex]

theorem Sha256.isGraphic_hexDigest (message : List UInt8) : (hexDigest message).IsGraphic := by
  intro c hc
  obtain ⟨word, -, hword⟩ := List.mem_flatMap.mp hc
  exact Text.IsGraphic.hex 8 _ c hword

namespace Environment

section Candidates
variable {t u : FileTree} {room : Nat} {candidates before after : List Path} {candidate : Path}

/-- What the candidates pass before the files in their way. -/
def passedBelow (t : FileTree) (candidates : List Path) : List Path :=
  candidates.flatMap fun candidate => t.passed (directoryBelow candidate)

/-- What comes of a choice among candidates. -/
inductive Chooses (room : Nat) (t : FileTree) (candidates : List Path) : Except Failure Path × FileTree → Prop
  | found (before after : List Path) (candidate : Path) {u : FileTree}
      (split : candidates = before ++ candidate :: after)
      (blocked : ∀ other ∈ before, t.Blocked (directoryBelow other)) (admits : t.Admits (directoryBelow candidate))
      (shallow : ∃ v, t.Made (passedBelow t before) v ∧ v.Shallow room (directoryBelow candidate))
      (clear : ¬ t.Blocked (directoryBelow candidate))
      (made : t.Made (passedBelow t before ++ (directoryBelow candidate).stations) u) :
      Chooses room t candidates (.ok (directoryBelow candidate), u)
  | exhausted {u : FileTree} (blocked : ∀ other ∈ candidates, t.Blocked (directoryBelow other))
      (made : t.Made (passedBelow t candidates) u) : Chooses room t candidates (.error noDirectory, u)
  | refused (before after : List Path) (candidate : Path) {places : List Path} {u : FileTree} {fault : FileFault}
      (split : candidates = before ++ candidate :: after)
      (blocked : ∀ other ∈ before, t.Blocked (directoryBelow other)) (admits : ¬ t.Admits (directoryBelow candidate))
      (within : places ⊆ (directoryBelow candidate).stations) (made : t.Made (passedBelow t before ++ places) u) :
      Chooses room t candidates (.error (.file fault), u)
  | nested (before after : List Path) (candidate : Path) {u : FileTree} {fault : FileFault}
      (split : candidates = before ++ candidate :: after)
      (blocked : ∀ other ∈ before, t.Blocked (directoryBelow other))
      (deep : ¬ t.Shallow room (directoryBelow candidate)) (made : t.Made (passedBelow t before) u) :
      Chooses room t candidates (.error (.file fault), u)

theorem passedBelow_of_made {places : List Path} (h : t.Made places u) (candidates : List Path) :
    passedBelow u candidates = passedBelow t candidates := by
  simp only [passedBelow, h.passed]

theorem directoryBelow_ne_nil (candidate : Path) : directoryBelow candidate ≠ [] := by
  simp [directoryBelow]

theorem isObstruction_iff {fault : FileFault} :
    isObstruction fault ↔ fault.problem = .exists ∨ fault.problem = .notADirectory := by
  simp [isObstruction]

/-- A candidate that is turned down leaves the choice to the others. -/
theorem Chooses.cons {result : Except Failure Path × FileTree} (h : Chooses room u candidates result)
    (hblocked : t.Blocked (directoryBelow candidate)) (hmade : t.Made (t.passed (directoryBelow candidate)) u) :
    Chooses room t (candidate :: candidates) result := by
  have hothers {others : List Path} (h : ∀ other ∈ others, u.Blocked (directoryBelow other)) :
      ∀ other ∈ candidate :: others, t.Blocked (directoryBelow other) :=
    List.forall_mem_cons.mpr ⟨hblocked, fun other hother => hmade.blocked_iff.mp (h other hother)⟩
  cases h with
  | found before after chosen split blocked admits shallow clear made =>
    obtain ⟨v, hv, hshallow⟩ := shallow
    rw [passedBelow_of_made hmade] at made hv
    refine .found (candidate :: before) after chosen (congrArg _ split) (hothers blocked)
      (hmade.admits_iff.mp admits) ⟨v, ?_, hshallow⟩ (fun h => clear (hmade.blocked_iff.mpr h)) ?_
    · simpa only [passedBelow, List.flatMap_cons] using hmade.trans hv
    · simpa only [passedBelow, List.flatMap_cons, List.append_assoc] using hmade.trans made
  | exhausted blocked made =>
    refine .exhausted (hothers blocked) ?_
    rw [passedBelow_of_made hmade] at made
    simpa only [passedBelow, List.flatMap_cons] using hmade.trans made
  | refused before after chosen split blocked admits within made =>
    refine .refused (candidate :: before) after chosen (congrArg _ split) (hothers blocked)
      (fun h => admits (hmade.admits_iff.mpr h)) within ?_
    rw [passedBelow_of_made hmade] at made
    simpa only [passedBelow, List.flatMap_cons, List.append_assoc] using hmade.trans made
  | nested before after chosen split blocked deep made =>
    refine .nested (candidate :: before) after chosen (congrArg _ split) (hothers blocked)
      (fun h => deep (hmade.shallow h)) ?_
    rw [passedBelow_of_made hmade] at made
    simpa only [passedBelow, List.flatMap_cons] using hmade.trans made

theorem chooses_chooseAmong (room : Nat) (t : FileTree) (candidates : List Path) :
    Chooses room t candidates (chooseAmong room t candidates) := by
  induction candidates generalizing t with
  | nil => exact .exhausted (by simp) (.nil t)
  | cons candidate candidates ih =>
    have hmakes := t.makes_makeDirectories room (directoryBelow_ne_nil candidate)
    rw [chooseAmong]
    generalize t.makeDirectories room (directoryBelow candidate) = made at hmakes ⊢
    cases hmakes with
    | made husable hclear hmade =>
      exact .found [] candidates candidate rfl (by simp) husable.admits ⟨t, .nil t, husable.shallow⟩ hclear hmade
    | blocked hobstructs hblocked hmade =>
      simp only [isObstruction_iff.mpr hobstructs, if_true]
      exact (ih _).cons hblocked hmade
    | @refused u fault places hrefuses hadmits hwithin hmade =>
      have hnot : isObstruction fault = false := by
        rw [Bool.eq_false_iff, ne_eq, isObstruction_iff]
        rcases hrefuses with h | h <;> simp [h]
      simp only [hnot, Bool.false_eq_true, if_false]
      exact .refused [] candidates candidate rfl (by simp) hadmits hwithin hmade
    | @nested fault hnests hdeep =>
      have hnot : isObstruction fault = false := by
        rw [Bool.eq_false_iff, ne_eq, isObstruction_iff]
        simp [hnests]
      simp only [hnot, Bool.false_eq_true, if_false]
      exact .nested [] candidates candidate rfl (by simp) hdeep (.nil t)

/-- Of two members of a list one stands before the other, or they are the same. -/
theorem split_cases {α : Type} {before before' after after' : List α} {a a' : α}
    (h : before ++ a :: after = before' ++ a' :: after') : a ∈ before' ∨ a' ∈ before ∨ before = before' ∧ a = a' := by
  rcases List.append_eq_append_iff.mp h with ⟨more, rfl, hrest⟩ | ⟨more, rfl, hrest⟩
  all_goals
    cases more with
    | nil => simp_all
    | cons b more =>
      rw [List.cons_append, List.cons.injEq] at hrest
      simp [hrest.1]

/-- The first candidate without a file in its way is found. -/
theorem Chooses.eq_found {result : Except Failure Path × FileTree} (h : Chooses room t candidates result)
    (split : candidates = before ++ candidate :: after)
    (hbefore : ∀ other ∈ before, t.Usable room (directoryBelow other) ∧ t.Blocked (directoryBelow other))
    (husable : t.Usable room (directoryBelow candidate)) (hclear : ¬ t.Blocked (directoryBelow candidate)) :
    ∃ u, result = (.ok (directoryBelow candidate), u) ∧
      t.Made (passedBelow t before ++ (directoryBelow candidate).stations) u := by
  cases h with
  | found before' after' chosen split' blocked _ _ clear made =>
    rcases split_cases (split.symm.trans split') with h | h | ⟨rfl, rfl⟩
    · exact absurd (blocked _ h) hclear
    · exact absurd (hbefore _ h).2 clear
    · exact ⟨_, rfl, made⟩
  | exhausted blocked => exact absurd (blocked candidate (by simp [split])) hclear
  | refused before' after' chosen split' blocked admits =>
    rcases split_cases (split.symm.trans split') with h | h | ⟨-, rfl⟩
    · exact absurd (blocked _ h) hclear
    · exact absurd (hbefore _ h).1.admits admits
    · exact absurd husable.admits admits
  | nested before' after' chosen split' blocked deep =>
    rcases split_cases (split.symm.trans split') with h | h | ⟨-, rfl⟩
    · exact absurd (blocked _ h) hclear
    · exact absurd (hbefore _ h).1.shallow deep
    · exact absurd husable.shallow deep

theorem Chooses.eq_exhausted {result : Except Failure Path × FileTree} (h : Chooses room t candidates result)
    (hall : ∀ other ∈ candidates, t.Usable room (directoryBelow other) ∧ t.Blocked (directoryBelow other)) :
    ∃ u, result = (.error noDirectory, u) ∧ t.Made (passedBelow t candidates) u := by
  cases h with
  | found before after chosen split blocked _ _ clear => exact absurd (hall chosen (by simp [split])).2 clear
  | exhausted blocked made => exact ⟨_, rfl, made⟩
  | refused before after chosen split blocked admits => exact absurd (hall chosen (by simp [split])).1.admits admits
  | nested before after chosen split blocked deep => exact absurd (hall chosen (by simp [split])).1.shallow deep

/-- A path that cannot even be asked for is the end of the choice. -/
theorem Chooses.eq_refused {result : Except Failure Path × FileTree} (h : Chooses room t candidates result)
    (split : candidates = before ++ candidate :: after) (hbefore : ∀ other ∈ before, t.Blocked (directoryBelow other))
    (hadmits : ¬ t.Admits (directoryBelow candidate)) (hclear : ¬ t.Blocked (directoryBelow candidate)) :
    ∃ fault, result.1 = .error (.file fault) := by
  cases h with
  | found before' after' chosen split' blocked admits _ clear =>
    rcases split_cases (split.symm.trans split') with h | h | ⟨-, rfl⟩
    · exact absurd (blocked _ h) hclear
    · exact absurd (hbefore _ h) clear
    · exact absurd admits hadmits
  | exhausted blocked => exact absurd (blocked candidate (by simp [split])) hclear
  | refused => exact ⟨_, rfl⟩
  | nested => exact ⟨_, rfl⟩

theorem wellFormed_chooseAmong (ht : t.WellFormed) (room : Nat) (candidates : List Path) :
    (chooseAmong room t candidates).2.WellFormed := by
  induction candidates generalizing t with
  | nil => exact ht
  | cons candidate candidates ih =>
    have hmade := ht.makeDirectories room (directoryBelow candidate)
    rw [chooseAmong]
    split
    · rename_i u hu
      rwa [hu] at hmade
    · rename_i u fault hu
      rw [hu] at hmade
      split
      · exact ih hmade
      · exact hmade

theorem up_notMem_directoryBelow (hup : Path.up ∉ candidate) : Path.up ∉ directoryBelow candidate := by
  have hsignature : Path.up ≠ Runtime.signature := by
    intro h
    have hlength := congrArg List.length h
    rw [Runtime.signature, Sha256.length_hexDigest] at hlength
    exact absurd hlength (by decide)
  rw [directoryBelow, List.mem_append, not_or]
  refine ⟨hup, ?_⟩
  simp only [List.mem_cons, List.not_mem_nil, or_false, not_or]
  exact ⟨by decide, by decide, hsignature⟩

/-- Candidates whose paths do not lead back up leave nothing behind where they are turned down. -/
theorem open_passedBelow (ht : t.WellFormed)
    (hall : ∀ other ∈ candidates, t.Blocked (directoryBelow other) ∧ Path.up ∉ other) :
    t.Open (passedBelow t candidates) := by
  intro place hplace
  obtain ⟨other, hother, hpassed⟩ := List.mem_flatMap.mp hplace
  obtain ⟨hblocked, hup⟩ := hall other hother
  exact ht.open_passed (up_notMem_directoryBelow hup) hblocked place hpassed

/-- A path on which too much is missing is the end of the choice, if those before it left nothing behind. -/
theorem Chooses.eq_nested {result : Except Failure Path × FileTree} (h : Chooses room t candidates result)
    (ht : t.WellFormed) (split : candidates = before ++ candidate :: after)
    (hbefore : ∀ other ∈ before, t.Blocked (directoryBelow other) ∧ Path.up ∉ other)
    (hdeep : ¬ t.Shallow room (directoryBelow candidate)) (hclear : ¬ t.Blocked (directoryBelow candidate)) :
    ∃ fault, result.1 = .error (.file fault) := by
  cases h with
  | found before' after' chosen split' blocked _ shallow clear =>
    rcases split_cases (split.symm.trans split') with h | h | ⟨rfl, rfl⟩
    · exact absurd (blocked _ h) hclear
    · exact absurd (hbefore _ h).1 clear
    · obtain ⟨v, hv, hshallow⟩ := shallow
      rw [← List.append_nil (passedBelow _ _)] at hv
      exact absurd ((hv.of_open (open_passedBelow ht hbefore)).symm.shallow hshallow) hdeep
  | exhausted blocked => exact absurd (blocked candidate (by simp [split])) hclear
  | refused => exact ⟨_, rfl⟩
  | nested => exact ⟨_, rfl⟩

theorem directoryBelow_eq (candidate : Path) : directoryBelow candidate =
    candidate ++ [.ofString "jsbridge"] ++ [.ofString "runtimes"] ++ [Runtime.signature] := by
  simp [directoryBelow]

theorem isGraphic_signature : Runtime.signature.IsGraphic := Sha256.isGraphic_hexDigest _

theorem length_signature : (Utf8.encode Runtime.signature).length = 64 := by
  rw [isGraphic_signature.encode_eq, List.length_map, Runtime.signature, Sha256.length_hexDigest]

theorem length_nameOf_directoryBelow (t : FileTree) (candidate : Path) :
    (Utf8.encode (t.nameOf (directoryBelow candidate))).length = (Utf8.encode (t.nameOf candidate)).length + 83 := by
  have hone : (Utf8.encode (.ofString "jsbridge")).length = 8 := by decide
  have htwo : (Utf8.encode (.ofString "runtimes")).length = 8 := by decide
  simp only [directoryBelow_eq, FileTree.length_nameOf_concat, hone, htwo, length_signature]

/-- A candidate can be asked for with the directory below it where 83 bytes are left for that. -/
theorem admits_directoryBelow (h : t.Admits candidate)
    (hwhole : (Utf8.encode (t.nameOf candidate)).length + 83 ≤ FileTree.pathLimit) :
    t.Admits (directoryBelow candidate) := by
  rw [← length_nameOf_directoryBelow, directoryBelow_eq, FileTree.length_nameOf_concat] at hwhole
  have hnull : (0 : CodePoint) ∉ Runtime.signature := by
    intro hzero
    have hgraphic : 0x20 ≤ (0 : CodePoint).val ∧ _ := isGraphic_signature 0 hzero
    exact absurd hgraphic.1 (by decide)
  have hfits : FileTree.NameFits Runtime.signature := by
    rw [FileTree.NameFits, length_signature]
    decide
  have hlink : t.Admits (candidate ++ [.ofString "jsbridge"]) := by
    refine h.concat (by decide) (by decide) ?_
    simp only [FileTree.length_nameOf_concat] at hwhole
    omega
  have hruntimes : t.Admits (candidate ++ [.ofString "jsbridge"] ++ [.ofString "runtimes"]) := by
    refine hlink.concat (by decide) (by decide) ?_
    rw [FileTree.length_nameOf_concat] at hwhole
    omega
  rw [directoryBelow_eq]
  exact hruntimes.concat hnull hfits hwhole

theorem shallow_directoryBelow (h : candidate.length ≤ room) : t.Shallow (room + 2) (directoryBelow candidate) := by
  refine (t.length_ahead_le _).trans ?_
  rw [directoryBelow, List.length_append]
  exact Nat.add_le_add_right h 3

end Candidates

/-! ### What may be done with an environment -/

section Choice
variable {env : Environment} {directory : Path} {failure : Failure}

theorem ensure_anew (env : Environment) : env.ensure true = env.choose := by
  unfold ensure
  cases env.directory <;> rfl

theorem ensure_of_none (h : env.directory = none) : env.ensure false = env.choose := by
  simp [ensure, h]

theorem ensure_of_some (h : env.directory = some directory) : env.ensure false = (.ok directory, env) := by
  simp [ensure, h]

/-- A choice changes the files, and the directory only where it finds one. -/
theorem choose_cases (env : Environment) :
    (∃ directory u, env.choose = (.ok directory, { env with files := u, directory := some directory }) ∧
      Chooses env.room env.files env.candidates (.ok directory, u)) ∨
    ∃ failure u, env.choose = (.error failure, { env with files := u }) ∧
      Chooses env.room env.files env.candidates (.error failure, u) := by
  have hchooses := chooses_chooseAmong env.room env.files env.candidates
  rw [choose]
  rcases hresult : chooseAmong env.room env.files env.candidates with ⟨failure | directory, u⟩
  · rw [hresult] at hchooses
    exact .inr ⟨failure, u, rfl, hchooses⟩
  · rw [hresult] at hchooses
    exact .inl ⟨directory, u, rfl, hchooses⟩

theorem wellFormed_choose (h : env.files.WellFormed) : env.choose.2.files.WellFormed := by
  have hchosen := wellFormed_chooseAmong h env.room env.candidates
  rw [choose]
  rcases hresult : chooseAmong env.room env.files env.candidates with ⟨failure | directory, u⟩
  · rwa [hresult] at hchosen
  · rwa [hresult] at hchosen

theorem wellFormed_ensure (h : env.files.WellFormed) : (env.ensure false).2.files.WellFormed := by
  rcases hdirectory : env.directory with _ | directory
  · rw [ensure_of_none hdirectory]
    exact wellFormed_choose h
  · rwa [ensure_of_some hdirectory]

/-- The steps at which the writing of both files can end. -/
inductive Creates (env : Environment) : Except Failure Path × Environment → Prop
  | unchosen {failure : Failure} {chosen : Environment} (ensure : env.ensure false = (.error failure, chosen)) :
      Creates env (.error failure, chosen)
  | undeclared {directory : Path} {chosen : Environment} {fault : FileFault}
      (ensure : env.ensure false = (.ok directory, chosen))
      (declare : chosen.files.write (declarationPath directory) (Utf8.encode declaration) = .error fault) :
      Creates env (.error (.file fault), chosen)
  | declared {directory : Path} {chosen : Environment} {t : FileTree} {fault : FileFault}
      (ensure : env.ensure false = (.ok directory, chosen))
      (declare : chosen.files.write (declarationPath directory) (Utf8.encode declaration) = .ok t)
      (script : t.write (scriptPath directory) Runtime.bytes = .error fault) :
      Creates env (.error (.file fault), { chosen with files := t })
  | created {directory : Path} {chosen : Environment} {t u : FileTree}
      (ensure : env.ensure false = (.ok directory, chosen))
      (declare : chosen.files.write (declarationPath directory) (Utf8.encode declaration) = .ok t)
      (script : t.write (scriptPath directory) Runtime.bytes = .ok u) :
      Creates env (.ok directory, { chosen with files := u })

theorem creates_create (env : Environment) : env.Creates env.create := by
  rw [create]
  rcases hensure : env.ensure false with ⟨failure | directory, chosen⟩
  · exact .unchosen hensure
  rcases hdeclare : chosen.files.write (declarationPath directory) (Utf8.encode declaration) with fault | t
  · simp only [install, hdeclare]
    exact .undeclared hensure hdeclare
  rcases hscript : t.write (scriptPath directory) Runtime.bytes with fault | u
  · simp only [install, hdeclare, hscript]
    exact .declared hensure hdeclare hscript
  · simp only [install, hdeclare, hscript]
    exact .created hensure hdeclare hscript

theorem directory_create (env : Environment) : env.create.2.directory = (env.ensure false).2.directory := by
  have hcreates := env.creates_create
  generalize env.create = result at hcreates ⊢
  cases hcreates with
  | unchosen ensure => rw [ensure]
  | undeclared ensure => rw [ensure]
  | declared ensure => rw [ensure]
  | created ensure => rw [ensure]

theorem wellFormed_create (h : env.files.WellFormed) : env.create.2.files.WellFormed := by
  have hchosen := wellFormed_ensure h
  have hcreates := env.creates_create
  generalize env.create = result at hcreates ⊢
  cases hcreates with
  | unchosen ensure => rwa [ensure] at hchosen
  | undeclared ensure => rwa [ensure] at hchosen
  | declared ensure declare =>
    rw [ensure] at hchosen
    exact hchosen.write declare
  | created ensure declare script =>
    rw [ensure] at hchosen
    exact (hchosen.write declare).write script

end Choice

/-- What is done with an environment, or happens to its files. -/
inductive Deed where
  | ensure
  | force
  | create
  /-- Others change the files. -/
  | outside (change : FileTree → FileTree) (sound : ∀ t : FileTree, t.WellFormed → (change t).WellFormed)

namespace Deed

/-- Others write a file. -/
def file (path : Path) (content : List UInt8) : Deed :=
  .outside (fun t => (t.write path content).toOption.getD t) fun t ht => by
    rcases hwritten : t.write path content with _ | u
    · exact ht
    · exact ht.write hwritten

/-- Others make directories. -/
def directories (path : Path) : Deed :=
  .outside (fun t => (t.makeDirectories path.length path).1) fun _ ht => ht.makeDirectories _ path

/-- Others remove what a path leads to. -/
def removal (path : Path) : Deed :=
  .outside (fun t => t.remove path) fun _ ht => ht.remove path

end Deed

/-- The environment after a deed. -/
def after (env : Environment) : Deed → Environment
  | .ensure => (env.ensure false).2
  | .force => (env.ensure true).2
  | .create => env.create.2
  | .outside change _ => { env with files := change env.files }

/-- The environment after some deeds, one after the other. -/
def afterAll (env : Environment) (deeds : List Deed) : Environment :=
  deeds.foldl after env

/-- No new choice among some deeds comes to a directory. -/
def ForcesFail (env : Environment) (deeds : List Deed) : Prop :=
  ∀ before later, deeds = before ++ .force :: later → ∃ failure, ((env.afterAll before).ensure true).1 = .error failure

@[simp] theorem files_after_directories (env : Environment) (path : Path) :
    (env.after (.directories path)).files = (env.files.makeDirectories path.length path).1 := rfl

section Deeds
variable {env : Environment} {directory : Path} {deed : Deed} {deeds : List Deed}

theorem wellFormed_after (h : env.files.WellFormed) (deed : Deed) : (env.after deed).files.WellFormed := by
  cases deed with
  | ensure => exact wellFormed_ensure h
  | force =>
    rw [after, ensure_anew]
    exact wellFormed_choose h
  | create => exact wellFormed_create h
  | outside change sound => exact sound _ h

theorem wellFormed_afterAll (h : env.files.WellFormed) (deeds : List Deed) : (env.afterAll deeds).files.WellFormed := by
  induction deeds generalizing env with
  | nil => exact h
  | cons deed deeds ih => exact ih (wellFormed_after h deed)

/-- A new choice that fails keeps the directory. -/
theorem directory_of_failed {failure : Failure} (h : (env.ensure true).1 = .error failure) :
    (env.ensure true).2.directory = env.directory := by
  rw [ensure_anew] at h ⊢
  rcases env.choose_cases with ⟨found, u, hchoose, -⟩ | ⟨other, u, hchoose, -⟩
  · rw [hchoose] at h
    cases h
  · rw [hchoose]

theorem directory_after (h : env.directory = some directory)
    (hforce : deed = .force → ∃ failure, (env.ensure true).1 = .error failure) :
    (env.after deed).directory = some directory := by
  cases deed with
  | ensure => rwa [after, ensure_of_some h]
  | force =>
    obtain ⟨failure, hfailure⟩ := hforce rfl
    exact (directory_of_failed hfailure).trans h
  | create => rwa [after, directory_create, ensure_of_some h]
  | outside change sound => exact h

/-- A directory that was chosen stays chosen until another one is found. -/
theorem directory_afterAll (h : env.directory = some directory) (hforces : env.ForcesFail deeds) :
    (env.afterAll deeds).directory = some directory := by
  induction deeds generalizing env with
  | nil => exact h
  | cons deed deeds ih =>
    refine ih (directory_after h ?_) fun before later hsplit => ?_
    · rintro rfl
      exact hforces [] deeds rfl
    · exact hforces (deed :: before) later (congrArg _ hsplit)

end Deeds

/-- Among usable paths the directory lies below the first candidate on whose path no file stands, and is made with all
    that was missing on that path. Of a candidate turned down before it there stay the directories that its path passed before the file:
    nothing new, unless the path leads back up. Where every candidate is turned down, there is no directory. A path that
    cannot even be asked for, for a name that is too long, is the end of the choice, although no file stands on it; so is
    one on which more directories are missing than calls can be nested.
    Whatever is done, a new choice that fails keeps the directory chosen before, and as long as none succeeds this is
    the one that is given, the files untouched. -/
theorem first_clear_candidate_is_chosen (env : Environment) (hfiles : env.files.WellFormed) :
    (∀ before candidate later, env.candidates = before ++ candidate :: later →
      (∀ other ∈ before,
        env.files.Usable env.room (directoryBelow other) ∧ env.files.Blocked (directoryBelow other)) →
      env.files.Usable env.room (directoryBelow candidate) → ¬ env.files.Blocked (directoryBelow candidate) →
      ∃ u, env.ensure true =
          (.ok (directoryBelow candidate), { env with files := u, directory := some (directoryBelow candidate) }) ∧
        env.files.Made (passedBelow env.files before ++ (directoryBelow candidate).stations) u ∧
        ((∀ other ∈ before, Path.up ∉ other) → env.files.Made (directoryBelow candidate).stations u)) ∧
    ((∀ other ∈ env.candidates,
        env.files.Usable env.room (directoryBelow other) ∧ env.files.Blocked (directoryBelow other)) →
      ∃ u, env.ensure true = (.error noDirectory, { env with files := u }) ∧
        env.files.Made (passedBelow env.files env.candidates) u ∧
        ((∀ other ∈ env.candidates, Path.up ∉ other) → env.files.Made [] u)) ∧
    (∀ before candidate later, env.candidates = before ++ candidate :: later →
      (∀ other ∈ before, env.files.Blocked (directoryBelow other)) →
      ¬ env.files.Blocked (directoryBelow candidate) →
      ¬ env.files.Admits (directoryBelow candidate) ∨
        (∀ other ∈ before, Path.up ∉ other) ∧ ¬ env.files.Shallow env.room (directoryBelow candidate) →
      ∃ fault, (env.ensure true).1 = .error (.file fault)) ∧
    ∀ deeds,
      (∀ failure last, (env.afterAll deeds).ensure true = (.error failure, last) →
        last.directory = (env.afterAll deeds).directory) ∧
      (∀ directory, (env.afterAll deeds).directory = some directory →
        (env.afterAll deeds).ensure false = (.ok directory, env.afterAll deeds)) ∧
      ∀ directory, env.directory = some directory → env.ForcesFail deeds →
        (env.afterAll deeds).directory = some directory := by
  have hchooses := chooses_chooseAmong env.room env.files env.candidates
  refine ⟨fun before candidate later hsplit hbefore husable hclear => ?_, fun hall => ?_,
    fun before candidate later hsplit hbefore hclear hunusable => ?_, fun deeds => ⟨?_, ?_, ?_⟩⟩
  · obtain ⟨u, hchosen, hmade⟩ := hchooses.eq_found hsplit hbefore husable hclear
    refine ⟨u, by rw [ensure_anew, choose, hchosen], hmade, fun hup => ?_⟩
    exact hmade.of_open (open_passedBelow hfiles fun other hother => ⟨(hbefore other hother).2, hup other hother⟩)
  · obtain ⟨u, hchosen, hmade⟩ := hchooses.eq_exhausted hall
    refine ⟨u, by rw [ensure_anew, choose, hchosen], hmade, fun hup => ?_⟩
    rw [← List.append_nil (passedBelow _ _)] at hmade
    exact hmade.of_open (open_passedBelow hfiles fun other hother => ⟨(hall other hother).2, hup other hother⟩)
  · obtain ⟨fault, hfault⟩ : ∃ fault,
        (chooseAmong env.room env.files env.candidates).1 = .error (.file fault) := by
      rcases hunusable with hadmits | ⟨hup, hdeep⟩
      · exact hchooses.eq_refused hsplit hbefore hadmits hclear
      · exact hchooses.eq_nested hfiles hsplit (fun other hother => ⟨hbefore other hother, hup other hother⟩) hdeep hclear
    refine ⟨fault, ?_⟩
    rw [ensure_anew, choose]
    rcases hresult : chooseAmong env.room env.files env.candidates with ⟨failure | directory, u⟩ <;>
      rw [hresult] at hfault <;> exact hfault
  · intro failure last hlast
    have hfailed : ((env.afterAll deeds).ensure true).1 = .error failure := congrArg Prod.fst hlast
    rw [← directory_of_failed hfailed, hlast]
  · exact fun directory hdirectory => ensure_of_some hdirectory
  · exact fun directory hdirectory hforces => directory_afterAll hdirectory hforces

/-! A file among the candidates. -/

/-- A tree with nothing but a file. -/
def occupied : FileTree := ⟨.ofString "root", [([.ofString "file"], .file [])]⟩

theorem wellFormed_occupied : occupied.WellFormed :=
  (FileTree.wellFormed_empty (.ofString "root")).put
    (show FileTree.lookup? _ [.ofString "file"] ≠ some .directory by decide) (by decide) (.file [])

theorem isFile_occupied {place : Path} (h : occupied.isFile place) : place = [.ofString "file"] := by
  obtain ⟨content, hfound⟩ := FileTree.lookup?_of_isFile h
  by_contra hne
  rw [FileTree.lookup?] at hfound
  split at hfound
  · cases hfound
  · simp [occupied, Ne.symm hne] at hfound

theorem head?_of_station {path station : Path} {first : Text} (hup : Path.up ∉ path) (hfirst : path.head? = some first)
    (h : station ∈ path.stations) : station.head? = some first := by
  obtain ⟨hne, hstation⟩ := (Path.mem_stations_of_descending hup).mp h
  cases station with
  | nil => exact absurd rfl hne
  | cons name rest =>
    obtain ⟨more, rfl⟩ := hstation
    exact hfirst

theorem up_notMem_ok : Path.up ∉ directoryBelow [.ofString "ok"] := up_notMem_directoryBelow (by decide)

theorem not_blocked_occupied {path : Path} (hup : Path.up ∉ path) (hfirst : path.head? = some (.ofString "ok")) :
    ¬ occupied.Blocked path := by
  rintro ⟨station, hstation, hfile⟩
  have hhead := head?_of_station hup hfirst hstation
  rw [isFile_occupied hfile] at hhead
  exact absurd hhead (by decide)

theorem blocked_occupied {candidate : Path} (hne : candidate ≠ [])
    (h : Path.destination candidate = [.ofString "file"]) : occupied.Blocked (directoryBelow candidate) :=
  ⟨[.ofString "file"], Path.mem_stations.mpr ⟨candidate, hne, List.prefix_append _ _, h⟩, by decide⟩

/-- The file as the first of two candidates. -/
def crowded : Environment := ⟨occupied, [[.ofString "file"], [.ofString "ok"]], none, 5⟩

theorem admits_ok : occupied.Admits (directoryBelow [.ofString "ok"]) :=
  admits_directoryBelow ⟨by decide, by decide, by decide⟩ (by decide)

theorem usable_file : occupied.Usable 5 (directoryBelow [.ofString "file"]) :=
  ⟨admits_directoryBelow ⟨by decide, by decide, by decide⟩ (by decide), shallow_directoryBelow (by decide)⟩

theorem usable_ok : occupied.Usable 5 (directoryBelow [.ofString "ok"]) :=
  ⟨admits_ok, shallow_directoryBelow (by decide)⟩

theorem crowded_takes_second : occupied.WellFormed ∧ ∃ u, crowded.ensure true =
      (.ok (directoryBelow [.ofString "ok"]), ⟨u, crowded.candidates, some (directoryBelow [.ofString "ok"]), 5⟩) ∧
    occupied.Made (directoryBelow [.ofString "ok"]).stations u := by
  obtain ⟨hfound, -⟩ := first_clear_candidate_is_chosen crowded wellFormed_occupied
  obtain ⟨u, hensure, -, hmade⟩ := hfound [[.ofString "file"]] [.ofString "ok"] [] rfl
    (List.forall_mem_singleton.mpr ⟨usable_file, blocked_occupied (by decide) (by decide)⟩) usable_ok
    (not_blocked_occupied up_notMem_ok rfl)
  exact ⟨wellFormed_occupied, u, hensure, hmade (by decide)⟩

/-- A path to the file that leads through a place where nothing is. -/
def stray : Path := [.ofString "a", Path.up, .ofString "file"]

/-- The candidates of which the first leads so to the file. -/
def straying : Environment := ⟨occupied, [stray, [.ofString "ok"]], none, 5⟩

theorem usable_stray : occupied.Usable 5 (directoryBelow stray) :=
  ⟨admits_directoryBelow ⟨by decide, by decide, by decide⟩ (by decide), shallow_directoryBelow (by decide)⟩

theorem blocked_stray : occupied.Blocked (directoryBelow stray) := blocked_occupied (by decide) (by decide)

theorem mem_passedBelow_stray : [.ofString "a"] ∈ passedBelow occupied [stray] :=
  List.mem_flatMap.mpr ⟨stray, List.mem_singleton_self _, by decide⟩

theorem straying_ensure : ∃ u, straying.ensure true =
      (.ok (directoryBelow [.ofString "ok"]), ⟨u, straying.candidates, some (directoryBelow [.ofString "ok"]), 5⟩) ∧
    u.lookup? [.ofString "a"] = some .directory := by
  have hsplit : straying.candidates = [stray] ++ [.ofString "ok"] :: [] := rfl
  obtain ⟨u, hchosen, hmade⟩ := (chooses_chooseAmong 5 occupied straying.candidates).eq_found hsplit
    (List.forall_mem_singleton.mpr ⟨usable_stray, blocked_stray⟩) usable_ok (not_blocked_occupied up_notMem_ok rfl)
  refine ⟨u, ?_, ?_⟩
  · rw [ensure_anew, choose, show straying.files = occupied from rfl, show straying.room = 5 from rfl, hchosen]
  · exact hmade.lookup?_of_none (List.mem_append_left _ mem_passedBelow_stray) (by decide)

/-- A name of 256 bytes. -/
def longName : Text := List.replicate 256 0x61

/-- The only candidate with such a name. -/
def overlong : Environment := ⟨⟨.ofString "root", []⟩, [[longName]], none, 988⟩

/-- A candidate that is turned down leaves a directory behind, and one with no file in its way is not chosen. -/
theorem turned_down_leaves_directory :
    (∃ u, straying.ensure true =
        (.ok (directoryBelow [.ofString "ok"]), ⟨u, straying.candidates, some (directoryBelow [.ofString "ok"]), 5⟩) ∧
      straying.files.lookup? [.ofString "a"] = none ∧ u.lookup? [.ofString "a"] = some .directory ∧
      [.ofString "a"] ∉ (directoryBelow [.ofString "ok"]).stations) ∧
    ¬ overlong.files.Blocked (directoryBelow [longName]) ∧
      ∃ fault, (overlong.ensure true).1 = .error (.file fault) := by
  have hclear : ¬ overlong.files.Blocked (directoryBelow [longName]) := by
    rintro ⟨station, -, hfile⟩
    obtain ⟨content, hfound⟩ := FileTree.lookup?_of_isFile hfile
    rw [FileTree.lookup?] at hfound
    split at hfound <;> cases hfound
  have hlong : ¬ overlong.files.Admits (directoryBelow [longName]) := by
    intro h
    have hfits : FileTree.NameFits longName := h.names longName (List.mem_append_left _ (List.mem_singleton_self _))
    have hgraphic : longName.IsGraphic := fun c hc => by
      rw [List.eq_of_mem_replicate hc]
      decide
    rw [FileTree.NameFits, hgraphic.encode_eq, List.length_map, longName, List.length_replicate] at hfits
    exact absurd hfits (by decide)
  refine ⟨?_, hclear, ?_⟩
  · obtain ⟨u, hensure, hleft⟩ := straying_ensure
    refine ⟨u, hensure, by decide, hleft, fun hstation => ?_⟩
    exact absurd (head?_of_station up_notMem_ok rfl hstation) (by decide)
  · rw [ensure_anew]
    rcases overlong.choose_cases with ⟨directory, u, -, hchooses⟩ | ⟨failure, u, hchoose, hchooses⟩
    · cases hchooses with
      | found before after candidate split _ admits _ =>
        have hcandidate : candidate ∈ overlong.candidates := by simp [split]
        rw [List.mem_singleton.mp hcandidate] at admits
        exact absurd admits hlong
    · cases hchooses with
      | exhausted blocked => exact absurd (blocked [longName] (List.mem_singleton_self _)) hclear
      | refused | nested => exact ⟨_, congrArg Prod.fst hchoose⟩

end Environment
end ScriptLink
