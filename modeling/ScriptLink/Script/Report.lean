import ScriptLink.Script.Conversion

/-! # Reports of what was thrown

    A report has three texts: a name, a message and a stack. An object that has a name that is a string and a message
    gives them; its message and its stack are made text as far as they can be. Anything else is reported as an error
    without a stack whose message is its own text. Main statement: a report never fails. -/

namespace ScriptLink.Script

/-- A report of what was thrown. -/
structure Report where
  name : Units
  message : Units
  stack : Units
deriving DecidableEq, Inhabited

/-- The text of a value, or another text when asking for it throws. -/
def textOr (scripts : Scripts) (v : Value) (fallback : Units) : Run Units :=
  tryCatch (stringOf scripts v) fun _ => return fallback

/-- The name, the message and the stack that reading gives, one after the other, until one of them throws. -/
def Realm.errorParts (r : Realm) (ref : Ref) : Value × Value × Value :=
  match r.get ref (.ofString "name") with
  | .error _ => (.undefined, .undefined, .undefined)
  | .ok name =>
    match r.get ref (.ofString "message") with
    | .error _ => (name, .undefined, .undefined)
    | .ok message =>
      match r.get ref (.ofString "stack") with
      | .error _ => (name, message, .undefined)
      | .ok stack => (name, message, stack)

/-- The report of a value by its own text. -/
def plainReport (scripts : Scripts) (v : Value) : Run Report := do
  return ⟨.ofString "Error", ← textOr scripts v (.ofString "unknown error"), []⟩

/-- The stack that reading gave, if it is a text. -/
def stackText : Value → Units
  | .string stack => stack
  | _ => []

/-- The report of a thrown value. -/
def reportValue (scripts : Scripts) (v : Value) : Run Report := do
  match v with
  | .object ref =>
    match (← get).errorParts ref with
    | (.string _, .undefined, _) => plainReport scripts v
    | (.string name, message, stack) => return ⟨name, ← textOr scripts message [], stackText stack⟩
    | _ => plainReport scripts v
  | v => plainReport scripts v

/-- The stack of an error of the engine; of its frames only the first words are given. -/
def nativeStack (name message : Units) : Units :=
  name ++ Units.ofString ": " ++ message ++ Units.ofString "\n    at "

/-- The report of what was thrown. -/
def report (scripts : Scripts) : Thrown → Run Report
  | .value v => reportValue scripts v
  | .native kind message =>
    return ⟨kind.standardName.toUnits, message.toUnits, nativeStack kind.standardName.toUnits message.toUnits⟩

/-- A run that never throws, whatever realm it starts from. -/
def Settles {α : Type} (run : Run α) : Prop :=
  ∀ r, ∃ a r', run.run.run r = (.ok a, r')

theorem settles_pure {α : Type} (a : α) : Settles (pure a : Run α) :=
  fun r => ⟨a, r, rfl⟩

theorem settles_bind {α β : Type} {run : Run α} {next : α → Run β} (h : Settles run) (hn : ∀ a, Settles (next a)) :
    Settles (run >>= next) := fun r => by
  obtain ⟨a, r', ha⟩ := h r
  obtain ⟨b, r'', hb⟩ := hn a r'
  refine ⟨b, r'', ?_⟩
  rw [ExceptT.run_bind, StateT.run_bind, ha]
  exact hb

theorem settles_get : Settles (get : Run Realm) := fun r => ⟨r, r, rfl⟩

theorem settles_textOr (scripts : Scripts) (v : Value) (fallback : Units) : Settles (textOr scripts v fallback) := by
  intro r
  simp only [textOr, tryCatch, tryCatchThe, MonadExceptOf.tryCatch, ExceptT.tryCatch, ExceptT.run, ExceptT.mk,
    StateT.run_bind]
  rcases h : StateT.run (stringOf scripts v) r with ⟨thrown | text, r'⟩
  · exact ⟨fallback, r', rfl⟩
  · exact ⟨text, r', rfl⟩

theorem settles_plainReport (scripts : Scripts) (v : Value) : Settles (plainReport scripts v) :=
  settles_bind (settles_textOr scripts v _) fun _ => settles_pure _

/-- A report never fails: whatever was thrown, and whatever its own text throws, there is a report. -/
theorem settles_report (scripts : Scripts) (thrown : Thrown) : Settles (report scripts thrown) := by
  cases thrown with
  | native kind message => exact settles_pure _
  | value v =>
    simp only [report, reportValue]
    split
    · refine settles_bind settles_get fun r => ?_
      split
      · exact settles_plainReport scripts _
      · exact settles_bind (settles_textOr scripts _ _) fun _ => settles_pure _
      · exact settles_plainReport scripts _
    · exact settles_plainReport scripts _

end ScriptLink.Script
