import ScriptLink.Proofs.Construction
import ScriptLink.Proofs.Replies

/-! # Errors on their way

    Anything can be thrown, and asking it for its name, its message, its stack or its text may throw again. Main
    statement: whatever was thrown, a report of it crosses the link and becomes the error that what could be read of it
    calls for. -/

namespace ScriptLink

/-- The kind that the table of names gives: one of its own or, for any other name, the plain one. -/
def ScriptErrorKind.IsOf (name : Text) (kind : ScriptErrorKind) : Prop :=
  kind ∈ named ∧ kind.standardName = name ∨ (∀ other ∈ named, other.standardName ≠ name) ∧ kind = .plain

theorem ScriptErrorKind.isOf_ofName (name : Text) : IsOf name (ofName name) := by
  rcases h : named.find? fun kind => kind.standardName = name with _ | kind
  · have hplain : ofName name = .plain := by rw [ofName, h, Option.getD_none]
    refine .inr ⟨fun other hm hname => ?_, hplain⟩
    exact List.find?_eq_none.mp h other hm (decide_eq_true hname)
  · have hkind : ofName name = kind := by rw [ofName, h, Option.getD_some]
    have hname := List.find?_some h
    rw [hkind]
    exact .inl ⟨List.mem_of_find?_eq_some h, of_decide_eq_true hname⟩

/-- An error that says what a report says. -/
structure ScriptError.Tells (error : ScriptError) (name message stack : Text) : Prop where
  kind : ScriptErrorKind.IsOf name error.kind
  name : error.name = if name = [] then .ofString "Error" else name
  message : error.message = message
  stack : error.stack = stack

/-- An error of the kind that its name has in the table. -/
theorem ScriptError.tells_make (name message stack : Text) :
    (make (.ofName name) message stack name).Tells name message stack := by
  refine ⟨ScriptErrorKind.isOf_ofName name, ?_, rfl, rfl⟩
  by_cases hname : name = []
  · subst hname
    rfl
  · simp only [make, if_neg hname]

theorem ScriptError.Tells.eq_plain {error : ScriptError} {message stack : Text}
    (h : error.Tells (.ofString "Error") message stack) : error = ⟨.plain, .ofString "Error", message, stack⟩ := by
  obtain ⟨kind, name, words, trace⟩ := error
  obtain ⟨hkind, rfl, rfl, rfl⟩ := h
  rcases hkind with ⟨hm, hname⟩ | ⟨-, rfl⟩
  · exact absurd hname ((by decide : ∀ other ∈ ScriptErrorKind.named, other.standardName ≠ .ofString "Error") kind hm)
  · rfl

namespace Script
variable {r : Realm}

/-! ### What can be read of a thrown value -/

/-- The text of a value, or another one where asking for it throws. -/
def Realm.shown (r : Realm) (scripts : Scripts) (v : Value) (fallback : Units) : Units :=
  match ((stringOf scripts v).run r).1 with
  | .ok text => text
  | .error _ => fallback

/-- A stack that is read as a string, or nothing. -/
def Realm.HasStack (r : Realm) (ref : Ref) (stack : Units) : Prop :=
  r.get ref (.ofString "stack") = .ok (.string stack) ∨
    (∀ other, r.get ref (.ofString "stack") ≠ .ok (.string other)) ∧ stack = []

/-- An object whose name is read as a string and its message, after that, as something. -/
def Realm.HasMessage (r : Realm) (ref : Ref) (name : Units) (message : Value) : Prop :=
  r.get ref (.ofString "name") = .ok (.string name) ∧ r.get ref (.ofString "message") = .ok message ∧
    message ≠ .undefined

/-- The error that a thrown value calls for. -/
inductive Describes (scripts : Scripts) (r : Realm) : Thrown → ScriptError → Prop
  | native {kind : ScriptErrorKind} {message : Text} {error : ScriptError} (h : error.Tells
      kind.standardName.toUnits.toText message.toUnits.toText
      (nativeStack kind.standardName.toUnits message.toUnits).toText) : Describes scripts r (.native kind message) error
  | named {ref : Ref} {name stack : Units} {message : Value} {error : ScriptError} (hread : r.HasMessage ref name message)
      (hstack : r.HasStack ref stack) (h : error.Tells name.toText (r.shown scripts message []).toText stack.toText) :
      Describes scripts r (.value (.object ref)) error
  | unnamed {v : Value} (h : ∀ ref name message, v = .object ref → ¬ r.HasMessage ref name message) :
      Describes scripts r (.value v)
        ⟨.plain, .ofString "Error", (r.shown scripts v (.ofString "unknown error")).toText, []⟩

/-! ### The report -/

theorem run_textOr (scripts : Scripts) (r : Realm) (v : Value) (fallback : Units) :
    ∃ r', (textOr scripts v fallback).Gives r (r.shown scripts v fallback) r' := by
  change ∃ r', StateT.run (textOr scripts v fallback) r = _
  simp only [textOr, tryCatch, tryCatchThe, MonadExceptOf.tryCatch, ExceptT.tryCatch, ExceptT.mk, StateT.run_bind]
  rcases h : StateT.run (stringOf scripts v) r with ⟨thrown | text, r'⟩
  · have hstring : (stringOf scripts v).run r = (.error thrown, r') := h
    rw [Realm.shown, hstring]
    exact ⟨r', rfl⟩
  · have hstring : (stringOf scripts v).run r = (.ok text, r') := h
    rw [Realm.shown, hstring]
    exact ⟨r', rfl⟩

theorem plainReport_describes (scripts : Scripts) {v : Value}
    (h : ∀ ref name message, v = .object ref → ¬ r.HasMessage ref name message) :
    ∃ report r', (plainReport scripts v).Gives r report r' ∧ ∀ error : ScriptError,
      error.Tells report.name.toText report.message.toText report.stack.toText →
        Describes scripts r (.value v) error := by
  obtain ⟨r', hshown⟩ := run_textOr scripts r v (.ofString "unknown error")
  refine ⟨⟨_, _, _⟩, r', hshown.bind (Run.gives_pure _ _), fun error htells => ?_⟩
  rw [ScriptError.Tells.eq_plain htells]
  exact .unnamed h

theorem hasStack_of_get {ref : Ref} {stack : Value} (h : r.get ref (.ofString "stack") = .ok stack) :
    r.HasStack ref (stackText stack) := by
  by_cases hstring : ∃ us, stack = .string us
  · obtain ⟨us, rfl⟩ := hstring
    exact .inl h
  · refine .inr ⟨fun us hus => hstring ⟨us, Except.ok.inj (h.symm.trans hus)⟩, ?_⟩
    unfold stackText
    split
    · rename_i us
      exact absurd ⟨us, rfl⟩ hstring
    · rfl

/-- What the reads give: a name and a message, or something that is no such thing. -/
theorem errorParts_cases (r : Realm) (ref : Ref) :
    (∃ name message stack, r.HasMessage ref name message ∧ r.HasStack ref (stackText stack) ∧
      r.errorParts ref = (.string name, message, stack)) ∨
    (∀ name message, ¬ r.HasMessage ref name message) ∧
      ((∃ name stack, r.errorParts ref = (.string name, .undefined, stack)) ∨
        ∀ name, (r.errorParts ref).1 ≠ .string name) := by
  -- The reads come one after the other: the message is read only behind a name, and the stack behind both.
  rcases hname : r.get ref (.ofString "name") with thrown | name
  · refine .inr ⟨fun other message h => ?_, .inr fun other => ?_⟩
    · cases hname.symm.trans h.1
    · simp only [Realm.errorParts, hname]
      exact Value.noConfusion
  by_cases hstring : ∃ us, name = .string us
  · obtain ⟨us, rfl⟩ := hstring
    rcases hmessage : r.get ref (.ofString "message") with thrown | message
    · refine .inr ⟨fun other message h => ?_, .inl ⟨us, .undefined, ?_⟩⟩
      · cases hmessage.symm.trans h.2.1
      · simp only [Realm.errorParts, hname, hmessage]
    have hparts : ∃ stack, r.HasStack ref (stackText stack) ∧ r.errorParts ref = (.string us, message, stack) := by
      rcases hstack : r.get ref (.ofString "stack") with thrown | stack
      · refine ⟨.undefined, .inr ⟨fun other h => ?_, rfl⟩, ?_⟩
        · cases hstack.symm.trans h
        · simp only [Realm.errorParts, hname, hmessage, hstack]
      · refine ⟨stack, hasStack_of_get hstack, ?_⟩
        simp only [Realm.errorParts, hname, hmessage, hstack]
    obtain ⟨stack, hstack, hparts⟩ := hparts
    by_cases hdefined : message = .undefined
    · subst hdefined
      refine .inr ⟨fun other message h => ?_, .inl ⟨us, stack, hparts⟩⟩
      cases hmessage.symm.trans h.2.1
      exact h.2.2 rfl
    · exact .inl ⟨us, message, stack, ⟨hname, hmessage, hdefined⟩, hstack, hparts⟩
  · have hparts : (r.errorParts ref).1 = name := by
      simp only [Realm.errorParts, hname]
      repeat' split
      all_goals rfl
    refine .inr ⟨fun other message h => ?_, .inr fun other h => ?_⟩
    · exact hstring ⟨other, Except.ok.inj (hname.symm.trans h.1)⟩
    · exact hstring ⟨other, hparts.symm.trans h⟩

theorem report_describes (scripts : Scripts) (r : Realm) (thrown : Thrown) : ∃ report r',
    (Script.report scripts thrown).Gives r report r' ∧ ∀ error : ScriptError,
      error.Tells report.name.toText report.message.toText report.stack.toText → Describes scripts r thrown error := by
  cases thrown with
  | native kind message => exact ⟨_, r, rfl, fun error h => .native h⟩
  | value v =>
    by_cases hv : ∃ ref, v = .object ref
    · obtain ⟨ref, rfl⟩ := hv
      have hget : Run.Gives (get : Run Realm) r r r := rfl
      rcases errorParts_cases r ref with ⟨name, message, stack, hread, hstack, hparts⟩ | ⟨hnone, hparts⟩
      · obtain ⟨r', hshown⟩ := run_textOr scripts r message []
        refine ⟨⟨name, _, stackText stack⟩, r', hget.bind ?_, fun error h => .named hread hstack h⟩
        rw [hparts]
        split
        · rename_i heq
          exact absurd (congrArg (·.2.1) heq) hread.2.2
        · rename_i heq
          cases heq
          exact hshown.bind (Run.gives_pure _ _)
        · rename_i hne
          exact absurd rfl (hne name message stack)
      · obtain ⟨report, r', hreport, hdescribes⟩ := plainReport_describes (r := r) (v := .object ref) scripts (by
          rintro _ name message ⟨⟩
          exact hnone name message)
        refine ⟨report, r', hget.bind ?_, hdescribes⟩
        rcases hparts with ⟨name, stack, hparts⟩ | hparts
        · rw [hparts]
          exact hreport
        · split
          · exact hreport
          · rename_i heq
            exact absurd (congrArg Prod.fst heq) (hparts _)
          · exact hreport
    · obtain ⟨report, r', hreport, hdescribes⟩ := plainReport_describes (r := r) (v := v) scripts
        fun ref _ _ hobject => absurd ⟨ref, hobject⟩ hv
      refine ⟨report, r', ?_, hdescribes⟩
      rw [Script.report, reportValue]
      · exact hreport
      · exact fun ref hobject => hv ⟨ref, hobject⟩

/-! ### The report on the other side -/

theorem retold_report (report : Report) : Json.retold Layout.script.rereads report.toJson = report.toJson := by
  rw [Report.toJson, Wire.retold_jsonRecord _ ["name", "message", "stack"] rfl (by decide) (by decide)]
  simp only [List.map_cons, List.map_nil, Json.retold, Text.join_toText]

theorem read?_report (report : Report) :
    Json.read? Json.nestingLimit (Json.compact report.toJson) = some report.toJson := by
  have hfits : Json.Fits Json.nestingLimit report.toJson :=
    Json.Fits.mono _ (show 1 ≤ Json.nestingLimit by decide) ⟨trivial, trivial, trivial, trivial⟩
  have hread := (Json.spells_compact _ hfits).read?
  rwa [retold_report] at hread

/-- A report describes an error that tells what it says. -/
theorem ofEntries?_report (report : Report) : ∃ entries, Host.Value.ofJson report.toJson = .mapping .dict entries ∧
    ScriptError.ofEntries? entries = some (.make (.ofName report.name.toText) report.message.toText report.stack.toText
      report.name.toText) := by
  have hpart {label : String} {j : Json} (hm : (label, j) ∈ [("name", Json.text report.name.toText),
      ("message", .text report.message.toText), ("stack", .text report.stack.toText)]) :=
    lookup?_record ["name", "message", "stack"] rfl (by decide) hm
  refine ⟨_, by rw [Report.toJson, jsonRecord, Host.Value.ofJson], ?_⟩
  rw [ScriptError.ofEntries?, hpart List.mem_cons_self, hpart (List.mem_cons_of_mem _ List.mem_cons_self),
    hpart (List.mem_cons_of_mem _ (List.mem_cons_of_mem _ List.mem_cons_self))]
  rfl

theorem ofReport_describes (scripts : Scripts) (r : Realm) (thrown : Thrown) : ∃ report r',
    (Script.report scripts thrown).Gives r report r' ∧
      Describes scripts r thrown (.ofReport (.ofJson report.toJson)) := by
  obtain ⟨report, r', hreport, hdescribes⟩ := report_describes scripts r thrown
  obtain ⟨entries, hentries, herror⟩ := ofEntries?_report report
  refine ⟨report, r', hreport, ?_⟩
  rw [hentries, ScriptError.ofReport, herror]
  exact hdescribes _ (ScriptError.tells_make _ _ _)

/-- Whatever was thrown is reported without another throw, in three texts that are written, read and taken for a
    report, and the error that they become is the one that the thrown value calls for. -/
theorem thrown_crosses (scripts : Scripts) (r : Realm) (thrown : Thrown) : ∃ report r',
    (Script.report scripts thrown).run r = (.ok report, r') ∧ ∃ j entries,
      Json.read? Json.nestingLimit (Json.compact report.toJson) = some j ∧ Host.Value.ofJson j = .mapping .dict entries ∧
      (ScriptError.ofEntries? entries).isSome ∧ Describes scripts r thrown (.ofReport (.ofJson j)) := by
  obtain ⟨report, r', hreport, hdescribes⟩ := ofReport_describes scripts r thrown
  obtain ⟨entries, hentries, herror⟩ := ofEntries?_report report
  refine ⟨report, r', hreport, report.toJson, entries, read?_report report, hentries, ?_, hdescribes⟩
  rw [herror]
  rfl

end Script
end ScriptLink
