import ScriptLink.Proofs.Crossing

/-! # Records and replies

    Whatever a reply says stands under one name in its payload, beside its type and the id of the request. Main
    statements: what is found in a record, and what a reply is read back as. -/

namespace ScriptLink.Script

/-- A member of a record whose names are different. -/
theorem find?_record {fields : List (String × Json)} (names : List String) (hnames : fields.map Prod.fst = names)
    (hdistinct : (names.map Text.ofString).Nodup) {name : String} {j : Json} (h : (name, j) ∈ fields) :
    Members.find? (fields.map fun field => (Text.ofString field.1, field.2)) (.ofString name) = some j := by
  subst hnames
  refine Members.find?_of_mem ?_ (List.mem_map_of_mem (f := fun field : String × Json => (Text.ofString field.1, field.2)) h)
  rw [List.map_map] at hdistinct
  rw [Members.names, List.map_map]
  exact hdistinct

/-- A member of a record, when the caller looks it up. -/
theorem lookup?_record {fields : List (String × Json)} (names : List String) (hnames : fields.map Prod.fst = names)
    (hdistinct : (names.map Text.ofString).Nodup) {name : String} {j : Json} (h : (name, j) ∈ fields) :
    Host.lookup? (Host.ofJsonMembers (fields.map fun field => (Text.ofString field.1, field.2))) (.ofString name) =
      some (.ofJson j) := by
  rw [Host.lookup?_ofJsonMembers, find?_record names hnames hdistinct h, Option.map_some]

/-- A reply of some type that says one thing. -/
def answer (type label : String) (part : Json) (id : Text) : Json :=
  jsonRecord [("type", .text (.ofString type)), ("payload", jsonRecord [(label, part)]), ("event_id", .text id)]

variable {type label : String} {part : Json} {room : Nat}

theorem fits_answer (h : Json.Fits room part) (id : Text) : Json.Fits (room + 2) (answer type label part id) :=
  ⟨trivial, ⟨h, trivial⟩, trivial, trivial⟩

theorem retold_answer (htype : (Text.ofString type).join = .ofString type)
    (hlabel : (Text.ofString label).join = .ofString label) (numeral : Double → Json) (part : Json) (id : Text) :
    Json.retold numeral (answer type label part id) = answer type label (Json.retold numeral part) id.join := by
  rw [answer, Wire.retold_jsonRecord _ ["type", "payload", "event_id"] rfl (by decide) (by decide)]
  simp only [List.map_cons, List.map_nil]
  rw [Wire.retold_jsonRecord _ [label] rfl (List.forall_mem_singleton.mpr hlabel) (List.nodup_singleton _)]
  simp only [List.map_cons, List.map_nil, Json.retold, htype]
  rfl

end ScriptLink.Script
