import ScriptLink.Number.Double
import ScriptLink.Text.CodePoint

/-! # JSON values

    What a line of the peer can spell. Numbers without fraction and exponent are exact integers, all others are
    doubles. The members of an object stand in order, each name once: a repeated name keeps its first place and takes
    the last value. -/

namespace ScriptLink

-- Powers of natural numbers are those of the language, also where others are in scope.
attribute [local instance (10000)] instPowNat

namespace Json

/-- The greatest number of digits that an integer may have where it is read or written. -/
def intDigitLimit : Nat := 4300

/-- Whether an integer has more digits than are ever read or written. -/
def isTooLong (n : Int) : Bool :=
  10 ^ intDigitLimit ≤ n.natAbs

/-- The wording about such an integer. -/
def tooLongMessage : Text :=
  .ofString "Exceeds the limit (" ++ .ofNat intDigitLimit ++ .ofString
    " digits) for integer string conversion; use sys.set_int_max_str_digits() to increase the limit"

end Json

/-- A list of named values, in order. -/
abbrev Members (α : Type) := List (Text × α)

namespace Members

/-- The value under a name. -/
def find? {α : Type} (members : Members α) (name : Text) : Option α :=
  (List.find? (fun member => member.1 = name) members).map Prod.snd

/-- The value put under the name: in the place of the name if it is there, at the end otherwise. -/
def insert {α : Type} (members : Members α) (name : Text) (value : α) : Members α :=
  match members with
  | [] => [(name, value)]
  | member :: rest => if member.1 = name then (name, value) :: rest else member :: insert rest name value

/-- The members put one after the other into an empty list. -/
def ofList {α : Type} (entries : List (Text × α)) : Members α :=
  entries.foldl (fun members entry => members.insert entry.1 entry.2) []

/-- The names, in order. -/
def names {α : Type} (members : Members α) : List Text :=
  members.map Prod.fst

theorem names_insert {α : Type} (members : Members α) (name : Text) (value : α) [Decidable (name ∈ members.names)] :
    (members.insert name value).names = if name ∈ members.names then members.names else members.names ++ [name] := by
  have named (members : Members α) (h : name ∈ members.names) : (members.insert name value).names = members.names := by
    induction members with
    | nil => cases h
    | cons member rest ih =>
      by_cases hm : member.1 = name
      · simp [insert, names, hm]
      · have h : name ∈ names rest := by simpa [names, Ne.symm hm] using h
        have ih : (insert rest name value).map Prod.fst = rest.map Prod.fst := ih h
        simp [insert, names, hm, ih]
  have unnamed (members : Members α) (h : name ∉ members.names) :
      (members.insert name value).names = members.names ++ [name] := by
    induction members with
    | nil => rfl
    | cons member rest ih =>
      simp only [names, List.map_cons, List.mem_cons, not_or] at h
      have ih : (insert rest name value).map Prod.fst = rest.map Prod.fst ++ [name] := ih h.2
      simp [insert, names, Ne.symm h.1, ih]
  split
  case isTrue h => exact named members h
  case isFalse h => exact unnamed members h

theorem find?_insert_self {α : Type} (members : Members α) (name : Text) (value : α) :
    (members.insert name value).find? name = some value := by
  induction members with
  | nil => simp [insert, find?]
  | cons member rest ih =>
    by_cases h : member.1 = name
    · simp [insert, h, find?]
    · have ih : (List.find? (fun member => member.1 = name) (insert rest name value)).map Prod.snd = _ := ih
      simp [insert, h, find?, ih]

end Members

/-- A JSON value. -/
inductive Json where
  | null
  | bool (b : Bool)
  | int (n : Int)
  | float (d : Double)
  | text (t : Text)
  | array (items : List Json)
  | object (members : List (Text × Json))
deriving Inhabited

end ScriptLink
