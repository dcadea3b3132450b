import ScriptLink.Host.Ranking
import ScriptLink.Number.Layout
import ScriptLink.Text.Quoted

/-! # How values show themselves in messages

    A value is shown the way it would be written down: texts in quotes, floats with their shortest digits, lists in
    brackets, tuples in parentheses, mappings in braces under the name of their kind. A container met again inside
    itself is shown as its brackets around three points. Showing a value takes calls inside one another, so that the
    room on the stack bounds how deep a value may be. -/

namespace ScriptLink.Host

/-- The texts with a comma and a space between each two. -/
def commaSeparated (parts : List Text) : Text :=
  Text.intercalate (.ofString ", ") parts

/-- A text between two others. -/
def enclosed (before after : String) (content : Text) : Text :=
  .ofString before ++ content ++ .ofString after

/-- How a scalar shows itself. -/
def Scalar.display : Scalar → Text
  | .none => .ofString "None"
  | .bool true => .ofString "True"
  | .bool false => .ofString "False"
  | .int n subclass => (subclass.bind Subclass.display).getD (Text.ofInt n)
  | .float d subclass => (subclass.bind Subclass.display).getD (Layout.host.write d)
  | .text t _ => Quoted.text t
  | .bytes bs => Quoted.bytes bs
  | .marker => .ofString "<ComplexObject>"
  | .foreign object => object.display

/-- How a sequence shows itself, given how its items do. A tuple of one item keeps a comma. -/
def SequenceKind.display : SequenceKind → List Text → Text
  | .list, items | .listSubclass _, items => enclosed "[" "]" (commaSeparated items)
  | .tuple, [item] => enclosed "(" ",)" item
  | .tuple, items => enclosed "(" ")" (commaSeparated items)
  | .record name fields, items =>
    name ++ enclosed "(" ")" (commaSeparated (List.zipWith (fun field item => field ++ 0x3D :: item) fields items))

/-- Entries of a mapping in braces. -/
def braced (entries : List (Text × Text)) : Text :=
  enclosed "\x7b" "\x7d" (commaSeparated (entries.map fun entry => entry.1 ++ .ofString ": " ++ entry.2))

/-- How a mapping shows itself, given how its keys and values do. -/
def MappingKind.display : MappingKind → List (Text × Text) → Text
  | .dict, entries | .wrapped, entries => braced entries
  | .ordered, [] => .ofString "OrderedDict()"
  | .ordered, entries =>
    enclosed "OrderedDict([" "])"
      (commaSeparated (entries.map fun entry => enclosed "(" ")" (commaSeparated [entry.1, entry.2])))
  | .defaulting, entries => enclosed "defaultdict(<class 'int'>, " ")" (braced entries)
  | .counting, [] => .ofString "Counter()"
  | .counting, entries => enclosed "Counter(" ")" (braced entries)
  | .readOnly, entries => enclosed "mappingproxy(" ")" (braced entries)
  | .chained, entries => enclosed "ChainMap(" ")" (braced entries)

/-- Braces around three points. -/
def bracedAgain : String := "\x7b...\x7d"

/-- How a container met again inside itself shows itself. -/
def Shape.displayAgain : Shape → Text
  | .sequence kind => if kind.isList then .ofString "[...]" else .ofString "(...)"
  | .mapping .dict | .mapping .wrapped => .ofString bracedAgain
  | .mapping .defaulting => enclosed "defaultdict(<class 'int'>, " ")" (.ofString bracedAgain)
  | .mapping .readOnly => enclosed "mappingproxy(" ")" (.ofString bracedAgain)
  | .mapping _ => .ofString "..."

/-- The places of a counting mapping's entries in the order in which they are shown: from the greatest count to the
    least, and as they stand where the counts cannot be compared. -/
def countOrder (entries : List (Value × Value)) : List Nat :=
  (ranking? (entries.map Prod.snd)).getD (List.range entries.length)

mutual

/-- How a value shows itself. -/
def Value.display : Value → Text
  | .scalar s => s.display
  | .sequence kind items => kind.display (displayItems items)
  | .mapping .counting entries =>
    let shown := displayEntries entries
    MappingKind.counting.display ((countOrder entries).filterMap fun place => shown[place]?)
  | .mapping kind entries => kind.display (displayEntries entries)
  | .again shape | .beyond shape => shape.displayAgain

/-- How the items of a sequence show themselves. -/
def displayItems : List Value → List Text
  | [] => []
  | item :: rest => item.display :: displayItems rest

/-- How the keys and values of a mapping show themselves. -/
def displayEntries : List (Value × Value) → List (Text × Text)
  | [] => []
  | (key, value) :: rest => (key.display, value.display) :: displayEntries rest

end

/-- Why a value cannot be shown. -/
inductive Unshown where
  /-- It holds itself, and nothing notices. -/
  | endless
  /-- It takes more calls inside one another than the stack has room for. -/
  | tooDeep
  /-- An integer in it has more digits than are ever written. -/
  | tooLong
  /-- An object in it raises an error of its own. -/
  | complains (complaint : Complaint)
deriving DecidableEq

namespace Unshown

/-- The wording of the reason. -/
def message : Unshown → Text
  | .endless => .ofString "maximum recursion depth exceeded"
  | .tooDeep => .ofString "maximum recursion depth exceeded while getting the repr of an object"
  | .tooLong => Json.tooLongMessage
  | .complains complaint => complaint.words

/-- Whether the stack is what did not suffice. -/
def exhausts : Unshown → Bool
  | .endless | .tooDeep => true
  | .tooLong | .complains _ => false

end Unshown

/-- The calls inside one another that a scalar takes to show itself. -/
def Scalar.calls : Scalar → Nat
  | .text _ .wrapped => 4
  | .int _ (some ⟨_, some _⟩) | .float _ (some ⟨_, some _⟩) => 3
  | .marker => 2
  | _ => 1

/-- The calls inside one another that a container of this shape takes until the parts in it show themselves. -/
def Shape.calls : Shape → Nat
  | .sequence (.record _ _) | .mapping .readOnly => 2
  | .sequence _ | .mapping .dict | .mapping .defaulting => 1
  | .mapping .ordered | .mapping .counting => 3
  | .mapping .wrapped => 4
  | .mapping .chained => 6

/-- What keeps a scalar from being shown, however much room there is. -/
def Scalar.unshown? : Scalar → Option Unshown
  | .int n .none | .int n (some ⟨_, .none⟩) => if Json.isTooLong n then some .tooLong else .none
  | .foreign object => object.complaint.map .complains
  | _ => .none

mutual

/-- What keeps a value from being shown where the stack has room for `room` more calls, if anything. -/
def Value.unshown? (room : Nat) : Value → Option Unshown
  | .scalar s => if room < s.calls then some .tooDeep else s.unshown?
  | .sequence kind items =>
    if room < (Shape.sequence kind).calls then some .tooDeep else itemsUnshown? (room - (Shape.sequence kind).calls) items
  | .mapping kind entries =>
    if room < (Shape.mapping kind).calls then some .tooDeep
    else entriesUnshown? (room - (Shape.mapping kind).calls) entries
  | .again shape =>
    if room < shape.calls then some .tooDeep else if shape.guards then none else some .endless
  | .beyond _ => some .tooDeep

/-- What keeps the items of a sequence from being shown. -/
def itemsUnshown? (room : Nat) : List Value → Option Unshown
  | [] => none
  | item :: rest => (item.unshown? room).or (itemsUnshown? room rest)

/-- What keeps the entries of a mapping from being shown. -/
def entriesUnshown? (room : Nat) : List (Value × Value) → Option Unshown
  | [] => none
  | (key, value) :: rest => ((key.unshown? room).or (value.unshown? room)).or (entriesUnshown? room rest)

end

theorem itemsUnshown?_eq_none {room : Nat} {items : List Value} :
    itemsUnshown? room items = none ↔ ∀ item ∈ items, item.unshown? room = none := by
  induction items with
  | nil => simp [itemsUnshown?]
  | cons item rest ih => simp [itemsUnshown?, ih]

theorem entriesUnshown?_eq_none {room : Nat} {entries : List (Value × Value)} :
    entriesUnshown? room entries = none ↔
      ∀ entry ∈ entries, entry.1.unshown? room = none ∧ entry.2.unshown? room = none := by
  induction entries with
  | nil => simp [entriesUnshown?]
  | cons entry rest ih => simp [entriesUnshown?, ih]

/-- A value that is too deep for the room inside a sequence keeps the sequence from being shown. -/
theorem unshown?_singleton {room : Nat} {kind : SequenceKind} {value : Value}
    (h : value.unshown? (room - (Shape.sequence kind).calls) = some .tooDeep) :
    (Value.sequence kind [value]).unshown? room = some .tooDeep := by
  rw [Value.unshown?]
  split
  · rfl
  · rw [itemsUnshown?, h, Option.some_or]

/-- The text of a value as a message: strings and integers themselves, and most other values as they show
    themselves. -/
def Value.message : Value → Text
  | .scalar (.text t _) => t
  | .scalar (.int n _) => .ofInt n
  | .scalar (.foreign object) => object.words
  | value => value.display

end ScriptLink.Host
