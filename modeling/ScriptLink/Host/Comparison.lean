import ScriptLink.Host.Value

/-! # Comparing values

    Equality goes by content, whatever the classes: numbers are equal by value, texts and sets by what they hold,
    sequences place by place, mappings entry by entry. Order is only known between values of a sort: numbers with
    numbers, texts with texts, sequences with sequences. Two numbers of which one is not a number, or two sets of
    which none holds the other, have an order in neither direction; for values of different sorts the question itself
    makes no sense, and `before?` has no answer. -/

namespace ScriptLink.Host

/-- A number by its value. -/
inductive Quantity where
  | ratio (numerator : Int) (denominator : Nat)
  | infinite (negative : Bool)
  | nan

namespace Quantity

/-- The value of a double. -/
def ofDouble : Double → Quantity
  | .nan => .nan
  | .signed negative magnitude =>
    let units : Nat := unitsOfCode magnitude.val
    if magnitude.val = infinityCode then .infinite negative
    else .ratio (if negative then -units else units) unitsPerOne

/-- How two numbers stand to each other; there is no answer for what is not a number. -/
def compare? : Quantity → Quantity → Option Ordering
  | .nan, _ | _, .nan => none
  | .infinite m, .infinite n => some (if m = n then .eq else if m then .lt else .gt)
  | .infinite m, .ratio _ _ => some (if m then .lt else .gt)
  | .ratio _ _, .infinite n => some (if n then .gt else .lt)
  | .ratio m d, .ratio n e => some (compare (m * e) (n * d))

end Quantity

/-- Whether all members of one set are members of another. -/
def within (members others : List Int) : Bool :=
  members.all others.contains

/-- Whether an order lets something stand before another thing, or at its place unless `strict`. -/
def admits (strict : Bool) : Option Ordering → Bool
  | some .lt => true
  | some .eq => !strict
  | _ => false

namespace Scalar

/-- The number that a scalar counts as; the truth values count as 0 and 1. -/
def quantity? : Scalar → Option Quantity
  | .bool b => some (.ratio (if b then 1 else 0) 1)
  | .int n _ => some (.ratio n 1)
  | .float d _ => some (.ofDouble d)
  | .foreign object =>
    match object.substance with
    | .ratio numerator denominator => some (.ratio numerator denominator)
    | _ => Option.none
  | _ => Option.none

/-- Equality of scalars by content. -/
def equal (a b : Scalar) : Bool :=
  match a.quantity?, b.quantity? with
  | some m, some n => m.compare? n == some .eq
  | Option.none, Option.none =>
    match a, b with
    | .text s _, .text t _ => s == t
    | .foreign s, .foreign t =>
      match s.substance, t.substance with
      | .set ms, .set ns => within ms ns && within ns ms
      | _, _ => s == t
    | a, b => a == b
  | _, _ => false

/-- Whether a scalar stands before another, or at its place unless `strict`. -/
def before? (a : Scalar) (strict : Bool) (b : Scalar) : Option Bool :=
  match a.quantity?, b.quantity? with
  | some m, some n => some (admits strict (m.compare? n))
  | Option.none, Option.none =>
    match a, b with
    | .text s _, .text t _ => some (admits strict (some (compare s t)))
    | .bytes s, .bytes t => some (admits strict (some (compare s t)))
    | .foreign s, .foreign t =>
      match s.substance, t.substance with
      | .set ms, .set ns => some (within ms ns && !(strict && within ns ms))
      | _, _ => Option.none
    | _, _ => Option.none
  | _, _ => Option.none

end Scalar

/-- The count of what was not counted. -/
def noCount : Scalar := .int 0 Option.none

/-- Whether a count is that of what was not counted. -/
def isNoCount : Value → Bool
  | .scalar count => noCount.equal count
  | _ => false

mutual

/-- Equality of values by content; counting mappings are equal when all their counts are. -/
def Value.equal : Value → Value → Bool
  | .scalar a, .scalar b => a.equal b
  | .sequence j xs, .sequence k ys => j.isList == k.isList && itemsEqual xs ys
  | .mapping .counting xs, .mapping .counting ys =>
    countsEqual xs ys && ys.all fun other => hasKey xs other.1 || isNoCount other.2
  | .mapping _ xs, .mapping _ ys => xs.length == ys.length && entriesWithin xs ys
  | _, _ => false

/-- Equality of the items of two sequences, place by place. -/
def itemsEqual : List Value → List Value → Bool
  | [], [] => true
  | x :: xs, y :: ys => x.equal y && itemsEqual xs ys
  | _, _ => false

/-- Whether each entry of one mapping has its equal in another. -/
def entriesWithin : List (Value × Value) → List (Value × Value) → Bool
  | [], _ => true
  | (key, value) :: rest, others =>
    (others.any fun other => key.equal other.1 && value.equal other.2) && entriesWithin rest others

/-- Whether each count of one mapping is the count in another. -/
def countsEqual : List (Value × Value) → List (Value × Value) → Bool
  | [], _ => true
  | (key, count) :: rest, others =>
    (match others.find? fun other => key.equal other.1 with
      | some other => count.equal other.2
      | Option.none => isNoCount count) && countsEqual rest others

/-- Whether a mapping has an entry under a key. -/
def hasKey : List (Value × Value) → Value → Bool
  | [], _ => false
  | (key, _) :: rest, other => key.equal other || hasKey rest other

end

/-- Whether all of some answers are yes, asked for one after the other up to the first that is not. -/
def allOf? : List (Option Bool) → Option Bool
  | [] => some true
  | some true :: rest => allOf? rest
  | answer :: _ => answer

/-- The count under a key of a counting mapping. -/
def countOf (entries : List (Value × Value)) (key : Value) : Value :=
  (entries.find? fun entry => entry.1.equal key).elim (.scalar noCount) Prod.snd

/-- Whether what was not counted in one mapping is at most the count in another, one answer for each. -/
def uncountedBefore (xs ys : List (Value × Value)) : List (Option Bool) :=
  (ys.filter fun other => !hasKey xs other.1).map fun other =>
    match other.2 with
    | .scalar count => noCount.before? false count
    | _ => Option.none

mutual

/-- Whether a value stands before another, or at its place unless `strict`. Sequences are ordered by the first place
    where they differ, and counting mappings by all their counts at once. -/
def Value.before? : Value → (strict : Bool) → Value → Option Bool
  | .scalar a, strict, .scalar b => a.before? strict b
  | .sequence j xs, strict, .sequence k ys =>
    if j.isList = k.isList then itemsBefore? xs strict ys else Option.none
  | .mapping .counting xs, strict, .mapping .counting ys =>
    (allOf? (countsBefore xs ys ++ uncountedBefore xs ys)).map fun within =>
      within && !(strict && (Value.mapping .counting xs).equal (.mapping .counting ys))
  | _, _, _ => Option.none

/-- Whether the items of a sequence stand before those of another. -/
def itemsBefore? : List Value → (strict : Bool) → List Value → Option Bool
  | [], strict, [] => some !strict
  | [], _, _ :: _ => some true
  | _ :: _, _, [] => some false
  | x :: xs, strict, y :: ys => if x.equal y then itemsBefore? xs strict ys else x.before? strict y

/-- Whether the counts of one mapping are at most those of another, one answer for each. -/
def countsBefore : List (Value × Value) → List (Value × Value) → List (Option Bool)
  | [], _ => []
  | (key, count) :: rest, others => count.before? false (countOf others key) :: countsBefore rest others

end

/-- The entries after an assignment: an equal key keeps its place and its object and takes the new value. -/
def assign {α : Type} (entries : List (Value × α)) (key : Value) (value : α) : List (Value × α) :=
  match entries with
  | [] => [(key, value)]
  | entry :: rest =>
    if entry.1.equal key then (entry.1, value) :: rest else entry :: assign rest key value

end ScriptLink.Host
