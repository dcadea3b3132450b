import ScriptLink.Host.Comparison

/-! # Ranking

    Values are ranked from the greatest to the least; equal ones stay as they stand. Where two of them have to be
    compared and cannot be, there is no ranking. Which ones are compared is part of the rule: the values are taken
    from the last to the first, a run that is in order already is kept, and each further value is put into its place
    by halving. -/

namespace ScriptLink.Host

section
variable {α : Type}

/-- The rest of a run that goes down, or that never goes down, behind its last value; the run is held in reverse. -/
def extendRun (less? : α → α → Option Bool) (down : Bool) : (run : List α) → List α → Option (List α × List α)
  | run, [] => some (run, [])
  | [], rest => some ([], rest)
  | last :: run, next :: rest => do
    if (← less? next last) == down then extendRun less? down (next :: last :: run) rest
    else some (last :: run, next :: rest)

/-- The run at the beginning of a list, in increasing order, and what follows it. -/
def firstRun (less? : α → α → Option Bool) : List α → Option (List α × List α)
  | first :: second :: rest => do
    if ← less? second first then extendRun less? true [second, first] rest
    else
      let (run, rest) ← extendRun less? false [second, first] rest
      return (run.reverse, rest)
  | short => some (short, [])

/-- The place between `low` and `high` of a list in order where a value belongs; `below?` says whether it belongs
    below another, and the number bounds the halvings. -/
def placeAmong (below? : α → Option Bool) (sorted : List α) : Nat → (low high : Nat) → Option Nat
  | 0, low, _ => some low
  | steps + 1, low, high =>
    if low < high then
      let middle := (low + high) / 2
      match sorted[middle]? with
      | some other => do
        if ← below? other then placeAmong below? sorted steps low middle
        else placeAmong below? sorted steps (middle + 1) high
      | none => some low
    else some low

/-- A list in increasing order with one more value at its place, behind its equals. -/
def insertInOrder (less? : α → α → Option Bool) (sorted : List α) (x : α) : Option (List α) := do
  let place ← placeAmong (less? x) sorted sorted.length 0 sorted.length
  return sorted.insertIdx place x

/-- The values of a list in increasing order. -/
def sortBy? (less? : α → α → Option Bool) (values : List α) : Option (List α) := do
  let (run, rest) ← firstRun less? values
  rest.foldlM (insertInOrder less?) run

end

/-- The places of some values from the greatest to the least. -/
def ranking? (values : List Value) : Option (List Nat) := do
  let sorted ← sortBy? (fun a b : Value × Nat => a.1.before? true b.1) values.zipIdx.reverse
  return (sorted.map Prod.snd).reverse

end ScriptLink.Host
