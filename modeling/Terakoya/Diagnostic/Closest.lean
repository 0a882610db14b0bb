import Terakoya.Text.LowerCase

/-! The nearest of some names, for a hint when a name is unknown. -/
namespace Terakoya.Closest

/-- From the row of distances of `a` to the prefixes of a text, the row of `c :: a`; `above` is the
row so far, `diagonal` and `left` the distances before the place in question. -/
def nextRow (c : Char) (diagonal left : Nat) : List Char → List Nat → List Nat
  | d :: b, up :: above =>
    let here := min (min (up + 1) (left + 1)) (diagonal + if c = d then 0 else 1)
    here :: nextRow c up here b above
  | _, _ => []

/-- The rows of distances, one for each character of `a`, the last one being the answer. -/
def rows (b : List Char) : (done : Nat) → (row : List Nat) → List Char → List Nat
  | _, row, [] => row
  | done, row, c :: a =>
    rows b (done + 1) ((done + 1) :: nextRow c done (done + 1) b row.tail) a

/-- The number of insertions, deletions and substitutions that turn `a` into `b`. -/
def distance (a b : List Char) : Nat :=
  ((rows b 0 (List.range (b.length + 1)) a).getLast?).getD 0

/-- How far a name may be for a hint: short names must be nearer. -/
def threshold (length : Nat) : Nat := if length < 4 then 1 else if length < 7 then 2 else 3

def best (name : List Char) : List String → Option (Nat × String)
  | [] => none
  | c :: rest =>
    let d := distance name (Text.lower c).toList
    match best name rest with
    | some (e, other) => if e < d then some (e, other) else some (d, c)
    | none => some (d, c)

/-- The candidate nearest to a name, the smallest of those equally near, unless it is the name
itself up to case or too far away. -/
def find? (name : String) (candidates : List String) : Option String :=
  if name.isEmpty then none
  else
    let lowered := (Text.lower name).toList
    match best lowered (candidates.mergeSort (· ≤ ·)) with
    | some (d, c) => if 0 < d ∧ d ≤ threshold lowered.length ∧ c ≠ "" then some c else none
    | none => none

end Terakoya.Closest
