import Terakoya.Machine.Value

/-! Equality of values: sequences are equal if their elements are, whether texts or lists; functions
only if they are the same. Two sequences being compared already count as equal, so that sequences
which contain themselves can be compared. -/
namespace Terakoya.Heap

abbrev Assumed := List (Nat × Nat)

def equalElements (equal : Assumed → Value → Value → Bool × Assumed) (assumed : Assumed) :
    List Value → List Value → Bool × Assumed
  | v :: vs, w :: ws =>
    match equal assumed v w with
    | (true, assumed) => equalElements equal assumed vs ws
    | (false, assumed) => (false, assumed)
  | _, _ => (true, assumed)

/-- Compares values, going down at most `depth` sequences. -/
def equalAt (h : Heap) : (depth : Nat) → Assumed → Value → Value → Bool × Assumed
  | _, assumed, .int m, .int n => (m = n, assumed)
  | _, assumed, .null, .null => (true, assumed)
  | _, assumed, .fn i, .fn j => (i = j, assumed)
  | depth, assumed, .seq i, .seq j =>
    match h.sequences[i]?, h.sequences[j]? with
    | some s, some t =>
      if s.elements.size ≠ t.elements.size then (false, assumed)
      else if i = j ∨ (i, j) ∈ assumed then (true, assumed)
      else
        match depth with
        | 0 => (true, assumed)
        | depth + 1 =>
          equalElements (equalAt h depth) ((i, j) :: assumed) s.elements.toList t.elements.toList
    | _, _ => (false, assumed)
  | _, assumed, _, _ => (false, assumed)

/-- Whether two values are equal. There are no more pairs of sequences to go down to than the square
of their number. -/
def equal (h : Heap) (v w : Value) : Bool :=
  (h.equalAt (h.sequences.size * h.sequences.size) [] v w).1

end Terakoya.Heap
