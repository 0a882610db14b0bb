/-! Tables over code points: search trees of disjoint ranges, in increasing order. -/
namespace Terakoya.Text

/-- The image of a range: every `step`-th character of it moves, the first one to `target`. -/
structure Run where
  step : Nat
  target : Nat

inductive CodeMap (α : Type) where
  | leaf
  | node (left : CodeMap α) (first last : Nat) (value : α) (right : CodeMap α)

namespace CodeMap

/-- A range between two tables, given by its first code point and how many it holds. -/
abbrev ranged (left : CodeMap Unit) (e : Nat × Nat) (right : CodeMap Unit) : CodeMap Unit :=
  node left e.1 (e.1 + e.2 - 1) () right

abbrev valued {α : Type} (left : CodeMap α) (e : Nat × Nat × α) (right : CodeMap α) : CodeMap α :=
  node left e.1 (e.1 + e.2.1 - 1) e.2.2 right

abbrev moved (left : CodeMap Run) (e : Nat × Nat × Nat × Nat) (right : CodeMap Run) : CodeMap Run :=
  node left e.1 (e.1 + e.2.1 - 1) ⟨e.2.2.1, e.2.2.2⟩ right

abbrev pointed {α : Type} (left : CodeMap α) (e : Nat × α) (right : CodeMap α) : CodeMap α :=
  node left e.1 e.1 e.2 right

section Balanced

variable {α ε : Type} (join : CodeMap α → ε → CodeMap α → CodeMap α)

/-! A few entries in increasing order, as a balanced tree. -/

abbrev three (a b c : ε) : CodeMap α := join (join leaf a leaf) b (join leaf c leaf)

abbrev seven (a b c d e f g : ε) : CodeMap α := join (three join a b c) d (three join e f g)

abbrev fifteen (a b c d e f g h i j k l m n o : ε) : CodeMap α :=
  join (seven join a b c d e f g) h (seven join i j k l m n o)

end Balanced

section Rows

variable {α : Type} (n : Nat)

/-! Values of code points that follow each other, from `n` on. -/

abbrev row3 (a b c : α) : CodeMap α := three pointed (n, a) (n + 1, b) (n + 2, c)

abbrev row7 (a b c d e f g : α) : CodeMap α := pointed (row3 n a b c) (n + 3, d) (row3 (n + 4) e f g)

abbrev row15 (a b c d e f g h i j k l m n' o : α) : CodeMap α :=
  pointed (row7 n a b c d e f g) (n + 7, h) (row7 (n + 8) i j k l m n' o)

abbrev lone3 (a b c : α) : CodeMap (List α) := row3 n [a] [b] [c]

abbrev lone7 (a b c d e f g : α) : CodeMap (List α) := row7 n [a] [b] [c] [d] [e] [f] [g]

abbrev lone15 (a b c d e f g h i j k l m n' o : α) : CodeMap (List α) :=
  row15 n [a] [b] [c] [d] [e] [f] [g] [h] [i] [j] [k] [l] [m] [n'] [o]

end Rows

def find? {α : Type} (n : Nat) : CodeMap α → Option (Nat × α)
  | leaf => none
  | node left first last value right =>
    if n < first then left.find? n else if n ≤ last then some (first, value) else right.find? n

def value? {α : Type} (m : CodeMap α) (n : Nat) : Option α := (m.find? n).map Prod.snd

def contains {α : Type} (m : CodeMap α) (n : Nat) : Bool := (m.find? n).isSome

def all {α : Type} (p : Nat → Nat → α → Bool) : CodeMap α → Bool
  | leaf => true
  | node left first last value right => left.all p && p first last value && right.all p

end CodeMap

def CodeMap.shift (m : CodeMap Run) (c : Char) : Char :=
  match m.find? c.toNat with
  | none => c
  | some (first, run) =>
    if (c.toNat - first) % run.step = 0 then Char.ofNat (run.target + (c.toNat - first)) else c

end Terakoya.Text
