import Terakoya.Text.Glyph
import Terakoya.Tree

/-! Values, and the heap that holds what can be shared: sequences, which change in place, and
functions, which are told apart by identity. -/
namespace Terakoya

inductive Value where
  | int (n : Int)
  /-- `?` -/
  | null
  | seq (id : Nat)
  | fn (id : Nat)
  deriving DecidableEq, Repr

structure Sequence where
  elements : Array Value
  isText : Bool

structure Function where
  /-- The name it was first assigned to. -/
  name : Option String
  params : List String
  body : Block
  /-- The text that the body was read from. -/
  source : Text

structure Heap where
  sequences : Array Sequence := #[]
  functions : Array Function := #[]

namespace Heap

def addSequence (h : Heap) (s : Sequence) : Heap × Value :=
  let id := h.sequences.size
  ({ h with sequences := h.sequences.push s }, .seq id)

def addFunction (h : Heap) (f : Function) : Heap × Value :=
  let id := h.functions.size
  ({ h with functions := h.functions.push f }, .fn id)

def addText (h : Heap) (s : String) : Heap × Value :=
  h.addSequence ⟨(s.toList.map fun c => .int c.toNat).toArray, true⟩

def addList (h : Heap) (elements : List Value) : Heap × Value :=
  h.addSequence ⟨elements.toArray, false⟩

def push (h : Heap) (id : Nat) (v : Value) : Heap :=
  { h with sequences := h.sequences.modify id fun s => { s with elements := s.elements.push v } }

def set (h : Heap) (id index : Nat) (v : Value) : Heap :=
  { h with
    sequences := h.sequences.modify id fun s => { s with elements := s.elements.setIfInBounds index v } }

def length (h : Heap) (id : Nat) : Nat :=
  match h.sequences[id]? with
  | some s => s.elements.size
  | none => 0

end Heap
end Terakoya
