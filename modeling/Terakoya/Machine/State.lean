import Terakoya.Machine.Duration
import Terakoya.Machine.Environment
import Terakoya.Machine.Fault
import Terakoya.Machine.Render

/-! The state of a run and what surrounds it. -/
namespace Terakoya

structure Stats where
  increments : Nat := 0
  decrements : Nat := 0
  comparisons : Nat := 0
  deriving DecidableEq, Repr

structure Frame where
  name : String
  args : List Value
  source : Text
  offset : Nat

/-- A value that was shown: what was printed for it then, and the calls active then, the outermost
first, if these are asked for. -/
structure Shown where
  value : Value
  line : String
  calls : List String

structure Host where
  maxDepth : Nat := 10000
  /-- The element that the i-th random pick takes among n. -/
  random : Nat → Nat → Nat := fun _ _ => 0
  /-- Stops the run once so many values are shown. -/
  stopAfter : Option Nat := none
  cancelled : Bool := false
  /-- The time a run may take, in nanoseconds; no limit unless positive. -/
  budget : Int := 0
  /-- The time that has passed when a run looks at the clock, by how often it did so before. -/
  clock : Nat → Nat := fun looks => 100 * (looks + 1)
  /-- How many rounds an unbounded loop is followed for. -/
  horizon : Nat := 9223372036854775807
  /-- Whether the active calls are noted with each value shown. -/
  notesCalls : Bool := false

structure Machine where
  heap : Heap := {}
  tables : Tables Value := {}
  scope : Environment := ⟨none⟩
  stats : Stats := {}
  /-- The active calls, the innermost first. -/
  frames : List Frame := []
  shown : Array Shown := #[]
  /-- For each random pick the number of elements to choose from. -/
  picks : Array Nat := #[]
  /-- How often the clock was looked at. -/
  looks : Nat := 0
  stopped : Bool := false

inductive Halt where
  | failed (e : RuntimeError)
  /-- Something was not there that always is. -/
  | stuck
  /-- An unbounded loop was followed as far as asked. -/
  | unfinished

abbrev Run := EStateM Halt Machine

namespace Machine

def empty : Machine :=
  let (tables, scope) := Tables.new {}
  { tables, scope }

def get? (m : Machine) (name : String) : Option Value := m.scope.get? m.tables name

def names (m : Machine) : List String := m.scope.names m.tables

def set (m : Machine) (name : String) (v : Value) : Machine :=
  let (tables, scope) := m.tables.set m.scope name v
  { m with tables, scope }

def dump (m : Machine) : List (String × String × String) :=
  (m.scope.bindings m.tables).map fun (name, v) => (name, v.typeName, m.heap.literal v)

def showFrame (h : Heap) (f : Frame) : String :=
  f.name ++ "(" ++ ", ".intercalate (f.args.map h.describe) ++ ") at line " ++
    toString (Location.ofOffset f.source f.offset).line

def traceLength : Nat := 10

/-- The active calls, the innermost first; of many only the innermost and the number of the rest. -/
def trace (m : Machine) : List String :=
  let shown := (m.frames.take traceLength).map (showFrame m.heap)
  let more := m.frames.length - traceLength
  if more = 0 then shown else shown ++ [s!"… {more} more"]

def output (m : Machine) : String :=
  String.join (m.shown.toList.map fun s => s.line ++ "\n")

/-- The values shown as they print now. -/
def reprinted (m : Machine) : String :=
  String.join (m.shown.toList.map fun s => m.heap.printed s.value ++ "\n")

/-- Forgets counters, calls, the stop and the clock, as at the beginning of a run. -/
def restart (m : Machine) : Machine :=
  { m with stats := {}, frames := [], looks := 0, stopped := false }

def clearShown (m : Machine) : Machine := { m with shown := #[] }

end Machine
end Terakoya
