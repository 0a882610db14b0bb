import Terakoya.Machine.State
import Terakoya.Source.Identifier
import Terakoya.Text.Normal
import Terakoya.Text.Quoted

/-! Values bound before a program runs. A seed is data until it is planted: its lists and texts then
stand on a machine's heap, and every later binding of the seed shares them. -/
namespace Terakoya

inductive SeedValue where
  | int (n : Int)
  | null
  | text (s : String)
  | list (items : List SeedValue)

/-- Names in the order of their bytes, each with its value. -/
abbrev Seed := List (Text × SeedValue)

namespace Seed

/-- Whether a name comes before another by its bytes. -/
def before (a b : Text) : Bool := Text.encode a < Text.encode b

def set (name : Text) (value : SeedValue) : Seed → Seed
  | [] => [(name, value)]
  | (key, old) :: rest =>
    if name = key then (name, value) :: rest
    else if before name key then (name, value) :: (key, old) :: rest
    else (key, old) :: set name value rest

def has (name : Text) (s : Seed) : Bool := s.any (·.1 = name)

end Seed

mutual

def SeedValue.plant (h : Heap) : SeedValue → Heap × Value
  | .int n => (h, .int n)
  | .null => (h, .null)
  | .text s => h.addText s
  | .list items =>
    let (h, values) := SeedValue.plantAll h items
    h.addList values

def SeedValue.plantAll (h : Heap) : List SeedValue → Heap × List Value
  | [] => (h, [])
  | item :: rest =>
    let (h, v) := SeedValue.plant h item
    let (h, vs) := SeedValue.plantAll h rest
    (h, v :: vs)

end

abbrev Planted := List (Text × Value)

namespace Seed

def plant (h : Heap) : Seed → Heap × Planted
  | [] => (h, [])
  | (name, value) :: rest =>
    let (h, v) := value.plant h
    let (h, vs) := plant h rest
    (h, (name, v) :: vs)

end Seed

structure BadName where
  name : Text

def BadName.message (b : BadName) : String :=
  "seed name " ++ Text.quoted b.name ++ " is not a valid identifier"

namespace Planted

/-- The name under which a program finds a seeded value. -/
def bound (name : Text) : String := Text.toString (Text.normalize name)

def badName? (p : Planted) : Option BadName :=
  (p.find? fun (name, _) => !isIdentifier (Text.normalize name)).map fun (name, _) => ⟨name⟩

def bindAll (m : Machine) (p : Planted) : Machine :=
  p.foldl (fun m (name, v) => m.set (bound name) v) m

/-- Binds all values, or none if there is a bad name. -/
def apply (m : Machine) (p : Planted) : Except BadName Machine :=
  match p.badName? with
  | some b => .error b
  | none => .ok (p.bindAll m)

end Planted

namespace Machine

def plant (m : Machine) (s : Seed) : Machine × Planted :=
  let (heap, p) := s.plant m.heap
  ({ m with heap }, p)

def seeded (s : Seed) : Except BadName Machine :=
  let (m, p) := Machine.empty.plant s
  p.apply m

end Machine
end Terakoya
