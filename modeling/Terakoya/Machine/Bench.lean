import Terakoya.Machine.Environment

/-! Several environments side by side, each under a handle. -/
namespace Terakoya

structure Bench (α : Type) where
  tables : Tables α := {}
  named : List (String × Environment) := []

inductive BenchStep (α : Type) where
  | new | release | names | size | dump
  | copy (target : String)
  | set (name : String) (value : α)
  | get (name : String)
  | has (name : String)
  | erase (name : String)

inductive BenchAnswer (α : Type) where
  | nothing
  | value (v : Option α)
  | flag (b : Bool)
  | names (l : List String)
  | count (n : Nat)
  | bindings (b : Bindings α)
  | unknown

namespace Bench

variable {α : Type}

def put (b : Bench α) (tables : Tables α) (handle : String) (e : Environment) : Bench α :=
  ⟨tables, (handle, e) :: b.named.filter (·.1 ≠ handle)⟩

/-- Carries out a request. A released environment loses its handle. -/
def step (b : Bench α) (handle : String) (s : BenchStep α) : BenchAnswer α × Bench α :=
  match s, b.named.lookup handle with
  | .new, _ =>
    let (tables, e) := b.tables.new
    (.nothing, b.put tables handle e)
  | _, none => (.unknown, b)
  | .release, some e =>
    let (tables, _) := b.tables.release e
    (.nothing, ⟨tables, b.named.filter (·.1 ≠ handle)⟩)
  | .names, some e => (.names (e.names b.tables), b)
  | .size, some e => (.count (e.size b.tables), b)
  | .dump, some e => (.bindings (e.bindings b.tables), b)
  | .copy target, some e =>
    let (tables, copied) := b.tables.copy e
    (.nothing, b.put tables target copied)
  | .set name v, some e =>
    let (tables, e) := b.tables.set e name v
    (.value (some v), b.put tables handle e)
  | .get name, some e => (.value (e.get? b.tables name), b)
  | .has name, some e => (.flag (e.has b.tables name), b)
  | .erase name, some e =>
    let (tables, e) := b.tables.erase e name
    (.nothing, b.put tables handle e)

end Bench
end Terakoya
