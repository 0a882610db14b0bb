/-! Environments: names with their values. A copy shares the table of names with what it was copied
from until one of the two writes; a counter at each table tells how many environments share it. -/
namespace Terakoya

/-- Names in increasing order, each with its value. -/
abbrev Bindings (α : Type) := List (String × α)

namespace Bindings

variable {α : Type}

def get? (name : String) : Bindings α → Option α
  | [] => none
  | (key, value) :: rest => if name = key then some value else get? name rest

def set (name : String) (value : α) : Bindings α → Bindings α
  | [] => [(name, value)]
  | (key, old) :: rest =>
    if name < key then (name, value) :: (key, old) :: rest
    else if name = key then (name, value) :: rest
    else (key, old) :: set name value rest

def erase (name : String) : Bindings α → Bindings α
  | [] => []
  | (key, value) :: rest => if name = key then rest else (key, value) :: erase name rest

def names (b : Bindings α) : List String := b.map Prod.fst

end Bindings

/-- A table of names with the number of environments that share it. -/
structure Table (α : Type) where
  bindings : Bindings α
  refs : Nat

structure Tables (α : Type) where
  slots : Array (Table α) := #[]

/-- An environment: the number of its table, or none once it is released. -/
structure Environment where
  table : Option Nat
  deriving DecidableEq, Repr

namespace Environment

variable {α : Type}

def bindings (ts : Tables α) (e : Environment) : Bindings α :=
  match e.table.bind (ts.slots[·]?) with
  | some t => t.bindings
  | none => []

def get? (ts : Tables α) (e : Environment) (name : String) : Option α :=
  Bindings.get? name (e.bindings ts)

def has (ts : Tables α) (e : Environment) (name : String) : Bool := (e.get? ts name).isSome

def names (ts : Tables α) (e : Environment) : List String := Bindings.names (e.bindings ts)

def size (ts : Tables α) (e : Environment) : Nat := (e.bindings ts).length

end Environment

namespace Tables

variable {α : Type}

def add (ts : Tables α) (b : Bindings α) : Tables α × Environment :=
  let i := ts.slots.size
  (⟨ts.slots.push ⟨b, 1⟩⟩, ⟨some i⟩)

def new (ts : Tables α) : Tables α × Environment := ts.add []

def copy (ts : Tables α) (e : Environment) : Tables α × Environment :=
  match e.table with
  | some i => (⟨ts.slots.modify i fun t => { t with refs := t.refs + 1 }⟩, e)
  | none => (ts, e)

def trim (ts : Tables α) : Tables α :=
  match ts.slots.back? with
  | some t => if t.refs = 0 then ⟨ts.slots.pop⟩ else ts
  | none => ts

def release (ts : Tables α) (e : Environment) : Tables α × Environment :=
  match e.table with
  | some i => (trim ⟨ts.slots.modify i fun t => { t with refs := t.refs - 1 }⟩, ⟨none⟩)
  | none => (ts, e)

/-- An environment of its own before a write: a shared table is cloned. -/
def own (ts : Tables α) (e : Environment) : Tables α × Environment :=
  match e.table with
  | none => (ts, e)
  | some i =>
    match ts.slots[i]? with
    | none => (ts, e)
    | some t =>
      if t.refs ≤ 1 then (ts, e)
      else add ⟨ts.slots.modify i fun t => { t with refs := t.refs - 1 }⟩ t.bindings

def update (ts : Tables α) (e : Environment) (f : Bindings α → Bindings α) : Tables α :=
  match e.table with
  | some i => ⟨ts.slots.modify i fun t => { t with bindings := f t.bindings }⟩
  | none => ts

def set (ts : Tables α) (e : Environment) (name : String) (value : α) : Tables α × Environment :=
  let (ts, e) := ts.own e
  (ts.update e (Bindings.set name value), e)

/-- Removes a name; nothing is cloned if it is not there. -/
def erase (ts : Tables α) (e : Environment) (name : String) : Tables α × Environment :=
  if e.has ts name then
    let (ts, e) := ts.own e
    (ts.update e (Bindings.erase name), e)
  else (ts, e)

end Tables
end Terakoya
