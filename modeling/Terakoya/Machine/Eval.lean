import Terakoya.Machine.Equality
import Terakoya.Machine.State

/-! Evaluation. Expressions give values; statements go on, answer or leave a loop. Names are looked
up in the environment of the caller: a call runs in a copy of it. -/
namespace Terakoya

inductive Flow where
  | next
  | answered (value : Value) (span : Span)
  | left (span : Span)

inductive Slot where
  | name (name : String)
  | element (id index : Nat)
  | tail (id : Nat)

structure CallSite where
  name : String
  span : Span
  source : Text

/-- What evaluation is given: the surroundings, the text that spans refer to, and how calls are
carried out. -/
structure Context where
  host : Host
  source : Text
  invoke : CallSite → Function → List Value → Run Value

namespace Run

variable {α : Type}

def stuck : Run α := fun m => .error .stuck m

def raiseAt (source : Text) (offset : Nat) (fault : RuntimeFault) : Run α := fun m =>
  .error (.failed { fault, location := Location.ofOffset source offset, trace := m.trace }) m

def raiseWith (source : Text) (offset : Nat) (fault : Heap → RuntimeFault) : Run α := fun m =>
  raiseAt source offset (fault m.heap) m

def newText (s : String) : Run Value := fun m =>
  let (heap, v) := m.heap.addText s
  .ok v { m with heap }

def newList (vs : List Value) : Run Value := fun m =>
  let (heap, v) := m.heap.addList vs
  .ok v { m with heap }

def newFunction (f : Function) : Run Value := fun m =>
  let (heap, v) := m.heap.addFunction f
  .ok v { m with heap }

def lookup (name : String) : Run (Option Value) := fun m => .ok (m.get? name) m

def names : Run (List String) := fun m => .ok m.names m

def assign (name : String) (v : Value) : Run Unit := fun m => .ok () (m.set name v)

def lengthOf (id : Nat) : Run Nat := fun m => .ok (m.heap.length id) m

def functionAt (id : Nat) : Run Function := fun m =>
  match m.heap.functions[id]? with
  | some f => .ok f m
  | none => .error .stuck m

def elementAt (id index : Nat) : Run Value := fun m =>
  match m.heap.sequences[id]? with
  | some s =>
    match s.elements[index]? with
    | some v => .ok v m
    | none => .error .stuck m
  | none => .error .stuck m

/-- Picks one of `n` elements at random; there has to be one. -/
def pick (host : Host) (n : Nat) : Run Nat := fun m =>
  if n = 0 then .error .stuck m
  else .ok (host.random m.picks.size n) { m with picks := m.picks.push n }

def read : Slot → Run Value
  | .name name => do
    match ← lookup name with
    | some v => return v
    | none => stuck
  | .element id index => elementAt id index
  | .tail _ => return .null

def write (slot : Slot) (v : Value) : Run Unit :=
  match slot with
  | .name name => assign name v
  | .element id index => fun m =>
    if index < m.heap.length id then .ok () { m with heap := m.heap.set id index v }
    else .error .stuck m
  | .tail id => fun m => .ok () { m with heap := m.heap.push id v }

def countIncrement : Run Unit := fun m =>
  .ok () { m with stats := { m.stats with increments := m.stats.increments + 1 } }

def countDecrement : Run Unit := fun m =>
  .ok () { m with stats := { m.stats with decrements := m.stats.decrements + 1 } }

def countComparison : Run Unit := fun m =>
  .ok () { m with stats := { m.stats with comparisons := m.stats.comparisons + 1 } }

def equal (v w : Value) : Run Bool := fun m => .ok (m.heap.equal v w) m

def observe (host : Host) (v : Value) : Run Unit := fun m =>
  let calls := if host.notesCalls then m.frames.reverse.map (Machine.showFrame m.heap) else []
  let shown := m.shown.push ⟨v, m.heap.printed v, calls⟩
  let stopped := match host.stopAfter with
    | some n => m.stopped || n ≤ shown.size
    | none => m.stopped
  .ok () { m with shown, stopped }

/-- Fails if the run has to end: it is stopped or its time is over. -/
def check (host : Host) (source : Text) (offset : Nat) : Run Unit := fun m =>
  if m.stopped || host.cancelled then raiseAt source offset .stopped m
  else if 0 < host.budget ∧ host.budget < host.clock m.looks then
    raiseAt source offset (.timedOut (Duration.render host.budget)) { m with looks := m.looks + 1 }
  else .ok () { m with looks := m.looks + 1 }

/-- Rounds of a loop, each after a check, until it is left or answered or `n` rounds are over. -/
def rounds (check : Run Unit) (body : Run Flow) (after : Run Flow) : Nat → Run Flow
  | 0 => after
  | n + 1 => do
    check
    match ← body with
    | .next => rounds check body after n
    | .left _ => return .next
    | .answered v span => return .answered v span

end Run

namespace Context

open Run

variable (ctx : Context)

def raise {α : Type} (span : Span) (fault : RuntimeFault) : Run α :=
  raiseAt ctx.source span.start fault

def reject {α : Type} (span : Span) (fault : String → RuntimeFault) (v : Value) : Run α :=
  raiseWith ctx.source span.start fun h => fault (h.describe v)

/-- The index that a value stands for in a sequence, or none for the end of the sequence, which only
the last index of a place that is written to may mean. -/
def indexFor (span : Span) (id : Nat) (atEnd : Bool) : Value → Run (Option Nat)
  | .null => do
    if atEnd then return none
    let n ← lengthOf id
    if n = 0 then ctx.raise span (.emptySequence "?") else return some (← pick ctx.host n)
  | .int k => do
    let n ← lengthOf id
    if n = 0 then ctx.raise span (.emptySequence (toString k))
    else if 0 ≤ k ∧ k < n then return some k.toNat
    else ctx.raise span (.outOfRange k (n - 1))
  | v => ctx.reject span .badIndex v

def compare (span : Span) (cmp : Comparator) (left right : Value) : Run Bool :=
  match cmp with
  | .equal => equal left right
  | .notEqual => do return !(← equal left right)
  | _ =>
    match left, right with
    | .int l, .int r => return match cmp with
      | .greaterEqual => r ≤ l
      | .lessEqual => l ≤ r
      | .greater => r < l
      | _ => l < r
    | _, _ => raiseWith ctx.source span.start fun h =>
        .incomparable (h.typeWord left) (h.typeWord right) cmp.symbol

def step (span : Span) (use : IntegerUse) (delta : Int) (slot : Slot) : Run Unit := do
  match ← read slot with
  | .int n => write slot (.int (n + delta))
  | v => ctx.reject span (.notInteger use) v

/-- A function without a name takes the name it is assigned to. -/
def christen (name : String) : Value → Run Value
  | .fn id => do
    let f ← functionAt id
    match f.name with
    | some _ => return .fn id
    | none => newFunction { f with name := some name }
  | v => return v

def maxRounds : Nat := 9223372036854775807

mutual

def expr : Expr → Run Value
  | .int _ n => return .int n
  | .null _ => return .null
  | .text _ s none => newText s
  | .text _ s (some i) =>
    match s.toList[i]? with
    | some c => return .int c.toNat
    | none => stuck
  | .seq _ items => do newList (← exprs items)
  | .var p => do read (← place false p)
  | .fn _ params body => newFunction { name := none, params, body, source := ctx.source }
  | .call span name args => do
    match ← lookup name with
    | none => ctx.raise span (.undefinedFunction name (← names))
    | some (.fn id) =>
      let f ← functionAt id
      if args.length ≠ f.params.length then
        ctx.raise span (.arity name f.params.length args.length)
      else
        let vs ← exprs args
        ctx.invoke ⟨name, span, ctx.source⟩ f vs
    | some v => ctx.reject span .notCallable v
  | .neg span e => do
    match ← expr e with
    | .int n => return .int (-n)
    | v => ctx.reject span (.notInteger .negate) v
  | .len span e => do
    match ← expr e with
    | .seq id => return .int (← lengthOf id)
    | v => ctx.reject span .noLength v

def exprs : List Expr → Run (List Value)
  | [] => return []
  | e :: rest => do
    let v ← expr e
    let vs ← exprs rest
    return v :: vs

def place (write : Bool) : Place → Run Slot
  | .mk span name indices => do
    match ← lookup name with
    | none => ctx.raise span (.undefinedName name (← names))
    | some v => walk write span (.name name) v indices

def walk (write : Bool) (span : Span) (slot : Slot) (v : Value) : List Expr → Run Slot
  | [] => return slot
  | index :: rest => do
    match v with
    | .seq id =>
      let i ← expr index
      match ← ctx.indexFor index.span id (write && rest.isEmpty) i with
      | none => return .tail id
      | some i =>
        if rest.isEmpty then return .element id i
        else walk write span (.element id i) (← elementAt id i) rest
    | v => ctx.reject span .notIndexable v

def stmt : Stmt → Run Flow
  | .assign _ target value => do
    let v ← expr value
    match target with
    | .mk _ name [] => assign name (← christen name v)
    | _ => write (← place true target) v
    return .next
  | .append span target value => do
    match ← read (← place false target) with
    | .seq id =>
      let v ← expr value
      write (.tail id) v
      return .next
    | v => ctx.reject span .notAppendable v
  | .increment span target => do
    ctx.step span .increment 1 (← place false target)
    countIncrement
    return .next
  | .decrement span target => do
    ctx.step span .decrement (-1) (← place false target)
    countDecrement
    return .next
  | .cond span left right cmp yes no => do
    let l ← expr left
    let r ← expr right
    let holds ← ctx.compare span cmp l r
    countComparison
    if holds then block yes
    else
      match no with
      | some b => block b
      | none => return .next
  | .loop span count body => do
    match ← expr count with
    | .null =>
      rounds (check ctx.host ctx.source span.start) (block body) (fun m => .error .unfinished m)
        ctx.host.horizon
    | .int n =>
      if n < 0 then ctx.raise span (.negativeCount n)
      else
        rounds (check ctx.host ctx.source span.start) (block body) (return .next)
          (min n.toNat maxRounds)
    | v => raiseWith ctx.source span.start fun h => .badCount (h.typeWord v)
  | .leave span => return .left span
  | .answer span value => do return .answered (← expr value) span
  | .observe _ value => do
    observe ctx.host (← expr value)
    return .next
  | .doctest span value expected => do
    let actual ← expr value
    let wanted ← expr expected
    if ← equal actual wanted then return .next
    else fun m =>
      .error (.failed
        { fault := .mismatch (m.heap.describe wanted) (m.heap.describe actual)
          location := Location.ofOffset ctx.source span.start
          trace := m.trace
          actual := some (m.heap.literal actual) }) m

def block : Block → Run Flow
  | .mk _ body => stmts body

def stmts : List Stmt → Run Flow
  | [] => return .next
  | s :: rest => do
    match ← stmt s with
    | .next => stmts rest
    | flow => return flow

end

end Context

namespace Machine

/-- Enters a call: a copy of the environment with the parameters bound, and a frame. -/
def enter (m : Machine) (site : CallSite) (params : List String) (args : List Value) : Machine :=
  let (tables, scope) := m.tables.copy m.scope
  let m := (params.zip args).foldl (fun (m : Machine) (name, v) => m.set name v)
    { m with tables, scope }
  { m with frames := ⟨site.name, args, site.source, site.span.start⟩ :: m.frames }

def exit (m : Machine) (caller : Environment) (frames : List Frame) : Machine :=
  { m with tables := (m.tables.release m.scope).1, scope := caller, frames }

end Machine

namespace Run

/-- Ends a call as its body ended. The frame of the call has to be there. -/
def leaving (caller : Environment) (body : Run Value) : Run Value := fun m =>
  match body m with
  | .ok v n =>
    match n.frames with
    | _ :: frames => .ok v (n.exit caller frames)
    | [] => .error .stuck n
  | .error halt n =>
    match n.frames with
    | _ :: frames => .error halt (n.exit caller frames)
    | [] => .error .stuck n

end Run

namespace Context

def answerOf (ctx : Context) (body : Block) : Run Value := do
  match ← ctx.block body with
  | .answered v _ => return v
  | .next => return .null
  | .left span => ctx.raise span .leaveOutside

end Context

/-- Carries out a call, with at most `depth` calls active from here on. -/
def invoke (host : Host) : (depth : Nat) → CallSite → Function → List Value → Run Value
  | 0, site, _, _ =>
    Run.raiseAt site.source site.span.start (.tooDeep host.maxDepth site.name)
  | depth + 1, site, f, args => fun m =>
    let ctx : Context := { host, source := f.source, invoke := invoke host depth }
    Run.leaving m.scope (ctx.answerOf f.body) (m.enter site f.params args)

namespace Context

def top (host : Host) (source : Text) : Context :=
  { host, source, invoke := Terakoya.invoke host host.maxDepth }

/-- The statements of a program; outside of functions and loops nothing can be answered or left. -/
def program (ctx : Context) : List Stmt → Run Unit
  | [] => return ()
  | s :: rest => do
    match ← ctx.stmt s with
    | .next => program ctx rest
    | .answered _ span => ctx.raise span .answerOutside
    | .left span => ctx.raise span .leaveOutside

end Context
end Terakoya
