import Mathlib.Logic.Relation
import Terakoya.Proofs.Scope

/-! Evaluation moment by moment. A moment is what is being done, what waits for it and the machine. The
next moment is found without recursion, so that a run is a row of moments, which may have no end: a loop
without a count goes round as long as its check passes, and a call is made if fewer calls are active than
may be. -/
namespace Terakoya

open Run

variable {α β : Type}

structure Loop where
  span : Span
  body : Block
  count : Option Nat

inductive Given where
  | value (v : Value)
  | values (vs : List Value)
  | slot (slot : Slot)
  | flow (flow : Flow)
  | done

inductive Task where
  | expr (e : Expr)
  | exprs (es : List Expr)
  | place (write : Bool) (p : Place)
  | walk (write : Bool) (span : Span) (slot : Slot) (v : Value) (indices : List Expr)
  | stmt (s : Stmt)
  | stmts (body : List Stmt)
  | round (loop : Loop) (done : Nat)
  | call (site : CallSite) (f : Function) (args : List Value)
  | program (body : List Stmt)
  | give (given : Given)
  | halt (halt : Halt)

inductive Wait where
  | list
  | head (rest : List Expr)
  | tail (v : Value)
  | read
  | apply (site : CallSite) (f : Function)
  | negate (span : Span)
  | measure (span : Span)
  | index (write : Bool) (span : Span) (id : Nat) (position : Span) (rest : List Expr)
  | target (p : Place)
  | store (v : Value)
  | extend (span : Span) (value : Expr)
  | push (id : Nat)
  | increment (span : Span)
  | decrement (span : Span)
  | lhs (span : Span) (right : Expr) (comparator : Comparator) (yes : Block) (no : Option Block)
  | rhs (span : Span) (left : Value) (comparator : Comparator) (yes : Block) (no : Option Block)
  | count (span : Span) (body : Block)
  | round (loop : Loop) (done : Nat)
  | more (rest : List Stmt)
  | answer (span : Span)
  | shown
  | actual (span : Span) (expected : Expr)
  | expected (span : Span) (actual : Value)
  | leave (site : CallSite) (args : List Value) (caller : Environment)
  | program (rest : List Stmt)

abbrev Task.value (v : Value) : Task := .give (.value v)

abbrev Task.values (vs : List Value) : Task := .give (.values vs)

abbrev Task.slot (slot : Slot) : Task := .give (.slot slot)

abbrev Task.flow (flow : Flow) : Task := .give (.flow flow)

abbrev Task.done : Task := .give .done

def Loop.isOver (loop : Loop) (done : Nat) : Bool :=
  match loop.count with
  | some n => n ≤ done
  | none => false

def Task.begin (ctx : Context) : Task → Run (Task × List Wait)
  | expr (.int _ n) => return (value (.int n),[])
  | expr (.null _) => return (value .null,[])
  | expr (.text _ s none) => do return (value (← newText s),[])
  | expr (.text _ s (some i)) =>
    match s.toList[i]? with
    | some c => return (value (.int c.toNat),[])
    | none => stuck
  | expr (.seq _ items) => return (exprs items,[.list])
  | expr (.var p) => return (place false p,[.read])
  | expr (.fn _ params body) => do
    return (value (← newFunction { name := none, params, body, source := ctx.source }),[])
  | expr (.call span name args) => do
    match ← lookup name with
    | none => ctx.raise span (.undefinedFunction name (← names))
    | some (.fn id) =>
      let f ← functionAt id
      if args.length ≠ f.params.length then
        ctx.raise span (.arity name f.params.length args.length)
      else return (exprs args,[.apply ⟨name,span,ctx.source⟩ f])
    | some v => ctx.reject span .notCallable v
  | expr (.neg span e) => return (expr e,[.negate span])
  | expr (.len span e) => return (expr e,[.measure span])
  | exprs [] => return (values [],[])
  | exprs (e :: rest) => return (expr e,[.head rest])
  | place write (.mk span name indices) => do
    match ← lookup name with
    | none => ctx.raise span (.undefinedName name (← names))
    | some v => return (walk write span (.name name) v indices,[])
  | walk _ _ slot _ [] => return (.slot slot,[])
  | walk write span _ (.seq id) (index :: rest) => return (expr index,[.index write span id index.span rest])
  | walk _ span _ v (_ :: _) => ctx.reject span .notIndexable v
  | stmt (.assign _ target value) => return (expr value,[.target target])
  | stmt (.append span target value) => return (place false target,[.extend span value])
  | stmt (.increment span target) => return (place false target,[.increment span])
  | stmt (.decrement span target) => return (place false target,[.decrement span])
  | stmt (.cond span left right cmp yes no) => return (expr left,[.lhs span right cmp yes no])
  | stmt (.loop span count body) => return (expr count,[.count span body])
  | stmt (.leave span) => return (flow (.left span),[])
  | stmt (.answer span value) => return (expr value,[.answer span])
  | stmt (.observe _ value) => return (expr value,[.shown])
  | stmt (.doctest span value expected) => return (expr value,[.actual span expected])
  | stmts [] => return (flow .next,[])
  | stmts (s :: rest) => return (stmt s,[.more rest])
  | round loop done =>
    if loop.isOver done then return (flow .next,[])
    else do
      check ctx.host ctx.source loop.span.start
      return (stmts loop.body.body,[.round loop done])
  | program [] => return (.done,[])
  | program (s :: rest) => return (stmt s,[.program rest])
  | _ => stuck

def Wait.resume (ctx : Context) : Wait → Given → Run (Task × List Wait)
  | list, .values vs => do return (.value (← newList vs),[])
  | head rest, .value v => return (.exprs rest,[.tail v])
  | tail v, .values vs => return (.values (v :: vs),[])
  | read, .slot slot => do return (.value (← Run.read slot),[])
  | apply site f, .values vs => return (.call site f vs,[])
  | negate _, .value (.int n) => return (.value (.int (-n)),[])
  | negate span, .value v => ctx.reject span (.notInteger .negate) v
  | measure _, .value (.seq id) => do return (.value (.int (← lengthOf id)),[])
  | measure span, .value v => ctx.reject span .noLength v
  | index write span id position rest, .value i => do
    match ← ctx.indexFor position id (write && rest.isEmpty) i with
    | none => return (.slot (.tail id),[])
    | some i =>
      if rest.isEmpty then return (.slot (.element id i),[])
      else return (.walk write span (.element id i) (← elementAt id i) rest,[])
  | target (.mk _ name []), .value v => do
    assign name (← Context.christen name v)
    return (.flow .next,[])
  | target p, .value v => return (.place true p,[.store v])
  | store v, .slot slot => do
    write slot v
    return (.flow .next,[])
  | extend span value, .slot slot => do
    match ← Run.read slot with
    | .seq id => return (.expr value,[.push id])
    | v => ctx.reject span .notAppendable v
  | push id, .value v => do
    write (.tail id) v
    return (.flow .next,[])
  | increment span, .slot slot => do
    ctx.step span .increment 1 slot
    countIncrement
    return (.flow .next,[])
  | decrement span, .slot slot => do
    ctx.step span .decrement (-1) slot
    countDecrement
    return (.flow .next,[])
  | lhs span right cmp yes no, .value l => return (.expr right,[.rhs span l cmp yes no])
  | rhs span l cmp yes no, .value r => do
    let holds ← ctx.compare span cmp l r
    countComparison
    if holds then return (.stmts yes.body,[])
    else
      match no with
      | some b => return (.stmts b.body,[])
      | none => return (.flow .next,[])
  | count span body, .value .null => return (.round ⟨span,body,none⟩ 0,[])
  | count span body, .value (.int n) =>
    if n < 0 then ctx.raise span (.negativeCount n)
    else return (.round ⟨span,body,some (min n.toNat Context.maxRounds)⟩ 0,[])
  | count span _, .value v => raiseWith ctx.source span.start fun h => .badCount (h.typeWord v)
  | round loop done, .flow .next => return (.round loop (done + 1),[])
  | round _ _, .flow (.left _) => return (.flow .next,[])
  | round _ _, .flow (.answered v span) => return (.flow (.answered v span),[])
  | more rest, .flow .next => return (.stmts rest,[])
  | more _, .flow flow => return (.flow flow,[])
  | answer span, .value v => return (.flow (.answered v span),[])
  | shown, .value v => do
    observe ctx.host v
    return (.flow .next,[])
  | actual span wanted, .value v => return (.expr wanted,[.expected span v])
  | expected span v, .value wanted => do
    if ← equal v wanted then return (.flow .next,[])
    else fun m =>
      .error (.failed
        { fault := .mismatch (m.heap.describe wanted) (m.heap.describe v)
          location := Location.ofOffset ctx.source span.start
          trace := m.trace
          actual := some (m.heap.literal v) }) m
  | program rest, .flow .next => return (.program rest,[])
  | program _, .flow (.answered _ span) => ctx.raise span .answerOutside
  | program _, .flow (.left span) => ctx.raise span .leaveOutside
  | _, _ => stuck

structure Moment where
  source : Text
  task : Task
  waiting : List Wait
  machine : Machine

namespace Moment

def context (host : Host) (source : Text) : Context := ⟨host,source,fun _ _ _ => stuck⟩

def act (M : Moment) (x : Run (Task × List Wait)) (rest : List Wait) : Moment :=
  match x M.machine with
  | .ok (task,more) n => { M with task, waiting := more ++ rest, machine := n }
  | .error halt n => { M with task := .halt halt, waiting := rest, machine := n }

def back (M : Moment) (source : Text) (caller : Environment) (task : Task) (rest : List Wait) : Moment :=
  match M.machine.frames with
  | _ :: frames => ⟨source,task,rest,M.machine.exit caller frames⟩
  | [] => ⟨source,.halt .stuck,rest,M.machine⟩

def next (host : Host) (M : Moment) : Option Moment :=
  match M.task with
  | .halt halt =>
    match M.waiting with
    | [] => none
    | .leave site _ caller :: rest => some (M.back site.source caller (.halt halt) rest)
    | _ :: rest => some { M with waiting := rest }
  | .give given =>
    match M.waiting with
    | [] => none
    | .leave site _ caller :: rest =>
      match given with
      | .flow (.answered v _) => some (M.back site.source caller (.value v) rest)
      | .flow .next => some (M.back site.source caller (.value .null) rest)
      | .flow (.left span) => some (M.act ((context host M.source).raise span .leaveOutside) M.waiting)
      | _ => some (M.act stuck M.waiting)
    | wait :: rest => some (M.act (wait.resume (context host M.source) given) rest)
  | .call site f args =>
    if host.maxDepth ≤ M.machine.frames.length then
      some (M.act (raiseAt site.source site.span.start (.tooDeep host.maxDepth site.name)) M.waiting)
    else
      some ⟨f.source,.stmts f.body.body,.leave site args M.machine.scope :: M.waiting,
        M.machine.enter site f.params args⟩
  | task => some (M.act (task.begin (context host M.source)) M.waiting)

def Reaches (host : Host) : Moment → Moment → Prop :=
  Relation.ReflTransGen fun M N => next host M = some N

def start (source : Text) (body : List Stmt) (m : Machine) : Moment := ⟨source,.program body,[],m⟩

end Moment

/-! ## What the first steps of tasks do -/

structure Machine.Stays (m n : Machine) : Prop where
  frames : n.frames = m.frames
  stopped : m.stopped = true → n.stopped = true
  looks : m.looks ≤ n.looks

open Machine (Stays)

namespace Run

theorem staysRefl (m : Machine) : Stays m m := ⟨rfl,id,Nat.le_refl _⟩

def Finished : EStateM.Result Halt Machine α → Prop
  | .error .unfinished _ => False
  | _ => True

def EndsPlainly (post : α → Prop) (m : Machine) : EStateM.Result Halt Machine α → Prop
  | .ok a n => Stays m n ∧ post a
  | .error (.failed e) n => Stays m n ∧ e.trace = n.trace
  | .error .stuck n => Stays m n
  | .error .unfinished _ => False

def IsPlain (post : α → Prop) (x : Run α) : Prop := ∀ m, EndsPlainly post m (x m)

abbrev Simple (x : Run α) : Prop := IsPlain (fun _ => True) x

variable {post : α → Prop} {post' : β → Prop} {m n : Machine}

theorem endsStays {r} (ends : EndsPlainly post m r) : Stays m (final r) := by
  cases r with
  | ok a n => exact ends.1
  | error halt n =>
    cases halt with
    | failed e => exact ends.1
    | stuck => exact ends
    | unfinished => exact ends.elim

theorem endsAfter {r} (stays : Stays m n) (ends : EndsPlainly post n r) : EndsPlainly post m r := by
  have later {k : Machine} (rest : Stays n k) : Stays m k :=
    ⟨rest.frames.trans stays.frames,fun stopped => rest.stopped (stays.stopped stopped),Nat.le_trans stays.looks rest.looks⟩
  cases r with
  | ok a k => exact ⟨later ends.1,ends.2⟩
  | error halt k =>
    cases halt with
    | failed e => exact ⟨later ends.1,ends.2⟩
    | stuck => exact later ends
    | unfinished => exact ends

theorem plainBind {x} {f : α → Run β} (first : IsPlain post x) (next : ∀ a, post a → IsPlain post' (f a)) :
    IsPlain post' (x >>= f) := by
  intro m
  have step := first m
  simp only [bind,EStateM.bind]
  cases result : x m with
  | ok a n =>
    rw [result] at step
    exact endsAfter step.1 (next a step.2 n)
  | error halt n =>
    rw [result] at step
    cases halt with
    | failed e => exact step
    | stuck => exact step
    | unfinished => exact step

theorem plainPure {a} (holds : post a) : IsPlain post (pure a) := fun m => ⟨staysRefl m,holds⟩

theorem plainStuck : IsPlain post (stuck : Run α) := fun m => staysRefl m

theorem plainRaise (source : Text) (offset : Nat) (fault : RuntimeFault) :
    IsPlain post (raiseAt source offset fault : Run α) := fun m => ⟨staysRefl m,rfl⟩

theorem plainRaiseWith (source : Text) (offset : Nat) (fault : Heap → RuntimeFault) :
    IsPlain post (raiseWith source offset fault : Run α) := fun m => ⟨staysRefl m,rfl⟩

theorem simpleLook (f : Machine → α) : Simple (fun m => .ok (f m) m) := fun m => ⟨staysRefl m,trivial⟩

theorem simpleNewText (s : String) : Simple (newText s) := fun _ => ⟨⟨rfl,id,Nat.le_refl _⟩,trivial⟩

theorem simpleNewList (vs : List Value) : Simple (newList vs) := fun _ => ⟨⟨rfl,id,Nat.le_refl _⟩,trivial⟩

theorem simpleNewFunction (f : Function) : Simple (newFunction f) := fun _ => ⟨⟨rfl,id,Nat.le_refl _⟩,trivial⟩

theorem simpleFunctionAt (id : Nat) : Simple (functionAt id) := by
  intro m
  unfold functionAt
  split
  · exact ⟨staysRefl m,trivial⟩
  · exact staysRefl m

theorem simpleElementAt (id index : Nat) : Simple (elementAt id index) := by
  intro m
  unfold elementAt
  split
  · split
    · exact ⟨staysRefl m,trivial⟩
    · exact staysRefl m
  · exact staysRefl m

theorem simplePick (host : Host) (n : Nat) : Simple (pick host n) := by
  intro m
  unfold pick
  split
  · exact staysRefl m
  · exact ⟨⟨rfl,id,Nat.le_refl _⟩,trivial⟩

theorem simpleRead (slot : Slot) : Simple (read slot) := by
  cases slot with
  | name name =>
    refine plainBind (simpleLook _) fun found _ => ?_
    cases found with
    | none => exact plainStuck
    | some v => exact plainPure trivial
  | element id index => exact simpleElementAt id index
  | tail id => exact plainPure trivial

theorem simpleWrite (slot : Slot) (v : Value) : Simple (write slot v) := by
  intro m
  cases slot with
  | name name => exact ⟨⟨rfl,id,Nat.le_refl _⟩,trivial⟩
  | element id index =>
    simp only [write]
    split
    · exact ⟨⟨rfl,fun stopped => stopped,Nat.le_refl _⟩,trivial⟩
    · exact staysRefl m
  | tail id => exact ⟨⟨rfl,fun stopped => stopped,Nat.le_refl _⟩,trivial⟩

theorem simpleCount (f : Machine → Stats) : Simple (fun m => .ok () { m with stats := f m } : Run Unit) :=
  fun _ => ⟨⟨rfl,id,Nat.le_refl _⟩,trivial⟩

theorem simpleObserve (host : Host) (v : Value) : Simple (observe host v) := by
  refine fun m => ⟨⟨rfl,fun stopped => ?_,Nat.le_refl _⟩,trivial⟩
  dsimp only
  split
  · rw [stopped,Bool.true_or]
  · exact stopped

theorem simpleCheck (host : Host) (source : Text) (offset : Nat) : Simple (check host source offset) := by
  intro m
  unfold check
  split
  · exact ⟨staysRefl m,rfl⟩
  · split
    · exact ⟨⟨rfl,id,Nat.le_succ _⟩,rfl⟩
    · exact ⟨⟨rfl,id,Nat.le_succ _⟩,trivial⟩

end Run

namespace Context

variable {ctx : Context}

theorem plainReject {post : α → Prop} (span : Span) (fault : String → RuntimeFault) (v : Value) :
    IsPlain post (ctx.reject span fault v : Run α) := plainRaiseWith _ _ _

theorem simpleIndexFor (span : Span) (id : Nat) (atEnd : Bool) (v : Value) :
    Simple (ctx.indexFor span id atEnd v) := by
  cases v with
  | null =>
    simp only [indexFor]
    split
    · exact plainPure trivial
    · refine plainBind (simpleLook _) fun n _ => ?_
      split
      · exact plainRaise _ _ _
      · exact plainBind (simplePick ctx.host n) fun _ _ => plainPure trivial
  | int k =>
    refine plainBind (simpleLook _) fun n _ => ?_
    split
    · exact plainRaise _ _ _
    · split
      · exact plainPure trivial
      · exact plainRaise _ _ _
  | seq id => exact plainReject span _ (.seq id)
  | fn id => exact plainReject span _ (.fn id)

theorem simpleChristen (name : String) (v : Value) : Simple (christen name v) := by
  cases v with
  | fn id =>
    refine plainBind (simpleFunctionAt id) fun f _ => ?_
    split
    · exact plainPure trivial
    · exact simpleNewFunction _
  | int n => exact plainPure trivial
  | null => exact plainPure trivial
  | seq id => exact plainPure trivial

theorem simpleCompare (span : Span) (cmp : Comparator) (left right : Value) :
    Simple (ctx.compare span cmp left right) := by
  unfold compare
  split
  · exact simpleLook _
  · exact plainBind (simpleLook _) fun _ _ => plainPure trivial
  · split
    · exact plainPure trivial
    · exact plainRaiseWith _ _ _

theorem simpleStep (span : Span) (use : IntegerUse) (delta : Int) (slot : Slot) :
    Simple (ctx.step span use delta slot) := by
  refine plainBind (simpleRead slot) fun v _ => ?_
  cases v with
  | int n => exact simpleWrite slot _
  | null => exact plainRaiseWith _ _ _
  | seq id => exact plainRaiseWith _ _ _
  | fn id => exact plainRaiseWith _ _ _

end Context

namespace Wait

def call? : Wait → Option Frame
  | leave site args _ => some ⟨site.name,args,site.source,site.span.start⟩
  | _ => none

def isRound : Wait → Bool
  | round _ _ => true
  | _ => false

def isLoop : Wait → Bool
  | count _ _ => true
  | round _ _ => true
  | _ => false

def isLight : Wait → Bool
  | leave _ _ _ => false
  | round _ _ => false
  | _ => true

theorem lightHoldsNothing {w : Wait} (light : w.isLight = true) : w.call? = none ∧ w.isRound = false := by
  cases w with
  | leave site args caller => contradiction
  | round loop done => contradiction
  | _ => exact ⟨rfl,rfl⟩

end Wait

def Task.isGrave : Task → Bool
  | halt _ => true
  | round _ _ => true
  | _ => false

def Light (r : Task × List Wait) : Prop := (r.2.all Wait.isLight && !r.1.isGrave) = true

theorem plainBegin (ctx : Context) (t : Task) (other : ∀ loop done, t ≠ .round loop done) :
    IsPlain Light (t.begin ctx) := by
  cases t with
  | expr e =>
    cases e with
    | int span n => exact plainPure rfl
    | null span => exact plainPure rfl
    | text span s index =>
      cases index with
      | none => exact plainBind (simpleNewText s) fun _ _ => plainPure rfl
      | some i =>
        simp only [Task.begin]
        split
        · exact plainPure rfl
        · exact plainStuck
    | seq span items => exact plainPure rfl
    | var p => exact plainPure rfl
    | fn span params body => exact plainBind (simpleNewFunction _) fun _ _ => plainPure rfl
    | call span name args =>
      refine plainBind (simpleLook _) fun found _ => ?_
      cases found with
      | none => exact plainBind (simpleLook _) fun _ _ => plainRaise _ _ _
      | some v =>
        cases v with
        | fn id =>
          refine plainBind (simpleFunctionAt id) fun f _ => ?_
          split
          · exact plainRaise _ _ _
          · exact plainPure rfl
        | int n => exact plainRaiseWith _ _ _
        | null => exact plainRaiseWith _ _ _
        | seq id => exact plainRaiseWith _ _ _
    | neg span e => exact plainPure rfl
    | len span e => exact plainPure rfl
  | exprs es => cases es <;> exact plainPure rfl
  | place write p =>
    obtain ⟨span,name,indices⟩ := p
    refine plainBind (simpleLook _) fun found _ => ?_
    cases found with
    | none => exact plainBind (simpleLook _) fun _ _ => plainRaise _ _ _
    | some v => exact plainPure rfl
  | walk write span slot v indices =>
    cases indices with
    | nil => exact plainPure rfl
    | cons index rest =>
      cases v with
      | seq id => exact plainPure rfl
      | int n => exact Context.plainReject span _ (.int n)
      | null => exact Context.plainReject span _ .null
      | fn id => exact Context.plainReject span _ (.fn id)
  | stmt s => cases s <;> exact plainPure rfl
  | stmts body => cases body <;> exact plainPure rfl
  | round loop done => exact absurd rfl (other loop done)
  | program body => cases body <;> exact plainPure rfl
  | call site f args => exact plainStuck
  | give given => exact plainStuck
  | halt halt => exact plainStuck

theorem plainResume (ctx : Context) (w : Wait) (given : Given)
    (other : w.isLoop = false) : IsPlain Light (w.resume ctx given) := by
  have goesOn {x : Run Unit} (simple : Simple x) :
      IsPlain Light (x >>= fun _ => pure (Task.flow .next,[])) := plainBind simple fun _ _ => plainPure rfl
  cases w with
  | list =>
    cases given with
    | values vs => exact plainBind (simpleNewList vs) fun _ _ => plainPure rfl
    | _ => exact plainStuck
  | head rest =>
    cases given with
    | value v => exact plainPure rfl
    | _ => exact plainStuck
  | tail v =>
    cases given with
    | values vs => exact plainPure rfl
    | _ => exact plainStuck
  | read =>
    cases given with
    | slot slot => exact plainBind (simpleRead slot) fun _ _ => plainPure rfl
    | _ => exact plainStuck
  | apply site f =>
    cases given with
    | values vs => exact plainPure rfl
    | _ => exact plainStuck
  | negate span =>
    cases given with
    | value v =>
      cases v with
      | int n => exact plainPure rfl
      | null => exact Context.plainReject span _ .null
      | seq id => exact Context.plainReject span _ (.seq id)
      | fn id => exact Context.plainReject span _ (.fn id)
    | _ => exact plainStuck
  | measure span =>
    cases given with
    | value v =>
      cases v with
      | seq id => exact plainBind (simpleLook _) fun _ _ => plainPure rfl
      | int n => exact Context.plainReject span _ (.int n)
      | null => exact Context.plainReject span _ .null
      | fn id => exact Context.plainReject span _ (.fn id)
    | _ => exact plainStuck
  | index write span id position rest =>
    cases given with
    | value i =>
      refine plainBind (Context.simpleIndexFor _ _ _ i) fun found _ => ?_
      cases found with
      | none => exact plainPure rfl
      | some i =>
        dsimp only
        split
        · exact plainPure rfl
        · exact plainBind (simpleElementAt id i) fun _ _ => plainPure rfl
    | _ => exact plainStuck
  | target p =>
    obtain ⟨span,name,indices⟩ := p
    cases given with
    | value v =>
      cases indices with
      | nil =>
        exact plainBind (Context.simpleChristen name v) fun w _ => goesOn (simpleWrite (.name name) w)
      | cons index rest => exact plainPure rfl
    | _ => cases indices <;> exact plainStuck
  | store v =>
    cases given with
    | slot slot => exact goesOn (simpleWrite slot v)
    | _ => exact plainStuck
  | extend span value =>
    cases given with
    | slot slot =>
      refine plainBind (simpleRead slot) fun v _ => ?_
      cases v with
      | seq id => exact plainPure rfl
      | _ => exact plainRaiseWith _ _ _
    | _ => exact plainStuck
  | push id =>
    cases given with
    | value v => exact goesOn (simpleWrite (.tail id) v)
    | _ => exact plainStuck
  | increment span =>
    cases given with
    | slot slot => exact plainBind (Context.simpleStep span _ _ slot) fun _ _ => goesOn (simpleCount _)
    | _ => exact plainStuck
  | decrement span =>
    cases given with
    | slot slot => exact plainBind (Context.simpleStep span _ _ slot) fun _ _ => goesOn (simpleCount _)
    | _ => exact plainStuck
  | lhs span right cmp yes no =>
    cases given with
    | value l => exact plainPure rfl
    | _ => exact plainStuck
  | rhs span l cmp yes no =>
    cases given with
    | value r =>
      refine plainBind (Context.simpleCompare span cmp l r) fun holds _ => plainBind (simpleCount _) fun _ _ => ?_
      split
      · exact plainPure rfl
      · cases no <;> exact plainPure rfl
    | _ => exact plainStuck
  | count span body => contradiction
  | round loop done => contradiction
  | more rest =>
    cases given with
    | flow flow => cases flow <;> exact plainPure rfl
    | _ => exact plainStuck
  | answer span =>
    cases given with
    | value v => exact plainPure rfl
    | _ => exact plainStuck
  | shown =>
    cases given with
    | value v => exact goesOn (simpleObserve ctx.host v)
    | _ => exact plainStuck
  | actual span wanted =>
    cases given with
    | value v => exact plainPure rfl
    | _ => exact plainStuck
  | expected span v =>
    cases given with
    | value wanted =>
      refine plainBind (simpleLook _) fun same _ => ?_
      cases same with
      | true => exact plainPure rfl
      | false => exact fun m => ⟨staysRefl m,rfl⟩
    | _ => exact plainStuck
  | leave site args caller => exact plainStuck
  | program rest =>
    cases given with
    | flow flow =>
      cases flow with
      | next => exact plainPure rfl
      | _ => exact plainRaise _ _ _
    | _ => exact plainStuck

namespace Moment

variable {host : Host} {M N : Moment}

/-! ## What a step can do -/

def active (waiting : List Wait) : List Frame := waiting.filterMap Wait.call?

/-- A step acts on what is nearest, makes a call, or goes back to a caller. Only a loop whose check has
passed gets a round to wait for. The rounds of a loop begin when its count is there and go on after a
round; they are without end only if the count is nothing. A new failure shows the calls active then. -/
inductive Passes (host : Host) (M N : Moment) : Prop where
  | acts (dropped more rest : List Wait) (before : M.waiting = dropped ++ rest) (after : N.waiting = more ++ rest)
      (calls : active dropped = [] ∧ active more = [])
      (rounds : ∀ w ∈ more, w.isRound = true → ∃ loop done, w = .round loop done ∧ M.task = .round loop done ∧
        check host M.source loop.span.start M.machine = .ok () N.machine)
      (stays : Stays M.machine N.machine)
      (raised : ∀ e, N.task = .halt (.failed e) → M.task = N.task ∨ e.trace = N.machine.trace)
      (begun : ∀ loop done, N.task = .round loop done →
        (∃ d, done = d + 1 ∧ Wait.round loop d ∈ M.waiting) ∨
        done = 0 ∧ (loop.count = none → M.task = .value .null ∧ ∃ span body, M.waiting = .count span body :: rest))
  | enters (site : CallSite) (f : Function) (args : List Value) (task : M.task = .call site f args)
      (few : M.machine.frames.length < host.maxDepth)
      (same : N = ⟨f.source,.stmts f.body.body,.leave site args M.machine.scope :: M.waiting,
        M.machine.enter site f.params args⟩)
  | leaves (site : CallSite) (args : List Value) (caller : Environment) (task : Task) (rest : List Wait)
      (before : M.waiting = .leave site args caller :: rest) (same : N = M.back site.source caller task rest)
      (kept : ∀ e, task = .halt (.failed e) → M.task = task) (other : ∀ loop done, task ≠ .round loop done)

theorem lightActive {more : List Wait} (light : more.all Wait.isLight = true) : active more = [] := by
  rw [active,List.filterMap_eq_nil_iff]
  intro w inside
  exact (Wait.lightHoldsNothing (List.all_eq_true.mp light w inside)).1

theorem passesQuietly {dropped rest} (before : M.waiting = dropped ++ rest) (after : N.waiting = rest)
    (light : active dropped = []) (stays : Stays M.machine N.machine)
    (raised : ∀ e, N.task = .halt (.failed e) → M.task = N.task ∨ e.trace = N.machine.trace)
    (begun : ∀ loop done, N.task = .round loop done → (∃ d, done = d + 1 ∧ Wait.round loop d ∈ M.waiting) ∨
      done = 0 ∧ (loop.count = none → M.task = .value .null ∧ ∃ span body, M.waiting = .count span body :: rest)) :
    Passes host M N :=
  .acts dropped [] rest before after ⟨light,rfl⟩ (fun _ inside => nomatch inside) stays raised begun

theorem passesHalt {dropped rest halt} {post : α → Prop} (before : M.waiting = dropped ++ rest)
    (light : active dropped = []) {n} (ends : EndsPlainly post M.machine (.error halt n)) :
    Passes host M ⟨M.source,.halt halt,rest,n⟩ := by
  refine passesQuietly before rfl light (endsStays ends) (fun e failed => ?_) fun _ _ same => nomatch same
  cases failed
  exact .inr ends.2

theorem passesAct {x : Run (Task × List Wait)} (plain : IsPlain Light x) {dropped rest}
    (before : M.waiting = dropped ++ rest) (light : active dropped = []) : Passes host M (M.act x rest) := by
  have ends := plain M.machine
  unfold act
  cases result : x M.machine with
  | ok r n =>
    rw [result] at ends
    obtain ⟨task,more⟩ := r
    obtain ⟨lights,going⟩ : more.all Wait.isLight = true ∧ task.isGrave = false := by
      simpa [Light] using ends.2
    refine .acts dropped more rest before rfl ⟨light,lightActive lights⟩ (fun w inside round => ?_) ends.1
      (fun e failed => ?_) fun loop done begun => ?_
    · rw [(Wait.lightHoldsNothing (List.all_eq_true.mp lights w inside)).2] at round
      contradiction
    · rw [show task = .halt (.failed e) from failed] at going
      contradiction
    · rw [show task = .round loop done from begun] at going
      contradiction
  | error halt n =>
    rw [result] at ends
    exact passesHalt before light ends

theorem passesRound {loop done} (task : M.task = .round loop done) :
    Passes host M (M.act (M.task.begin (context host M.source)) M.waiting) := by
  have here : M.waiting = [] ++ M.waiting := rfl
  rw [task]
  simp only [Task.begin]
  split
  · have light : Light (.flow .next,[]) := rfl
    exact passesAct (plainPure light) here rfl
  · have ends := simpleCheck host M.source loop.span.start M.machine
    simp only [act,bind,EStateM.bind,context]
    cases result : check host M.source loop.span.start M.machine with
    | ok u n =>
      rw [result] at ends
      refine .acts [] [.round loop done] M.waiting here rfl ⟨rfl,rfl⟩ (fun w inside _ => ?_) ends.1
        (fun _ same => nomatch same) fun _ _ same => nomatch same
      exact ⟨loop,done,List.mem_singleton.mp inside,task,result⟩
    | error halt n =>
      rw [result] at ends
      exact passesHalt here rfl ends

theorem passesLoop {w} (isLoop : w.isLoop = true) {given rest} (task : M.task = .give given)
    (waiting : M.waiting = w :: rest) : Passes host M (M.act (w.resume (context host M.source) given) rest) := by
  have here : M.waiting = [w] ++ rest := waiting
  have free : active [w] = [] := by
    cases w with
    | leave site args caller => contradiction
    | _ => rfl
  have away : Passes host M (M.act stuck rest) := passesAct plainStuck here free
  have flow (flow : Flow) : Passes host M (M.act (pure (.flow flow,[])) rest) :=
    passesAct (plainPure (show Light (.flow flow,[]) from rfl)) here free
  cases w with
  | count span body =>
    cases given with
    | value v =>
      cases v with
      | null =>
        refine passesQuietly here rfl free (staysRefl M.machine) (fun _ same => nomatch same) fun loop done same => ?_
        cases same
        exact .inr ⟨rfl,fun _ => ⟨task,span,body,waiting⟩⟩
      | int n =>
        simp only [Wait.resume]
        split
        · exact passesAct (plainRaise _ _ _) here free
        · refine passesQuietly here rfl free (staysRefl M.machine) (fun _ same => nomatch same) fun loop done same => ?_
          cases same
          exact .inr ⟨rfl,fun unbounded => nomatch unbounded⟩
      | seq id =>
        simp only [Wait.resume]
        exact passesAct (plainRaiseWith _ _ _) here free
      | fn id =>
        simp only [Wait.resume]
        exact passesAct (plainRaiseWith _ _ _) here free
    | _ => exact away
  | round loop done =>
    cases given with
    | flow f =>
      cases f with
      | next =>
        refine passesQuietly here rfl free (staysRefl M.machine) (fun _ same => nomatch same) fun loop' done' same => ?_
        cases same
        exact .inl ⟨done,rfl,waiting ▸ List.mem_cons_self⟩
      | left span => exact flow .next
      | answered v span => exact flow (.answered v span)
    | _ => exact away
  | _ => contradiction

theorem nextPasses (step : next host M = some N) : Passes host M N := by
  obtain ⟨source,task,waiting,m⟩ := M
  have here : waiting = [] ++ waiting := rfl
  cases task with
  | halt halt =>
    cases waiting with
    | nil => cases step
    | cons w rest =>
      cases w with
      | leave site args caller =>
        cases step
        exact .leaves site args caller (.halt halt) rest rfl rfl (fun _ _ => rfl) fun _ _ same => nomatch same
      | _ =>
        cases step
        exact passesQuietly (show _ = [_] ++ rest from rfl) rfl rfl (staysRefl m) (fun _ _ => .inl rfl)
          fun _ _ same => nomatch same
  | give given =>
    cases waiting with
    | nil => cases step
    | cons w rest =>
      cases w with
      | leave site args caller =>
        cases given with
        | flow flow =>
          cases flow with
          | next =>
            cases step
            exact .leaves site args caller _ rest rfl rfl (fun _ same => nomatch same) fun _ _ same => nomatch same
          | answered v span =>
            cases step
            exact .leaves site args caller _ rest rfl rfl (fun _ same => nomatch same) fun _ _ same => nomatch same
          | left span =>
            cases step
            exact passesAct (plainRaise _ _ _) here rfl
        | _ =>
          cases step
          exact passesAct plainStuck here rfl
      | count span body =>
        cases step
        exact passesLoop rfl rfl rfl
      | round loop done =>
        cases step
        exact passesLoop rfl rfl rfl
      | _ =>
        cases step
        exact passesAct (plainResume _ _ given rfl) (show _ = [_] ++ rest from rfl) rfl
  | call site f args =>
    simp only [next] at step
    split at step
    · cases step
      exact passesAct (plainRaise _ _ _) here rfl
    · rename_i few
      cases step
      exact .enters site f args rfl (Nat.lt_of_not_le few) rfl
  | round loop done =>
    cases step
    exact passesRound rfl
  | _ =>
    cases step
    exact passesAct (plainBegin _ _ (by rintro _ _ ⟨⟩)) here rfl

/-! ## What a run keeps -/

theorem heldAlong {P : Moment → Prop} (step : ∀ {M N}, Passes host M N → P M → P N) (first : P M)
    (reaches : Reaches host M N) : P N := by
  induction reaches with
  | refl => exact first
  | tail _ next ih => exact step (nextPasses next) ih

def IsBalanced (base : List Frame) (M : Moment) : Prop := M.machine.frames = active M.waiting ++ base

theorem bindingStays (pairs : List (String × Value)) (m : Machine) :
    Stays m (pairs.foldl (fun (m : Machine) (name,v) => m.set name v) m) := by
  induction pairs generalizing m with
  | nil => exact staysRefl m
  | cons pair rest ih =>
    have later := ih (m.set pair.1 pair.2)
    exact ⟨later.frames,later.stopped,later.looks⟩

theorem enterFrames (m : Machine) (site : CallSite) (params : List String) (args : List Value) :
    (m.enter site params args).frames = ⟨site.name,args,site.source,site.span.start⟩ :: m.frames :=
  congrArg (_ :: ·) (bindingStays (params.zip args) m.lend).frames

theorem backBalanced {base site args caller task rest} (before : M.waiting = .leave site args caller :: rest)
    (balanced : IsBalanced base M) :
    M.back site.source caller task rest = ⟨site.source,task,rest,M.machine.exit caller (active rest ++ base)⟩ := by
  have frames : M.machine.frames = ⟨site.name,args,site.source,site.span.start⟩ :: (active rest ++ base) := by
    rw [balanced,before]
    rfl
  rw [back,frames]

theorem balancedStep {base} (passes : Passes host M N) (balanced : IsBalanced base M) : IsBalanced base N := by
  unfold IsBalanced at balanced ⊢
  cases passes with
  | acts dropped more rest before after calls _ stays =>
    rw [stays.frames,balanced,before,after]
    simp only [active,List.filterMap_append] at calls ⊢
    rw [calls.1,calls.2]
  | enters site f args _ _ same =>
    rw [same]
    simp only [enterFrames,balanced]
    rfl
  | leaves site args caller task rest before same =>
    rw [same,backBalanced before balanced]
    rfl

end Moment
end Terakoya
