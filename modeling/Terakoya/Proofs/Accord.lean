import Mathlib.Data.List.Forall2
import Mathlib.Data.Option.Basic
import Terakoya.Machine.Eval
import Terakoya.Proofs.Trees

/-! Evaluation is gone through once. An accord says which machines belong together and what two runs from them are
to have in common, and that the single steps of evaluation have it. Then whatever is evaluated has it, with other
offsets in the second run. Where a single run matters, the second one is left out of account. -/
namespace Terakoya

open Run

variable {α : Type}

inductive Value.Alike : Value → Value → Prop where
  | int (n : Int) : Alike (.int n) (.int n)
  | null : Alike .null .null
  | seq (id id' : Nat) : Alike (.seq id) (.seq id')
  | fn (id id' : Nat) : Alike (.fn id) (.fn id')

def RuntimeFault.isInner : RuntimeFault → Bool
  | .answerOutside => false
  | .leaveOutside => false
  | _ => true

theorem Expr.spanMoved (f : Nat → Nat) (e : Expr) : (e.moved f).span = e.span.moved f := by
  cases e with
  | var p =>
    cases p
    rfl
  | _ => rfl

theorem Block.movedId (b : Block) : b.moved id = b := by
  have still : (Tree.block b).moved id = .block b := Tree.movedFixed (Tree.allOf (fun _ => rfl) _)
  exact Tree.block.inj still

theorem bodyMovedId (body : List Stmt) : bodyMoved id body = body :=
  Tree.bodyMovedFixed fun _ _ => Tree.movedFixed (Tree.allOf (fun _ => rfl) _)

theorem allMovedEmpty (f : Nat → Nat) (es : List Expr) : (allMoved f es).isEmpty = es.isEmpty := by
  rw [allMovedMap,List.isEmpty_map]

def Tree.inside (inFunction inLoop : Bool) : Tree → Bool × Bool
  | expr (.fn _ _ _) => (true,false)
  | stmt (.loop _ _ _) => (inFunction,true)
  | _ => (inFunction,inLoop)

theorem Option.relSelf {R : α → α → Prop} {found : Option α} (each : ∀ a, found = some a → R a a) : Option.Rel R found found := by
  cases found with
  | none => exact .none
  | some a => exact .some (each a rfl)

theorem Run.haltNone {p : α → Machine → Prop} {halt : Halt} {m : Machine} :
    ∀ a n, (EStateM.Result.error halt m : EStateM.Result Halt Machine α) = .ok a n → p a n := by
  rintro _ _ ⟨⟩

abbrev Common (α : Type) := α → α → Machine → Machine → Prop

structure Accord where
  shift : Nat → Nat
  Pairs : Machine → Machine → Prop
  Later : Machine → Machine → Machine → Machine → Prop
  /-- Two runs from two machines end with results, and at machines, of which something holds. -/
  Go {α : Type} : Common α → Run α → Run α → Machine → Machine → Prop
  /-- What may be written in a function or not, in a loop of it or not. -/
  Allows : (inFunction inLoop : Bool) → Tree → Prop
  value : Common Value
  slot : Common Slot
  function : Function → Function → Prop
  Leaves : (inLoop : Bool) → Prop
  Answers : (inFunction : Bool) → Prop

namespace Accord

variable (J : Accord) (ctx ctx' : Context)

structure Expressions : Prop where
  done {α : Type} {P : Common α} {a b m m'} (pairs : J.Pairs m m') (holds : P a b m m') :
    J.Go P (pure a) (pure b) m m'
  andThen {α β : Type} {P : Common α} {Q : Common β} {x x' f f' m m'}
    (pairs : J.Pairs m m') (first : J.Go P x x' m m')
    (next : ∀ a b n n', J.Pairs n n' → J.Later m m' n n' → P a b n n' → J.Go Q (f a) (f' b) n n') :
    J.Go Q (x >>= f) (x' >>= f') m m'
  below {inFunction inLoop n} (allowed : J.Allows inFunction inLoop n) :
    ∀ c ∈ n.children, J.Allows (n.inside inFunction inLoop).1 (n.inside inFunction inLoop).2 c
  alike {v v' m m'} (values : J.value v v' m m') : v.Alike v'
  int (n : Int) (m m' : Machine) : J.value (.int n) (.int n) m m'
  null (m m' : Machine) : J.value .null .null m m'
  keeps {v v' m m' n n'} (later : J.Later m m' n n') (values : J.value v v' m m') : J.value v v' n n'
  tail {id id' m m'} (values : J.value (.seq id) (.seq id') m m') : J.slot (.tail id) (.tail id') m m'
  header {f f'} (same : J.function f f') : f'.name = f.name ∧ f'.params = f.params
  christened {f f'} (same : J.function f f') (name : String) : J.function { f with name := some name } { f' with name := some name }
  literal {inFunction inLoop span params body} (allowed : J.Allows inFunction inLoop (.expr (.fn span params body))) :
    J.function ⟨none,params,body,ctx.source⟩ ⟨none,params,body.moved J.shift,ctx'.source⟩
  missing {α : Type} {P : Common α} {inFunction inLoop span s i m m'}
    (allowed : J.Allows inFunction inLoop (.expr (.text span s (some i)))) (none : s.toList[i]? = none) (pairs : J.Pairs m m') :
    J.Go P stuck stuck m m'
  raise {α : Type} {P : Common α} {m m'} (pairs : J.Pairs m m') (span : Span) {fault : RuntimeFault}
    (inner : fault.isInner) : J.Go P (ctx.raise span fault) (ctx'.raise (span.moved J.shift) fault) m m'
  reject {α : Type} {P : Common α} {m m' v v'} (pairs : J.Pairs m m') (values : J.value v v' m m')
    (span : Span) {fault : String → RuntimeFault} (inner : ∀ s, (fault s).isInner) :
    J.Go P (ctx.reject span fault v) (ctx'.reject (span.moved J.shift) fault v') m m'
  lookup {m m'} (pairs : J.Pairs m m') (name : String) : J.Go (fun found found' n n' =>
    Option.Rel (fun v v' => J.value v v' n n' ∧ J.slot (.name name) (.name name) n n') found found') (lookup name) (lookup name) m m'
  names {m m'} (pairs : J.Pairs m m') : J.Go (fun known known' _ _ => known = known') names names m m'
  newText {m m'} (pairs : J.Pairs m m') (s : String) : J.Go J.value (newText s) (newText s) m m'
  newList {m m' vs vs'} (pairs : J.Pairs m m') (values : List.Forall₂ (J.value · · m m') vs vs') :
    J.Go J.value (newList vs) (newList vs') m m'
  newFunction {m m' f f'} (pairs : J.Pairs m m') (same : J.function f f') : J.Go J.value (newFunction f) (newFunction f') m m'
  functionAt {m m' id id'} (pairs : J.Pairs m m') (values : J.value (.fn id) (.fn id') m m') :
    J.Go (fun f f' _ _ => J.function f f') (functionAt id) (functionAt id') m m'
  elementAt {m m' id id' i} (pairs : J.Pairs m m') (slots : J.slot (.element id i) (.element id' i) m m') : J.Go (fun v v' n n' =>
    J.value v v' n n' ∧ J.slot (.element id i) (.element id' i) n n') (elementAt id i) (elementAt id' i) m m'
  lengthOf {m m' id id'} (pairs : J.Pairs m m') (values : J.value (.seq id) (.seq id') m m') : J.Go (fun k k' n n' =>
    k = k' ∧ ∀ i < k, J.slot (.element id i) (.element id' i) n n') (lengthOf id) (lengthOf id') m m'
  pick {m m' id id' k} (pairs : J.Pairs m m') (some : k ≠ 0) (slots : ∀ i < k, J.slot (.element id i) (.element id' i) m m') :
    J.Go (fun i i' n n' => i = i' ∧ J.slot (.element id i) (.element id' i) n n') (pick ctx.host k) (pick ctx'.host k) m m'
  read {m m' s s'} (pairs : J.Pairs m m') (slots : J.slot s s' m m') :
    J.Go (fun v v' n n' => J.value v v' n n' ∧ J.slot s s' n n') (read s) (read s') m m'
  call {m m' f f' vs vs'} (pairs : J.Pairs m m') (same : J.function f f') (values : List.Forall₂ (J.value · · m m') vs vs')
    (name : String) (span : Span) :
    J.Go J.value (ctx.invoke ⟨name,span,ctx.source⟩ f vs) (ctx'.invoke ⟨name,span.moved J.shift,ctx'.source⟩ f' vs') m m'

structure Statements : Prop extends Expressions J ctx ctx' where
  leave {inFunction inLoop span} (allowed : J.Allows inFunction inLoop (.stmt (.leave span))) : J.Leaves inLoop
  answer {inFunction inLoop span e} (allowed : J.Allows inFunction inLoop (.stmt (.answer span e))) : J.Answers inFunction
  leaveOutside {α : Type} {P : Common α} {m m'} (pairs : J.Pairs m m') (leaves : J.Leaves false)
    (span : Span) : J.Go P (ctx.raise span .leaveOutside) (ctx'.raise (span.moved J.shift) .leaveOutside) m m'
  answerOutside {α : Type} {P : Common α} {m m'} (pairs : J.Pairs m m') (answers : J.Answers false)
    (span : Span) : J.Go P (ctx.raise span .answerOutside) (ctx'.raise (span.moved J.shift) .answerOutside) m m'
  write {m m' s s' v v'} (pairs : J.Pairs m m') (slots : J.slot s s' m m') (values : J.value v v' m m') :
    J.Go (fun _ _ _ _ => True) (write s v) (write s' v') m m'
  assign {m m' v v'} (pairs : J.Pairs m m') (values : J.value v v' m m') (name : String) :
    J.Go (fun _ _ _ _ => True) (assign name v) (assign name v') m m'
  count {m m' c} (pairs : J.Pairs m m') (some : c = countIncrement ∨ c = countDecrement ∨ c = countComparison) :
    J.Go (fun _ _ _ _ => True) c c m m'
  equal {m m' v v' w w'} (pairs : J.Pairs m m') (values : J.value v v' m m') (others : J.value w w' m m') :
    J.Go (fun same same' _ _ => same = same') (equal v w) (equal v' w') m m'
  incomparable {m m' v v' w w'} (pairs : J.Pairs m m') (values : J.value v v' m m') (others : J.value w w' m m') (span : Span)
    (symbol : String) : J.Go (fun same same' _ _ => same = same')
      (raiseWith ctx.source span.start fun h => .incomparable (h.typeWord v) (h.typeWord w) symbol : Run Bool)
      (raiseWith ctx'.source (span.moved J.shift).start fun h => .incomparable (h.typeWord v') (h.typeWord w') symbol) m m'
  badCount {P : Common Flow} {m m' v v'} (pairs : J.Pairs m m') (values : J.value v v' m m')
    (span : Span) : J.Go P (raiseWith ctx.source span.start fun h => .badCount (h.typeWord v))
      (raiseWith ctx'.source (span.moved J.shift).start fun h => .badCount (h.typeWord v')) m m'
  mismatch {P : Common Flow} {m m' v v' w w'} (pairs : J.Pairs m m') (values : J.value v v' m m')
    (others : J.value w w' m m') (span : Span) : J.Go P
      (fun m => .error (.failed
        { fault := .mismatch (m.heap.describe w) (m.heap.describe v)
          location := Location.ofOffset ctx.source span.start
          trace := m.trace
          actual := some (m.heap.literal v) }) m)
      (fun m => .error (.failed
        { fault := .mismatch (m.heap.describe w') (m.heap.describe v')
          location := Location.ofOffset ctx'.source (span.moved J.shift).start
          trace := m.trace
          actual := some (m.heap.literal v') }) m) m m'
  observe {m m' v v'} (pairs : J.Pairs m m') (values : J.value v v' m m') :
    J.Go (fun _ _ _ _ => True) (observe ctx.host v) (observe ctx'.host v') m m'
  check {m m'} (pairs : J.Pairs m m') (span : Span) : J.Go (fun _ _ _ _ => True) (check ctx.host ctx.source span.start)
    (check ctx'.host ctx'.source (span.moved J.shift).start) m m'
  horizon : ctx'.host.horizon = ctx.host.horizon
  unfinished {P : Common Flow} {m m'} (pairs : J.Pairs m m') :
    J.Go P (fun m => .error .unfinished m) (fun m => .error .unfinished m) m m'

variable {J ctx ctx'} {m m' : Machine}

namespace Expressions

variable (steps : J.Expressions ctx ctx')

include steps

theorem weaken {P Q : Common α} {x x'} (pairs : J.Pairs m m') (go : J.Go P x x' m m')
    (weaker : ∀ a b n n', P a b n n' → Q a b n n') : J.Go Q x x' m m' := by
  have again := steps.andThen pairs go fun a b n n' pairs _ holds => steps.done pairs (weaker a b n n' holds)
  rwa [bind_pure,bind_pure] at again

theorem goIndexFor (pairs : J.Pairs m m') {id id' v v'} (sequence : J.value (.seq id) (.seq id') m m')
    (values : J.value v v' m m') (span : Span) (atEnd : Bool) : J.Go (fun found found' n n' =>
      Option.Rel (fun i i' => i = i' ∧ J.slot (.element id i) (.element id' i) n n') found found')
      (ctx.indexFor span id atEnd v) (ctx'.indexFor (span.moved J.shift) id' atEnd v') m m' := by
  cases steps.alike values with
  | null =>
    simp only [Context.indexFor]
    split
    · exact steps.done pairs .none
    · refine steps.andThen pairs (steps.lengthOf pairs sequence) fun k k' n n' pairs later length => ?_
      obtain ⟨rfl,slots⟩ := length
      split
      · exact steps.raise pairs span rfl
      · rename_i elements
        exact steps.andThen pairs (steps.pick pairs elements slots) fun i i' n n' pairs _ picked => steps.done pairs (.some picked)
  | int k =>
    refine steps.andThen pairs (steps.lengthOf pairs sequence) fun k k' n n' pairs later length => ?_
    obtain ⟨rfl,slots⟩ := length
    split
    · exact steps.raise pairs span rfl
    · split
      · exact steps.done pairs (.some ⟨rfl,slots _ (by omega)⟩)
      · exact steps.raise pairs span rfl
  | seq id id' => exact steps.reject pairs values span fun _ => rfl
  | fn id id' => exact steps.reject pairs values span fun _ => rfl

mutual

theorem goExpr (inFunction inLoop : Bool) (e : Expr) (allowed : J.Allows inFunction inLoop (.expr e)) {m m'} (pairs : J.Pairs m m') :
    J.Go J.value (ctx.expr e) (ctx'.expr (e.moved J.shift)) m m' := by
  cases e with
  | int span n => exact steps.done pairs (steps.int n _ _)
  | null span => exact steps.done pairs (steps.null _ _)
  | text span s index =>
    cases index with
    | none => exact steps.newText pairs s
    | some i =>
      simp only [Context.expr,Expr.moved]
      cases there : s.toList[i]? with
      | some c => exact steps.done pairs (steps.int _ _ _)
      | none => exact steps.missing allowed there pairs
  | seq span items =>
    exact steps.andThen pairs (goExprs _ _ items (steps.below allowed) pairs) fun vs vs' n n' pairs _ values => steps.newList pairs values
  | var p =>
    exact steps.andThen pairs (goPlace false p allowed pairs) fun s s' n n' pairs _ slots =>
      steps.weaken pairs (steps.read pairs slots) fun _ _ _ _ => And.left
  | fn span params body => exact steps.newFunction pairs (steps.literal allowed)
  | call span name args =>
    refine steps.andThen pairs (steps.lookup pairs name) fun found found' n n' pairs _ known => ?_
    cases known with
    | none =>
      exact steps.andThen pairs (steps.names pairs) fun known known' n n' pairs _ same =>
        same ▸ steps.raise pairs span rfl
    | @some v v' known =>
      cases steps.alike known.1 with
      | fn id id' =>
        refine steps.andThen pairs (steps.functionAt pairs known.1) fun f f' n n' pairs _ same => ?_
        rw [allMovedMap,List.length_map,← allMovedMap,(steps.header same).2]
        split
        · exact steps.raise pairs span rfl
        · exact steps.andThen pairs (goExprs _ _ args (steps.below allowed) pairs) fun vs vs' n n' pairs _ values =>
            steps.call pairs same values name span
      | int k => exact steps.reject pairs known.1 span fun _ => rfl
      | null => exact steps.reject pairs known.1 span fun _ => rfl
      | seq id id' => exact steps.reject pairs known.1 span fun _ => rfl
  | neg span e =>
    refine steps.andThen pairs (goExpr _ _ e (steps.below allowed _ (.head _)) pairs) fun v v' n n' pairs _ values => ?_
    cases steps.alike values with
    | int k => exact steps.done pairs (steps.int _ _ _)
    | null => exact steps.reject pairs values span fun _ => rfl
    | seq id id' => exact steps.reject pairs values span fun _ => rfl
    | fn id id' => exact steps.reject pairs values span fun _ => rfl
  | len span e =>
    refine steps.andThen pairs (goExpr _ _ e (steps.below allowed _ (.head _)) pairs) fun v v' n n' pairs _ values => ?_
    cases steps.alike values with
    | seq id id' =>
      exact steps.andThen pairs (steps.lengthOf pairs values) fun k k' n n' pairs _ same =>
        steps.done pairs (same.1 ▸ steps.int _ _ _)
    | int k => exact steps.reject pairs values span fun _ => rfl
    | null => exact steps.reject pairs values span fun _ => rfl
    | fn id id' => exact steps.reject pairs values span fun _ => rfl

theorem goExprs (inFunction inLoop : Bool) (es : List Expr) (allowed : ∀ c ∈ es.map Tree.expr, J.Allows inFunction inLoop c) {m m'}
    (pairs : J.Pairs m m') : J.Go (fun vs vs' n n' => List.Forall₂ (J.value · · n n') vs vs')
      (ctx.exprs es) (ctx'.exprs (allMoved J.shift es)) m m' := by
  cases es with
  | nil => exact steps.done pairs .nil
  | cons e rest =>
    exact steps.andThen pairs (goExpr _ _ e (allowed _ (.head _)) pairs) fun v v' n n' pairs _ values =>
      steps.andThen pairs (goExprs _ _ rest (fun c inside => allowed c (.tail _ inside)) pairs) fun vs vs' n n' pairs later others =>
      steps.done pairs (.cons (steps.keeps later values) others)

theorem goPlace {inFunction inLoop} (write : Bool) (p : Place) (allowed : J.Allows inFunction inLoop (.expr (.var p))) {m m'}
    (pairs : J.Pairs m m') : J.Go J.slot (ctx.place write p) (ctx'.place write (p.moved J.shift)) m m' := by
  cases p with
  | mk span name indices =>
    refine steps.andThen pairs (steps.lookup pairs name) fun found found' n n' pairs _ known => ?_
    cases known with
    | none =>
      exact steps.andThen pairs (steps.names pairs) fun known known' n n' pairs _ same =>
        same ▸ steps.raise pairs span rfl
    | some known => exact goWalk write span indices (steps.below allowed) pairs known.1 known.2

theorem goWalk {inFunction inLoop} (write : Bool) (span : Span) {s s' v v'} (indices : List Expr)
    (allowed : ∀ c ∈ indices.map Tree.expr, J.Allows inFunction inLoop c) {m m'} (pairs : J.Pairs m m')
    (values : J.value v v' m m') (slots : J.slot s s' m m') : J.Go J.slot (ctx.walk write span s v indices)
      (ctx'.walk write (span.moved J.shift) s' v' (allMoved J.shift indices)) m m' := by
  cases indices with
  | nil => exact steps.done pairs slots
  | cons index rest =>
    cases steps.alike values with
    | seq id id' =>
      simp only [Context.walk,allMoved,allMovedEmpty,Expr.spanMoved]
      refine steps.andThen pairs (goExpr _ _ index (allowed _ (.head _)) pairs) fun i i' n n' pairs later chosen =>
        steps.andThen pairs (steps.goIndexFor pairs (steps.keeps later values) chosen _ _) fun found found' k k' pairs again known => ?_
      cases known with
      | none => exact steps.done pairs (steps.tail (steps.keeps again (steps.keeps later values)))
      | @some i i' known =>
        obtain ⟨rfl,known⟩ := known
        dsimp only
        split
        · exact steps.done pairs known
        · exact steps.andThen pairs (steps.elementAt pairs known) fun w w' n n' pairs _ element =>
            goWalk write span rest (fun c inside => allowed c (.tail _ inside)) pairs element.1 element.2
    | int n => exact steps.reject pairs values span fun _ => rfl
    | null => exact steps.reject pairs values span fun _ => rfl
    | fn id id' => exact steps.reject pairs values span fun _ => rfl

end

theorem goChristen (name : String) {v v'} (pairs : J.Pairs m m') (values : J.value v v' m m') :
    J.Go J.value (Context.christen name v) (Context.christen name v') m m' := by
  cases steps.alike values with
  | fn id id' =>
    refine steps.andThen pairs (steps.functionAt pairs values) fun f f' n n' pairs later same => ?_
    rw [(steps.header same).1]
    split
    · exact steps.done pairs (steps.keeps later values)
    · exact steps.newFunction pairs (steps.christened same name)
  | int n => exact steps.done pairs values
  | null => exact steps.done pairs values
  | seq id id' => exact steps.done pairs values

end Expressions

inductive flow (J : Accord) (inFunction inLoop : Bool) : Common Flow where
  | next {m m' : Machine} : flow J inFunction inLoop .next .next m m'
  | answered {v v' span} {m m' : Machine} (answers : J.Answers inFunction) (values : J.value v v' m m') :
      flow J inFunction inLoop (.answered v span) (.answered v' (span.moved J.shift)) m m'
  | left {span} {m m' : Machine} (leaves : J.Leaves inLoop) :
      flow J inFunction inLoop (.left span) (.left (span.moved J.shift)) m m'

namespace Statements

variable (steps : J.Statements ctx ctx')

include steps

theorem goCompare (span : Span) (cmp : Comparator) {v v' w w'} (pairs : J.Pairs m m') (values : J.value v v' m m')
    (others : J.value w w' m m') : J.Go (fun same same' _ _ => same = same') (ctx.compare span cmp v w)
      (ctx'.compare (span.moved J.shift) cmp v' w') m m' := by
  have ordered := steps.incomparable pairs values others span cmp.symbol
  cases cmp with
  | equal => exact steps.equal pairs values others
  | notEqual => exact steps.andThen pairs (steps.equal pairs values others) fun _ _ _ _ pairs _ same => steps.done pairs (congrArg _ same)
  | _ =>
    cases steps.alike values with
    | int l =>
      cases steps.alike others with
      | int r => exact steps.done pairs rfl
      | _ => exact ordered
    | _ => exact ordered

theorem goStep (span : Span) (use : IntegerUse) (delta : Int) {s s'} (pairs : J.Pairs m m') (slots : J.slot s s' m m') :
    J.Go (fun _ _ _ _ => True) (ctx.step span use delta s) (ctx'.step (span.moved J.shift) use delta s') m m' := by
  refine steps.andThen pairs (steps.read pairs slots) fun v v' n n' pairs _ there => ?_
  cases steps.alike there.1 with
  | int n => exact steps.write pairs there.2 (steps.int _ _ _)
  | null => exact steps.reject pairs there.1 span fun _ => rfl
  | seq id id' => exact steps.reject pairs there.1 span fun _ => rfl
  | fn id id' => exact steps.reject pairs there.1 span fun _ => rfl

theorem goRounds {inFunction inLoop} {check check' : Run Unit} {body body' after after'}
    (checked : ∀ {m m'}, J.Pairs m m' → J.Go (fun _ _ _ _ => True) check check' m m')
    (round : ∀ {m m'}, J.Pairs m m' → J.Go (J.flow inFunction true) body body' m m')
    (last : ∀ {m m'}, J.Pairs m m' → J.Go (J.flow inFunction inLoop) after after' m m') (n : Nat) (pairs : J.Pairs m m') :
    J.Go (J.flow inFunction inLoop) (rounds check body after n) (rounds check' body' after' n) m m' := by
  induction n generalizing m m' with
  | zero => exact last pairs
  | succ n ih =>
    refine steps.andThen pairs (checked pairs) fun _ _ _ _ pairs _ _ =>
      steps.andThen pairs (round pairs) fun flow flow' _ _ pairs _ flows => ?_
    cases flows with
    | next => exact ih pairs
    | left leaves => exact steps.done pairs .next
    | answered answers values => exact steps.done pairs (.answered answers values)

mutual

theorem goStmt {inFunction inLoop} (s : Stmt) (allowed : J.Allows inFunction inLoop (.stmt s)) {m m'} (pairs : J.Pairs m m') :
    J.Go (J.flow inFunction inLoop) (ctx.stmt s) (ctx'.stmt (s.moved J.shift)) m m' := by
  have under := steps.below allowed
  cases s with
  | assign span target e =>
    obtain ⟨place,name,indices⟩ := target
    refine steps.andThen pairs (steps.goExpr _ _ e (under _ (.tail _ (.head _))) pairs) fun v v' n n' pairs _ values => ?_
    cases indices with
    | nil =>
      exact steps.andThen pairs (steps.goChristen name pairs values) fun w w' n n' pairs _ values =>
        steps.andThen pairs (steps.assign pairs values name) fun _ _ _ _ pairs _ _ => steps.done pairs .next
    | cons index rest =>
      exact steps.andThen pairs (steps.goPlace true (.mk place name (index :: rest)) (under _ (.head _)) pairs)
        fun s s' n n' pairs later slots => steps.andThen pairs (steps.write pairs slots (steps.keeps later values))
        fun _ _ _ _ pairs _ _ => steps.done pairs .next
  | append span target e =>
    refine steps.andThen pairs (steps.goPlace false target (under _ (.head _)) pairs) fun s s' n n' pairs _ slots =>
      steps.andThen pairs (steps.read pairs slots) fun v v' n n' pairs _ there => ?_
    cases steps.alike there.1 with
    | seq id id' =>
      exact steps.andThen pairs (steps.goExpr _ _ e (under _ (.tail _ (.head _))) pairs) fun w w' n n' pairs later values =>
        steps.andThen pairs (steps.write pairs (steps.tail (steps.keeps later there.1)) values) fun _ _ _ _ pairs _ _ => steps.done pairs .next
    | int n => exact steps.reject pairs there.1 span fun _ => rfl
    | null => exact steps.reject pairs there.1 span fun _ => rfl
    | fn id id' => exact steps.reject pairs there.1 span fun _ => rfl
  | increment span target =>
    exact steps.andThen pairs (steps.goPlace false target (under _ (.head _)) pairs) fun s s' n n' pairs _ slots =>
      steps.andThen pairs (steps.goStep span _ _ pairs slots) fun _ _ _ _ pairs _ _ =>
      steps.andThen pairs (steps.count pairs (.inl rfl)) fun _ _ _ _ pairs _ _ => steps.done pairs .next
  | decrement span target =>
    exact steps.andThen pairs (steps.goPlace false target (under _ (.head _)) pairs) fun s s' n n' pairs _ slots =>
      steps.andThen pairs (steps.goStep span _ _ pairs slots) fun _ _ _ _ pairs _ _ =>
      steps.andThen pairs (steps.count pairs (.inr (.inl rfl))) fun _ _ _ _ pairs _ _ => steps.done pairs .next
  | cond span left right cmp yes no =>
    have branch {other other' : Run Flow}
        (otherwise : ∀ {m m'}, J.Pairs m m' → J.Go (J.flow inFunction inLoop) other other' m m') :
        J.Go (J.flow inFunction inLoop) (do
          let l ← ctx.expr left
          let r ← ctx.expr right
          let holds ← ctx.compare span cmp l r
          countComparison
          if holds then ctx.block yes else other) (do
          let l ← ctx'.expr (left.moved J.shift)
          let r ← ctx'.expr (right.moved J.shift)
          let holds ← ctx'.compare (span.moved J.shift) cmp l r
          countComparison
          if holds then ctx'.block (yes.moved J.shift) else other') m m' := by
      refine steps.andThen pairs (steps.goExpr _ _ left (under _ (.head _)) pairs) fun l l' n n' pairs _ lefts =>
        steps.andThen pairs (steps.goExpr _ _ right (under _ (.tail _ (.head _))) pairs) fun r r' n n' pairs later rights =>
        steps.andThen pairs (steps.goCompare span cmp pairs (steps.keeps later lefts) rights) fun holds holds' n n' pairs _ same =>
        steps.andThen pairs (steps.count pairs (.inr (.inr rfl))) fun _ _ n n' pairs _ _ => ?_
      subst same
      cases holds with
      | true => exact goBlock yes (under _ (.tail _ (.tail _ (.head _)))) pairs
      | false => exact otherwise pairs
    cases no with
    | none => exact branch fun pairs => steps.done pairs .next
    | some b => exact branch fun pairs => goBlock b (under _ (.tail _ (.tail _ (.tail _ (.head _))))) pairs
  | loop span count body =>
    refine steps.andThen pairs (steps.goExpr _ _ count (under _ (.head _)) pairs) fun v v' n n' pairs _ values => ?_
    have round {m m'} (pairs : J.Pairs m m') :
        J.Go (J.flow inFunction true) (ctx.block body) (ctx'.block (body.moved J.shift)) m m' :=
      goBlock body (under _ (.tail _ (.head _))) pairs
    cases steps.alike values with
    | null =>
      dsimp only
      rw [steps.horizon]
      exact steps.goRounds (fun pairs => steps.check pairs span) round steps.unfinished _ pairs
    | int n =>
      dsimp only
      split
      · exact steps.raise pairs span rfl
      · exact steps.goRounds (fun pairs => steps.check pairs span) round (fun pairs => steps.done pairs .next) _ pairs
    | seq id id' => exact steps.badCount pairs values span
    | fn id id' => exact steps.badCount pairs values span
  | leave span => exact steps.done pairs (.left (steps.leave allowed))
  | answer span e =>
    exact steps.andThen pairs (steps.goExpr _ _ e (under _ (.head _)) pairs) fun v v' n n' pairs _ values =>
      steps.done pairs (.answered (steps.answer allowed) values)
  | observe span e =>
    exact steps.andThen pairs (steps.goExpr _ _ e (under _ (.head _)) pairs) fun v v' n n' pairs _ values =>
      steps.andThen pairs (steps.observe pairs values) fun _ _ _ _ pairs _ _ => steps.done pairs .next
  | doctest span e wanted =>
    refine steps.andThen pairs (steps.goExpr _ _ e (under _ (.head _)) pairs) fun v v' n n' pairs _ values =>
      steps.andThen pairs (steps.goExpr _ _ wanted (under _ (.tail _ (.head _))) pairs) fun w w' n n' pairs later others => ?_
    have kept := steps.keeps later values
    refine steps.andThen pairs (steps.equal pairs kept others) fun same same' n n' pairs later agreed => ?_
    subst agreed
    cases same with
    | true => exact steps.done pairs .next
    | false => exact steps.mismatch pairs (steps.keeps later kept) (steps.keeps later others) span

theorem goBlock {inFunction inLoop} (b : Block) (allowed : J.Allows inFunction inLoop (.block b)) {m m'} (pairs : J.Pairs m m') :
    J.Go (J.flow inFunction inLoop) (ctx.block b) (ctx'.block (b.moved J.shift)) m m' := by
  cases b with
  | mk span body => exact goStmts body (steps.below allowed) pairs

theorem goStmts {inFunction inLoop} (body : List Stmt) (allowed : ∀ c ∈ body.map Tree.stmt, J.Allows inFunction inLoop c) {m m'}
    (pairs : J.Pairs m m') :
    J.Go (J.flow inFunction inLoop) (ctx.stmts body) (ctx'.stmts (bodyMoved J.shift body)) m m' := by
  cases body with
  | nil => exact steps.done pairs .next
  | cons s rest =>
    refine steps.andThen pairs (goStmt s (allowed _ (.head _)) pairs) fun flow flow' n n' pairs _ flows => ?_
    cases flows with
    | next => exact goStmts rest (fun c inside => allowed c (.tail _ inside)) pairs
    | answered answers values => exact steps.done pairs (.answered answers values)
    | left leaves => exact steps.done pairs (.left leaves)

end

theorem goAnswerOf (body : Block) (allowed : J.Allows true false (.block body)) (pairs : J.Pairs m m') :
    J.Go J.value (ctx.answerOf body) (ctx'.answerOf (body.moved J.shift)) m m' := by
  refine steps.andThen pairs (steps.goBlock body allowed pairs) fun flow flow' n n' pairs _ flows => ?_
  cases flows with
  | answered answers values => exact steps.done pairs values
  | next => exact steps.done pairs (steps.null _ _)
  | left leaves => exact steps.leaveOutside pairs leaves _

theorem goProgram (body : List Stmt) (allowed : ∀ c ∈ body.map Tree.stmt, J.Allows false false c) (pairs : J.Pairs m m') :
    J.Go (fun _ _ _ _ => True) (ctx.program body) (ctx'.program (body.map (Stmt.moved J.shift))) m m' := by
  induction body generalizing m m' with
  | nil => exact steps.done pairs trivial
  | cons s rest ih =>
    refine steps.andThen pairs (steps.goStmt s (allowed _ (.head _)) pairs) fun flow flow' n n' pairs _ flows => ?_
    cases flows with
    | next => exact ih (fun c inside => allowed c (.tail _ inside)) pairs
    | answered answers values => exact steps.answerOutside pairs answers _
    | left leaves => exact steps.leaveOutside pairs leaves _

end Statements

end Accord

end Terakoya
