import Terakoya.Proofs.Accord
import Terakoya.Proofs.Tables

/-! What a run does to the names in scope. A statement may write to the environment it runs in, and
to no other one. An expression writes to none: each call gets a copy and gives it back, however it
ends, so that the caller finds its names and the counter of its table as they were. -/
namespace Terakoya

variable {α β : Type}

section Writes

variable {s s₁ s₂ : Shelf α} {e e₁ e₂ : Environment}

theorem writtenTrans {f g : Bindings α → Bindings α} (first : Written f s e s₁ e₁)
    (second : Written g s₁ e₁ s₂ e₂) : Written (g ∘ f) s e s₂ e₂ := by
  cases first with
  | @alone i b held =>
    cases second with
    | @alone _ b' held' =>
      have same : b' = f b := by simpa using held'.symm
      subst same
      rw [Function.update_idem]
      exact .alone held
    | cloned held' free => simp at held'
  | @cloned i b n k held free =>
    cases second with
    | @alone _ b' held' =>
      have same : b' = f b := by simpa using held'.symm
      subst same
      rw [Function.update_idem]
      exact .cloned held free
    | cloned held' free' => simp at held'

theorem writtenHeld {f : Bindings α → Bindings α} (written : Written f s e s₁ e₁) : e₁.Held s₁ := by
  cases written with
  | @alone i b held => exact ⟨i,⟨f b,1⟩,rfl,by simp⟩
  | @cloned i b n k held free => exact ⟨k,⟨f b,1⟩,rfl,by simp⟩

def Rewritten (s : Shelf α) (e : Environment) (s₁ : Shelf α) (e₁ : Environment) : Prop :=
  (s₁ = s ∧ e₁ = e) ∨ ∃ f, Written f s e s₁ e₁

theorem rewrittenTrans (first : Rewritten s e s₁ e₁) (second : Rewritten s₁ e₁ s₂ e₂) :
    Rewritten s e s₂ e₂ := by
  rcases first with ⟨rfl,rfl⟩ | ⟨f,first⟩
  · exact second
  · rcases second with ⟨rfl,rfl⟩ | ⟨g,second⟩
    · exact .inr ⟨f,first⟩
    · exact .inr ⟨g ∘ f,writtenTrans first second⟩

theorem rewrittenHeld (rewritten : Rewritten s e s₁ e₁) (held : e.Held s) : e₁.Held s₁ := by
  rcases rewritten with ⟨rfl,rfl⟩ | ⟨f,written⟩
  · exact held
  · exact writtenHeld written

theorem releaseRewritten {ts ts₁ : Tables α} {i t} (held : ts.live i = some t)
    (rewritten : Rewritten (Function.update ts.live i (some ⟨t.bindings,t.refs + 1⟩)) ⟨some i⟩
      ts₁.live e₁) : (ts₁.release e₁).1.live = ts.live := by
  have positive := (Tables.liveSome.mp held).2
  rcases rewritten with ⟨shelf,rfl⟩ | ⟨f,written⟩
  · have shared : ts₁.live i = some ⟨t.bindings,t.refs + 1⟩ := by simp [shelf]
    have more : ¬t.refs + 1 = 1 := by omega
    rw [Tables.liveRelease shared,shelf,Function.update_idem,if_neg more]
    exact Function.update_eq_self_iff.mpr held.symm
  · generalize shelf : ts₁.live = s₁ at written
    cases written with
    | @alone _ b alone =>
      have one : t.refs + 1 = 1 := by
        simp only [Function.update_self,Option.some.injEq,Table.mk.injEq] at alone
        exact alone.2
      omega
    | @cloned _ b n k shared free =>
      obtain ⟨rfl,count⟩ : t.bindings = b ∧ t.refs = n + 1 := by simpa using shared
      have apart : k ≠ i := by
        intro same
        simp [same] at free
      have own : ts₁.live k = some ⟨f t.bindings,1⟩ := by simp [shelf]
      have vacant : ts.live k = none := by simpa [apart] using free
      have back : (some ⟨t.bindings,n + 1⟩ : Option (Table α)) = ts.live i := by rw [held,← count]
      rw [Tables.liveRelease own,shelf,if_pos rfl]
      funext j
      by_cases new : j = k
      · simp [new,vacant]
      · by_cases old : j = i
        · subst old
          simp [new,back]
        · simp [new,old]

end Writes

namespace Run

def final : EStateM.Result Halt Machine α → Machine
  | .ok _ n => n
  | .error _ n => n

def Keeps (R : Machine → Machine → Prop) (x : Run α) : Prop := ∀ m, R m (final (x m))

structure Steady (R : Machine → Machine → Prop) : Prop where
  refl : ∀ m, R m m
  trans : ∀ {a b c}, R a b → R b c → R a c

section Keeps

variable {R : Machine → Machine → Prop}

structure Kept (R : Machine → Machine → Prop) (P : Common α) (x : Run α) (m : Machine) : Prop where
  last : R m (final (x m))
  result : ∀ a n, x m = .ok a n → ∃ b, P a b n n

variable {m : Machine} {P : Common α} {x : Run α}

theorem keptBind (steady : Steady R) {Q : Common β} {f : α → Run β} (first : Kept R P x m)
    (next : ∀ a b n, P a b n n → Kept R Q (f a) n) : Kept R Q (x >>= f) m := by
  obtain ⟨step,holds⟩ := first
  cases result : x m with
  | ok a n =>
    rw [result] at step
    obtain ⟨b,held⟩ := holds a n result
    have later := next a b n held
    have same : (x >>= f) m = f a n := by simp only [bind,EStateM.bind,result]
    exact ⟨same ▸ steady.trans step later.last,same ▸ later.result⟩
  | error halt n =>
    rw [result] at step
    have same : (x >>= f) m = .error halt n := by simp only [bind,EStateM.bind,result]
    exact ⟨same ▸ step,same ▸ haltNone⟩

theorem keptStill (steady : Steady R) (still : final (x m) = m) (holds : ∀ a n, P a a n n) : Kept R P x m :=
  ⟨still.symm ▸ steady.refl m,fun a n _ => ⟨a,holds a n⟩⟩

theorem finalFunctionAt (id : Nat) (m : Machine) : final (functionAt id m) = m := by
  unfold functionAt
  split <;> rfl

theorem finalElementAt (id index : Nat) (m : Machine) : final (elementAt id index m) = m := by
  unfold elementAt
  split
  · split <;> rfl
  · rfl

theorem finalRead (slot : Slot) (m : Machine) : final (read slot m) = m := by
  cases slot with
  | name name =>
    simp only [read,lookup,bind,EStateM.bind]
    cases m.get? name <;> rfl
  | element id index => exact finalElementAt id index m
  | tail id => rfl

end Keeps

end Run

def Machine.InScope (m : Machine) : Prop := m.scope.Held m.tables.live

structure Undisturbed (m n : Machine) : Prop where
  scope : n.scope = m.scope
  shelf : n.tables.live = m.tables.live
  frames : n.frames = m.frames
  functions : m.heap.functions.toList <+: n.heap.functions.toList

structure Disturbed (m n : Machine) : Prop where
  names : Rewritten m.tables.live m.scope n.tables.live n.scope
  frames : n.frames = m.frames
  functions : m.heap.functions.toList <+: n.heap.functions.toList

def Borrows (m n : Machine) : Prop := m.InScope → Undisturbed m n

def Writes (m n : Machine) : Prop := m.InScope → Disturbed m n

theorem steadyBorrows : Run.Steady Borrows where
  refl m _ := ⟨rfl,rfl,rfl,List.prefix_rfl⟩
  trans {a b c} first second inScope := by
    have one := first inScope
    have there : b.InScope := by
      unfold Machine.InScope
      rw [one.scope,one.shelf]
      exact inScope
    have two := second there
    exact ⟨two.scope.trans one.scope,two.shelf.trans one.shelf,two.frames.trans one.frames,
      one.functions.trans two.functions⟩

theorem steadyWrites : Run.Steady Writes where
  refl m _ := ⟨.inl ⟨rfl,rfl⟩,rfl,List.prefix_rfl⟩
  trans first second inScope := by
    have one := first inScope
    have two := second (rewrittenHeld one.names inScope)
    exact ⟨rewrittenTrans one.names two.names,two.frames.trans one.frames,
      one.functions.trans two.functions⟩

theorem borrowsWrites {m n : Machine} (borrows : Borrows m n) : Writes m n := by
  intro inScope
  have h := borrows inScope
  exact ⟨.inl ⟨h.shelf,h.scope⟩,h.frames,h.functions⟩

namespace Run

theorem borrowsNewFunction (f : Function) : Keeps Borrows (newFunction f) := by
  intro m _
  refine ⟨rfl,rfl,rfl,?_⟩
  simp [newFunction,final,Heap.addFunction]

theorem borrowsPick (host : Host) (n : Nat) : Keeps Borrows (pick host n) := by
  intro m _
  unfold pick
  split <;> exact ⟨rfl,rfl,rfl,List.prefix_rfl⟩

theorem writesSet (m : Machine) (name : String) (v : Value) : Writes m (m.set name v) := by
  intro inScope
  exact ⟨.inr ⟨_,Tables.setWritten inScope name v⟩,rfl,List.prefix_rfl⟩

theorem writesSlot (slot : Slot) (v : Value) : Keeps Writes (write slot v) := by
  intro m
  cases slot with
  | name name => exact writesSet m name v
  | element id index =>
    simp only [write]
    split <;> exact fun _ => ⟨.inl ⟨rfl,rfl⟩,rfl,List.prefix_rfl⟩
  | tail id => exact fun _ => ⟨.inl ⟨rfl,rfl⟩,rfl,List.prefix_rfl⟩

theorem borrowsCheck (host : Host) (source : Text) (offset : Nat) :
    Keeps Borrows (check host source offset) := by
  intro m _
  unfold check
  split
  · exact ⟨rfl,rfl,rfl,List.prefix_rfl⟩
  · split <;> exact ⟨rfl,rfl,rfl,List.prefix_rfl⟩

end Run

namespace Context

open Run

variable {ctx : Context}

def CallsBorrow (ctx : Context) : Prop := ∀ site f args, Keeps Borrows (ctx.invoke site f args)

abbrev keeping (R : Machine → Machine → Prop) : Accord where
  shift := id
  Pairs m m' := m' = m
  Later _ _ _ _ := True
  Go P x _ m _ := Kept R P x m
  Allows _ _ _ := True
  value v v' _ _ := v = v'
  slot s s' _ _ := s = s'
  function f f' := f' = f
  Leaves _ := True
  Answers _ := True

theorem expressionsKeep {R : Machine → Machine → Prop} (steady : Steady R) (borrows : ∀ {m n}, Borrows m n → R m n)
    (calls : ctx.CallsBorrow) : (keeping R).Expressions ctx ctx where
  done pairs holds := ⟨steady.refl _,fun _ _ same => by cases same; exact ⟨_,pairs ▸ holds⟩⟩
  andThen _ first next := keptBind steady first fun a b n holds => next a b n n rfl trivial holds
  below _ _ _ := trivial
  alike := by
    rintro v _ _ _ rfl
    cases v <;> constructor
  int _ _ _ := rfl
  null _ _ := rfl
  keeps _ := id
  tail same := by cases same; rfl
  header same := by cases same; exact ⟨rfl,rfl⟩
  christened same _ := by cases same; rfl
  literal _ := by rw [Block.movedId]
  missing _ _ _ := ⟨steady.refl _,haltNone⟩
  raise _ _ _ _ := ⟨steady.refl _,haltNone⟩
  reject _ _ _ _ _ := ⟨steady.refl _,haltNone⟩
  lookup _ _ := keptStill steady rfl fun _ _ => Option.relSelf fun _ _ => ⟨rfl,rfl⟩
  names _ := keptStill steady rfl fun _ _ => rfl
  newText _ _ := ⟨borrows fun _ => ⟨rfl,rfl,rfl,List.prefix_rfl⟩,fun v _ _ => ⟨v,rfl⟩⟩
  newList _ _ := ⟨borrows fun _ => ⟨rfl,rfl,rfl,List.prefix_rfl⟩,fun v _ _ => ⟨v,rfl⟩⟩
  newFunction _ _ := ⟨borrows (borrowsNewFunction _ _),fun v _ _ => ⟨v,rfl⟩⟩
  functionAt _ _ := keptStill steady (finalFunctionAt _ _) fun _ _ => rfl
  elementAt _ same := keptStill steady (finalElementAt _ _ _) fun _ _ => ⟨rfl,same⟩
  lengthOf _ same := keptStill steady rfl fun _ _ => ⟨rfl,fun _ _ => by cases same; rfl⟩
  pick _ some same := ⟨borrows (borrowsPick _ _ _),fun i _ _ => ⟨i,rfl,by cases same 0 (Nat.pos_of_ne_zero some); rfl⟩⟩
  read _ same := keptStill steady (finalRead _ _) fun _ _ => ⟨rfl,same⟩
  call _ _ _ _ _ := ⟨borrows (calls _ _ _ _),fun v _ _ => ⟨v,rfl⟩⟩

theorem borrowsExpr (calls : ctx.CallsBorrow) (e : Expr) : Keeps Borrows (ctx.expr e) := fun _ =>
  ((expressionsKeep steadyBorrows id calls).goExpr false false e trivial rfl).last

theorem borrowsExprs (calls : ctx.CallsBorrow) (es : List Expr) : Keeps Borrows (ctx.exprs es) := fun _ =>
  ((expressionsKeep steadyBorrows id calls).goExprs false false es (fun _ _ => trivial) rfl).last

theorem statementsWrite (calls : ctx.CallsBorrow) : (keeping Writes).Statements ctx ctx where
  toExpressions := expressionsKeep steadyWrites borrowsWrites calls
  leave _ := trivial
  answer _ := trivial
  leaveOutside _ _ _ := ⟨steadyWrites.refl _,haltNone⟩
  answerOutside _ _ _ := ⟨steadyWrites.refl _,haltNone⟩
  write _ _ _ := ⟨writesSlot _ _ _,fun _ _ _ => ⟨(),trivial⟩⟩
  assign _ _ name := ⟨writesSet _ name _,fun _ _ _ => ⟨(),trivial⟩⟩
  count := by
    rintro m _ _ _ (rfl | rfl | rfl) <;>
      exact ⟨fun _ => ⟨.inl ⟨rfl,rfl⟩,rfl,List.prefix_rfl⟩,fun _ _ _ => ⟨(),trivial⟩⟩
  equal _ _ _ := ⟨steadyWrites.refl _,fun same _ _ => ⟨same,rfl⟩⟩
  incomparable _ _ _ _ _ := ⟨steadyWrites.refl _,haltNone⟩
  badCount _ _ _ := ⟨steadyWrites.refl _,haltNone⟩
  mismatch _ _ _ _ := ⟨steadyWrites.refl _,haltNone⟩
  observe _ _ := ⟨fun _ => ⟨.inl ⟨rfl,rfl⟩,rfl,List.prefix_rfl⟩,fun _ _ _ => ⟨(),trivial⟩⟩
  check _ _ := ⟨borrowsWrites (borrowsCheck _ _ _ _),fun _ _ _ => ⟨(),trivial⟩⟩
  horizon := rfl
  unfinished _ := ⟨steadyWrites.refl _,haltNone⟩

theorem writesAnswerOf (calls : ctx.CallsBorrow) (body : Block) : Keeps Writes (ctx.answerOf body) := fun _ =>
  ((statementsWrite calls).goAnswerOf body trivial rfl).last

theorem writesProgram (calls : ctx.CallsBorrow) (body : List Stmt) : Keeps Writes (ctx.program body) := fun _ =>
  ((statementsWrite calls).goProgram body (fun _ _ => trivial) rfl).last

end Context

theorem writesParameters (pairs : List (String × Value)) (m : Machine) :
    Writes m (pairs.foldl (fun (m : Machine) (name,v) => m.set name v) m) := by
  induction pairs generalizing m with
  | nil => exact steadyWrites.refl m
  | cons pair rest ih =>
    obtain ⟨name,v⟩ := pair
    exact steadyWrites.trans (Run.writesSet m name v) (ih (m.set name v))

/- The machine on the way into a call: the caller's table counts one environment more. -/
def Machine.lend (m : Machine) : Machine :=
  { m with tables := (m.tables.copy m.scope).1,scope := (m.tables.copy m.scope).2 }

theorem lendShelf {m : Machine} {i t} (scope : m.scope = ⟨some i⟩) (held : m.tables.live i = some t) :
    m.lend.tables.live = Function.update m.tables.live i (some ⟨t.bindings,t.refs + 1⟩) ∧
      m.lend.scope = ⟨some i⟩ := by
  unfold Machine.lend
  rw [scope]
  exact Tables.liveCopy held

theorem lendBindings {m : Machine} (inScope : m.InScope) :
    m.lend.scope.bindings m.lend.tables = m.scope.bindings m.tables := by
  obtain ⟨i,t,scope,held⟩ := inScope
  obtain ⟨shelf,same⟩ := lendShelf scope held
  have there : m.lend.tables.live i = some ⟨t.bindings,t.refs + 1⟩ := by simp [shelf]
  rw [same,scope,Environment.Held.bindings there,Environment.Held.bindings held]

theorem lendInScope {m : Machine} (inScope : m.InScope) : m.lend.InScope := by
  obtain ⟨i,t,scope,held⟩ := inScope
  obtain ⟨shelf,same⟩ := lendShelf scope held
  exact ⟨i,⟨t.bindings,t.refs + 1⟩,same,by simp [shelf]⟩

theorem enterWrites (m : Machine) (site : CallSite) (params : List String) (args : List Value)
    (inScope : m.InScope) :
    Rewritten m.lend.tables.live m.lend.scope (m.enter site params args).tables.live
      (m.enter site params args).scope ∧
    (m.enter site params args).frames = ⟨site.name,args,site.source,site.span.start⟩ :: m.frames ∧
    m.heap.functions.toList <+: (m.enter site params args).heap.functions.toList := by
  have bound := writesParameters (params.zip args) m.lend (lendInScope inScope)
  exact ⟨bound.names,congrArg (_ :: ·) bound.frames,bound.functions⟩

theorem exitShelf {m n : Machine} (inScope : m.InScope)
    (names : Rewritten m.lend.tables.live m.lend.scope n.tables.live n.scope) :
    (n.exit m.scope m.frames).tables.live = m.tables.live := by
  obtain ⟨i,t,scope,held⟩ := inScope
  obtain ⟨shelf,same⟩ := lendShelf scope held
  rw [shelf,same] at names
  exact releaseRewritten held names

theorem borrowsInvoke (host : Host) (depth : Nat) :
    ∀ site f args, Run.Keeps Borrows (invoke host depth site f args) := by
  induction depth with
  | zero => exact fun site f args m => steadyBorrows.refl m
  | succ depth ih =>
    intro site f args m inScope
    obtain ⟨names,active,functions⟩ := enterWrites m site f.params args inScope
    have calls : Context.CallsBorrow ⟨host,f.source,invoke host depth⟩ := ih
    have body := Context.writesAnswerOf calls f.body
      (m.enter site f.params args) (rewrittenHeld names (lendInScope inScope))
    have after := rewrittenTrans names body.names
    have frames := body.frames.trans active
    have kept := functions.trans body.functions
    simp only [invoke,Run.leaving]
    generalize Context.answerOf _ f.body (m.enter site f.params args) = result at after frames kept
    cases result with
    | ok v n =>
      simp only [Run.final] at after frames kept
      simp only [frames]
      exact ⟨rfl,exitShelf inScope after,rfl,kept⟩
    | error halt n =>
      simp only [Run.final] at after frames kept
      simp only [frames]
      exact ⟨rfl,exitShelf inScope after,rfl,kept⟩

def Environment.refs (ts : Tables α) (e : Environment) : Nat :=
  match e.table.bind (ts.slots[·]?) with
  | some t => t.refs
  | none => 0

theorem heldUnchanged {ts ts₁ : Tables α} (shelf : ts₁.live = ts.live) {e : Environment}
    (held : e.Held ts.live) : e.bindings ts₁ = e.bindings ts ∧ e.refs ts₁ = e.refs ts := by
  obtain ⟨i,t,rfl,there⟩ := held
  have there₁ : ts₁.live i = some t := shelf ▸ there
  have slot := (Tables.liveSome.mp there).1
  have slot₁ := (Tables.liveSome.mp there₁).1
  simp [Environment.bindings,Environment.refs,slot,slot₁]

theorem evaluationLeavesCallersNames (host : Host) (depth : Nat) (source : Text) (e : Expr)
    (m : Machine) (inScope : m.InScope) :
    let n := Run.final ((⟨host,source,invoke host depth⟩ : Context).expr e m)
    n.scope = m.scope ∧
    (∀ env : Environment, env.Held m.tables.live →
      env.bindings n.tables = env.bindings m.tables ∧ env.refs n.tables = env.refs m.tables) ∧
    n.frames = m.frames ∧ m.heap.functions.toList <+: n.heap.functions.toList := by
  have calls : Context.CallsBorrow ⟨host,source,invoke host depth⟩ := borrowsInvoke host depth
  have kept := Context.borrowsExpr calls e m inScope
  exact ⟨kept.scope,fun env held => heldUnchanged kept.shelf held,kept.frames,kept.functions⟩

def rebinding : Machine :=
  { heap := { functions := #[⟨some "f",["x"],.mk ⟨0,0⟩
      [.assign ⟨0,0⟩ (.mk ⟨0,0⟩ "x" []) (.int ⟨0,0⟩ 5),.leave ⟨0,0⟩],[]⟩] }
    tables := ⟨#[⟨[("f",.fn 0),("x",.int 1)],1⟩]⟩
    scope := ⟨some 0⟩ }

theorem rebindingLeavesX : rebinding.InScope ∧
    let n := Run.final ((⟨{},[],invoke {} 3⟩ : Context).expr (.call ⟨0,0⟩ "f" [.int ⟨0,0⟩ 2]) rebinding)
    n.scope = ⟨some 0⟩ ∧ n.scope.bindings n.tables = [("f",.fn 0),("x",.int 1)] ∧
      n.scope.refs n.tables = 1 := by
  have inScope : rebinding.InScope := ⟨0,⟨[("f",.fn 0),("x",.int 1)],1⟩,rfl,rfl⟩
  obtain ⟨scope,names,_⟩ := evaluationLeavesCallersNames {} 3 [] (.call ⟨0,0⟩ "f" [.int ⟨0,0⟩ 2])
    rebinding inScope
  have env := names rebinding.scope inScope
  refine ⟨inScope,scope,?_,?_⟩
  · rw [scope]
    exact env.1
  · rw [scope]
    exact env.2

end Terakoya
