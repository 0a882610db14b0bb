import Terakoya.Proofs.Safety

/-! Answers and leaves stay where they are written. A statement is confined if it answers only in a
function and leaves only in a loop of the same function. A value is confined if every function that
can be got at from it, through any number of sequences, has a confined body. Runs only make confined
values out of confined ones, whatever they do to the sequences in between; so a call ends with an
answer or without one, a loop keeps each leave to itself, and none of them gets out of a program. -/
namespace Terakoya

variable {α β : Type}

mutual

def Expr.isConfined : Expr → Bool
  | .int _ _ => true
  | .null _ => true
  | .text _ _ _ => true
  | .seq _ items => allConfined items
  | .var p => p.isConfined
  | .fn _ _ body => body.isConfined true false
  | .call _ _ args => allConfined args
  | .neg _ e => e.isConfined
  | .len _ e => e.isConfined

def allConfined : List Expr → Bool
  | [] => true
  | e :: rest => e.isConfined && allConfined rest

def Place.isConfined : Place → Bool
  | .mk _ _ indices => allConfined indices

def Stmt.isConfined (inFunction inLoop : Bool) : Stmt → Bool
  | .assign _ target value => target.isConfined && value.isConfined
  | .append _ target value => target.isConfined && value.isConfined
  | .increment _ target => target.isConfined
  | .decrement _ target => target.isConfined
  | .cond _ left right _ yes no => left.isConfined && right.isConfined &&
      (yes.isConfined inFunction inLoop && otherwiseConfined inFunction inLoop no)
  | .loop _ count body => count.isConfined && body.isConfined inFunction true
  | .leave _ => inLoop
  | .answer _ value => inFunction && value.isConfined
  | .observe _ value => value.isConfined
  | .doctest _ value expected => value.isConfined && expected.isConfined

def otherwiseConfined (inFunction inLoop : Bool) : Option Block → Bool
  | none => true
  | some b => b.isConfined inFunction inLoop

def Block.isConfined (inFunction inLoop : Bool) : Block → Bool
  | .mk _ body => bodyConfined inFunction inLoop body

def bodyConfined (inFunction inLoop : Bool) : List Stmt → Bool
  | [] => true
  | s :: rest => s.isConfined inFunction inLoop && bodyConfined inFunction inLoop rest

end

namespace Heap

def Holds (h : Heap) (v w : Value) : Prop := ∃ id s, v = .seq id ∧ h.sequences[id]? = some s ∧ w ∈ s.elements

def Confines (h : Heap) (v : Value) : Prop :=
  ∀ id f, Relation.ReflTransGen h.Holds v (.fn id) → h.functions[id]? = some f → f.body.isConfined true false

variable {h h' : Heap} {v w : Value}

theorem confinesHeld (confines : h.Confines v) (holds : h.Holds v w) : h.Confines w :=
  fun id f path there => confines id f (.head holds path) there

theorem confinesFunction {id f} (confines : h.Confines (.fn id))
    (there : h.functions[id]? = some f) : f.body.isConfined true false := confines id f .refl there

theorem confinesPlain (empty : ∀ w, ¬ h.Holds v w) (other : ∀ id, v ≠ .fn id) : h.Confines v := by
  intro id f path
  rcases Relation.ReflTransGen.cases_head path with same | ⟨w,holds,_⟩
  · exact absurd same (other id)
  · exact absurd holds (empty w)

theorem confinesInt (h : Heap) (n : Int) : h.Confines (.int n) :=
  confinesPlain (fun _ holds => by obtain ⟨_,_,same,_⟩ := holds; cases same) fun _ same => by cases same

theorem confinesNull (h : Heap) : h.Confines .null :=
  confinesPlain (fun _ holds => by obtain ⟨_,_,same,_⟩ := holds; cases same) fun _ same => by cases same

def Preserves (h h' : Heap) : Prop := ∀ v, h.Confines v → h'.Confines v

theorem preservesRefl (h : Heap) : h.Preserves h := fun _ => id

theorem preservesChange (elements : ∀ (id : Nat) (s' : Sequence), h'.sequences[id]? = some s' → ∀ w ∈ s'.elements,
      (∃ s, h.sequences[id]? = some s ∧ w ∈ s.elements) ∨ h.Confines w)
    (functions : ∀ (id : Nat) (f : Function), h'.functions[id]? = some f → h.functions[id]? = some f ∨ f.body.isConfined true false) :
    h.Preserves h' := by
  intro v confines id f path there
  have before {w : Value} (path : Relation.ReflTransGen h'.Holds v w) : h.Confines w := by
    induction path with
    | refl => exact confines
    | tail _ holds ih =>
      obtain ⟨id,s',rfl,there',member⟩ := holds
      rcases elements id s' there' _ member with ⟨s,old,member'⟩ | new
      · exact confinesHeld ih ⟨id,s,rfl,old,member'⟩
      · exact new
  rcases functions id f there with old | new
  · exact confinesFunction (before path) old
  · exact new

theorem preservesSequence (h : Heap) {s} (elements : ∀ w ∈ s.elements, h.Confines w) : h.Preserves (h.addSequence s).1 := by
  refine preservesChange (fun id s' there w member => ?_) fun _ _ there => Or.inl there
  simp only [addSequence,Array.getElem?_push] at there
  split at there
  · cases there
    exact Or.inr (elements w member)
  · exact Or.inl ⟨s',there,member⟩

theorem preservesFunction (h : Heap) {f} (body : f.body.isConfined true false) : h.Preserves (h.addFunction f).1 := by
  refine preservesChange (fun _ s' there _ member => Or.inl ⟨s',there,member⟩) fun id g there => ?_
  simp only [addFunction,Array.getElem?_push] at there
  split at there
  · cases there
    exact Or.inr body
  · exact Or.inl there

theorem preservesModify (h : Heap) (id : Nat) {f : Sequence → Sequence}
    (elements : ∀ s : Sequence, ∀ w ∈ (f s).elements, w ∈ s.elements ∨ h.Confines w) :
    h.Preserves { h with sequences := h.sequences.modify id f } := by
  refine preservesChange (fun j s' there w member => ?_) fun _ _ there => Or.inl there
  simp only [Array.getElem?_modify] at there
  split at there
  · obtain ⟨s,old,rfl⟩ := Option.map_eq_some_iff.mp there
    exact (elements s w member).imp_left fun member' => ⟨s,old,member'⟩
  · exact Or.inl ⟨s',there,member⟩

theorem preservesPush (h : Heap) (id : Nat) (value : h.Confines v) : h.Preserves (h.push id v) := by
  refine preservesModify h id fun s w member => ?_
  rcases Array.mem_push.mp member with old | rfl
  · exact Or.inl old
  · exact Or.inr value

theorem preservesSet (h : Heap) (id index : Nat) (value : h.Confines v) : h.Preserves (h.set id index v) := by
  refine preservesModify h id fun s w member => ?_
  rcases Array.mem_or_eq_of_mem_setIfInBounds member with old | rfl
  · exact Or.inl old
  · exact Or.inr value

end Heap

theorem writtenBindings {f : Bindings α → Bindings α} {ts ts' : Tables α} {e e'}
    (written : Written f ts.live e ts'.live e') : e'.bindings ts' = f (e.bindings ts) := by
  generalize before : ts.live = s at written
  generalize after : ts'.live = s' at written
  cases written with
  | @alone i b held =>
    have there : ts'.live i = some ⟨f b,1⟩ := by simp [after]
    rw [Environment.Held.bindings there,Environment.Held.bindings (before ▸ held)]
  | @cloned i b n k held free =>
    have there : ts'.live k = some ⟨f b,1⟩ := by simp [after]
    rw [Environment.Held.bindings there,Environment.Held.bindings (before ▸ held)]

namespace Machine

def Confined (m : Machine) : Prop := ∀ b ∈ m.scope.bindings m.tables, m.heap.Confines b.2

theorem confinedHeap {m : Machine} (confined : m.Confined) {h} (preserves : m.heap.Preserves h) :
    Confined { m with heap := h } := fun b inside => preserves b.2 (confined b inside)

theorem confinedFound {m : Machine} (confined : m.Confined) {name v}
    (found : m.get? name = some v) : m.heap.Confines v := confined (name,v) (Bindings.getMember found)

theorem confinedSet {m : Machine} (inScope : m.InScope) (confined : m.Confined) (name : String) {v : Value}
    (value : m.heap.Confines v) : (m.set name v).InScope ∧ (m.set name v).Confined := by
  have written := Tables.setWritten inScope name v
  refine ⟨writtenHeld written,fun b inside => ?_⟩
  rw [show (m.set name v).scope.bindings (m.set name v).tables = _ from writtenBindings written] at inside
  rcases Bindings.mem_set inside with same | old
  · exact same ▸ value
  · exact confined b old

theorem confinedLend {m : Machine} (inScope : m.InScope) (confined : m.Confined) : m.lend.Confined :=
  fun b inside => confined b (lendBindings inScope ▸ inside)

theorem confinedParameters (pairs : List (String × Value)) {m : Machine} (inScope : m.InScope)
    (confined : m.Confined) (values : ∀ p ∈ pairs, m.heap.Confines p.2) :
    let n := pairs.foldl (fun (m : Machine) (name,v) => m.set name v) m
    n.InScope ∧ n.Confined ∧ n.heap = m.heap := by
  induction pairs generalizing m with
  | nil => exact ⟨inScope,confined,rfl⟩
  | cons pair rest ih =>
    obtain ⟨first,later⟩ := List.forall_mem_cons.mp values
    obtain ⟨inScope',confined'⟩ := confinedSet inScope confined pair.1 first
    exact ih inScope' confined' later

theorem confinedEnter {m : Machine} (inScope : m.InScope) (confined : m.Confined) (site : CallSite)
    (params : List String) {args} (values : ∀ v ∈ args, m.heap.Confines v) :
    (m.enter site params args).InScope ∧ (m.enter site params args).Confined ∧
      (m.enter site params args).heap = m.heap :=
  confinedParameters (params.zip args) (lendInScope inScope) (confinedLend inScope confined)
    fun p inside => values p.2 (List.of_mem_zip inside).2

end Machine

namespace Run

def Contained (Q : α → Machine → Prop) (m : Machine) : EStateM.Result Halt Machine α → Prop
  | .ok a n => n.InScope ∧ n.Confined ∧ m.heap.Preserves n.heap ∧ Q a n
  | .error halt n => m.heap.Preserves n.heap ∧
      ∀ e, halt = .failed e → e.fault.isInner

section Contained

variable {m n : Machine} {P : α → Machine → Prop} {Q : β → Machine → Prop} (inScope : m.InScope) (confined : m.Confined)

theorem containedBind {x} {f : α → Run β} (first : Contained P m (x m))
    (next : ∀ a n, n.InScope → n.Confined → m.heap.Preserves n.heap → P a n → Contained Q n (f a n)) :
    Contained Q m ((x >>= f) m) := by
  simp only [bind,EStateM.bind]
  cases result : x m with
  | error halt n =>
    rw [result] at first
    exact first
  | ok a n =>
    rw [result] at first
    obtain ⟨there,kept,preserves,holds⟩ := first
    have second := next a n there kept preserves holds
    dsimp only
    cases last : f a n with
    | ok b n' =>
      rw [last] at second
      exact ⟨second.1,second.2.1,fun v value => second.2.2.1 v (preserves v value),second.2.2.2⟩
    | error halt n' =>
      rw [last] at second
      exact ⟨fun v value => second.1 v (preserves v value),second.2⟩

theorem containedImp {P' : α → Machine → Prop} (imp : ∀ a n, P a n → P' a n) {r} (contained : Contained P m r) :
    Contained P' m r := by
  cases r with
  | ok a n => exact ⟨contained.1,contained.2.1,contained.2.2.1,imp a n contained.2.2.2⟩
  | error halt n => exact contained

theorem containedRaise (source : Text) (offset : Nat) {fault : RuntimeFault} (inner : fault.isInner) :
    Contained P m ((raiseAt source offset fault : Run α) m) :=
  ⟨Heap.preservesRefl _,fun e same => by cases same; exact inner⟩

theorem containedStuck (preserves : m.heap.Preserves n.heap) : Contained P m (.error .stuck n) := ⟨preserves,by rintro _ ⟨⟩⟩

include inScope confined

theorem containedHeap {a : α} {h} (preserves : m.heap.Preserves h) (holds : P a { m with heap := h }) :
    Contained P m (.ok a { m with heap := h }) :=
  ⟨inScope,Machine.confinedHeap confined preserves,preserves,holds⟩

end Contained

def ConfinedValue (v : Value) (m : Machine) : Prop := m.heap.Confines v

def ConfinedValues (vs : List Value) (m : Machine) : Prop := ∀ v ∈ vs, m.heap.Confines v

def ConfinedSlot : Slot → Machine → Prop
  | .element id _,m => m.heap.Confines (.seq id)
  | _,_ => True

variable {m : Machine} (inScope : m.InScope) (confined : m.Confined)

include inScope confined

theorem containedSequence {s : Sequence} (elements : ∀ v ∈ s.elements, m.heap.Confines v) :
    Contained ConfinedValue m (.ok (m.heap.addSequence s).2 { m with heap := (m.heap.addSequence s).1 }) := by
  have preserves := Heap.preservesSequence m.heap elements
  refine containedHeap inScope confined preserves (preserves _ ?_)
  refine Heap.confinesPlain (fun w holds => ?_) fun _ same => by cases same
  obtain ⟨id,s,same,there,_⟩ := holds
  cases same
  simp at there

theorem containedNewList {vs} (values : ConfinedValues vs m) : Contained ConfinedValue m (newList vs m) :=
  containedSequence inScope confined fun v inside => values v (by simpa using inside)

theorem containedNewText (s : String) : Contained ConfinedValue m (newText s m) := by
  refine containedSequence inScope confined fun v inside => ?_
  obtain ⟨c,_,rfl⟩ := List.mem_map.mp (by simpa using inside)
  exact m.heap.confinesInt _

theorem containedNewFunction {f} (body : f.body.isConfined true false) : Contained ConfinedValue m (newFunction f m) := by
  have preserves := Heap.preservesFunction m.heap body
  refine containedHeap inScope confined preserves (preserves _ fun id g path there => ?_)
  rcases Relation.ReflTransGen.cases_head path with same | ⟨w,⟨_,_,same,_⟩,_⟩
  · cases same
    simp at there
  · cases same

theorem containedFunctionAt {id} (value : m.heap.Confines (.fn id)) :
    Contained (fun f _ => f.body.isConfined true false) m (functionAt id m) := by
  unfold functionAt
  split
  · rename_i f there
    exact ⟨inScope,confined,Heap.preservesRefl _,Heap.confinesFunction value there⟩
  · exact containedStuck (Heap.preservesRefl _)

theorem containedElementAt {id} (value : m.heap.Confines (.seq id)) (index : Nat) :
    Contained (fun v n => n.heap.Confines v ∧ n.heap.Confines (.seq id)) m (elementAt id index m) := by
  unfold elementAt
  split
  · rename_i s there
    split
    · rename_i v inside
      have held := Heap.confinesHeld value ⟨id,s,rfl,there,Array.mem_of_getElem? inside⟩
      exact ⟨inScope,confined,Heap.preservesRefl _,held,value⟩
    · exact containedStuck (Heap.preservesRefl _)
  · exact containedStuck (Heap.preservesRefl _)

theorem containedRead {slot} (there : ConfinedSlot slot m) :
    Contained (fun v n => n.heap.Confines v ∧ ConfinedSlot slot n) m (read slot m) := by
  cases slot with
  | name name =>
    simp only [read,lookup,bind,EStateM.bind]
    cases found : m.get? name with
    | none => exact containedStuck (Heap.preservesRefl _)
    | some v => exact ⟨inScope,confined,Heap.preservesRefl _,Machine.confinedFound confined found,trivial⟩
  | element id index => exact containedElementAt inScope confined there index
  | tail id => exact ⟨inScope,confined,Heap.preservesRefl _,m.heap.confinesNull,trivial⟩

theorem containedWrite (slot : Slot) {v : Value} (value : m.heap.Confines v) :
    Contained Anything m (write slot v m) := by
  cases slot with
  | name name =>
    obtain ⟨inScope',confined'⟩ := Machine.confinedSet inScope confined name value
    exact ⟨inScope',confined',Heap.preservesRefl _,trivial⟩
  | element id index =>
    simp only [write]
    split
    · exact containedHeap inScope confined (Heap.preservesSet m.heap id index value) trivial
    · exact containedStuck (Heap.preservesRefl _)
  | tail id => exact containedHeap inScope confined (Heap.preservesPush m.heap id value) trivial

theorem containedPick (host : Host) (k : Nat) : Contained (fun _ n => n.heap = m.heap) m (pick host k m) := by
  unfold pick
  split
  · exact containedStuck (Heap.preservesRefl _)
  · exact ⟨inScope,confined,Heap.preservesRefl _,rfl⟩

theorem containedCheck (host : Host) (source : Text) (offset : Nat) : Contained Anything m (check host source offset m) := by
  unfold check
  split
  · exact containedRaise _ _ rfl
  · split
    · exact ⟨Heap.preservesRefl _,fun e same => by cases same; rfl⟩
    · exact ⟨inScope,confined,Heap.preservesRefl _,trivial⟩

end Run

def Tree.isConfined (inFunction inLoop : Bool) : Tree → Bool
  | expr e => e.isConfined
  | stmt s => s.isConfined inFunction inLoop
  | block b => b.isConfined inFunction inLoop

section Below

variable {inFunction inLoop : Bool}

theorem allConfinedEach {es} (confinement : allConfined es) :
    ∀ c ∈ es.map Tree.expr, c.isConfined inFunction inLoop := by
  induction es with
  | nil => exact List.forall_mem_nil _
  | cons e es ih =>
    obtain ⟨first,later⟩ := Bool.and_eq_true_iff.mp confinement
    exact List.forall_mem_cons.mpr ⟨first,ih later⟩

theorem bodyConfinedEach {body} (confinement : bodyConfined inFunction inLoop body) :
    ∀ c ∈ body.map Tree.stmt, c.isConfined inFunction inLoop := by
  induction body with
  | nil => exact List.forall_mem_nil _
  | cons s body ih =>
    obtain ⟨first,later⟩ := Bool.and_eq_true_iff.mp confinement
    exact List.forall_mem_cons.mpr ⟨first,ih later⟩

theorem Tree.confinedBelow {n : Tree} (confinement : n.isConfined inFunction inLoop) :
    ∀ c ∈ n.children, c.isConfined (n.inside inFunction inLoop).1 (n.inside inFunction inLoop).2 := by
  rcases n with e | s | ⟨span,body⟩
  · cases e with
    | seq span es => exact allConfinedEach confinement
    | call span name es => exact allConfinedEach confinement
    | var p =>
      cases p
      exact allConfinedEach confinement
    | _ => simp_all [children,inside,Tree.isConfined,Expr.isConfined]
  · cases s with
    | cond span left right cmp yes no =>
      cases no <;> simp_all [children,inside,Tree.isConfined,Stmt.isConfined,otherwiseConfined]
    | _ => simp_all [children,inside,Tree.isConfined,Stmt.isConfined,Expr.isConfined]
  · exact bodyConfinedEach confinement

end Below

namespace Context

open Run

variable {ctx : Context} {m : Machine}

def CallsContained (ctx : Context) : Prop := ∀ site f args (m : Machine), m.InScope → m.Confined →
  f.body.isConfined true false → ConfinedValues args m → Contained ConfinedValue m (ctx.invoke site f args m)

structure Contains (P : Common α) (x : Run α) (m : Machine) : Prop where
  contained : Contained (fun a n => ∃ b, P a b n n) m (x m)

abbrev containing : Accord where
  shift := id
  Pairs m m' := m' = m ∧ m.InScope ∧ m.Confined
  Later m _ n _ := m.heap.Preserves n.heap
  Go P x _ m _ := Contains P x m
  Allows inFunction inLoop n := n.isConfined inFunction inLoop
  value v v' m _ := m.heap.Confines v ∧ v = v'
  slot s s' m _ := ConfinedSlot s m ∧ s = s'
  function f f' := f' = f ∧ f.body.isConfined true false
  Leaves inLoop := inLoop
  Answers inFunction := inFunction

theorem statementsContain (calls : ctx.CallsContained) : containing.Statements ctx ctx where
  done pairs holds := ⟨pairs.2.1,pairs.2.2,Heap.preservesRefl _,_,pairs.1 ▸ holds⟩
  andThen _ first next := by
    refine ⟨containedBind first.contained fun a n inScope confined preserves ended => ?_⟩
    obtain ⟨b,holds⟩ := ended
    exact (next a b n n ⟨rfl,inScope,confined⟩ preserves holds).contained
  below := Tree.confinedBelow
  alike := by
    rintro v _ _ _ ⟨_,rfl⟩
    cases v <;> constructor
  int n m _ := ⟨m.heap.confinesInt n,rfl⟩
  null m _ := ⟨m.heap.confinesNull,rfl⟩
  keeps preserves values := ⟨preserves _ values.1,values.2⟩
  tail values := ⟨trivial,congrArg Slot.tail (Value.seq.inj values.2)⟩
  header same := same.1 ▸ ⟨rfl,rfl⟩
  christened same _ := ⟨by rw [same.1],same.2⟩
  literal confinement := ⟨by rw [Block.movedId],confinement⟩
  missing _ _ _ := ⟨containedStuck (Heap.preservesRefl _)⟩
  raise _ _ _ inner := ⟨containedRaise _ _ inner⟩
  reject _ _ _ _ inner := ⟨containedRaise _ _ (inner _)⟩
  lookup pairs _ := ⟨pairs.2.1,pairs.2.2,Heap.preservesRefl _,_,
    Option.relSelf fun _ found => ⟨⟨Machine.confinedFound pairs.2.2 found,rfl⟩,trivial,rfl⟩⟩
  names pairs := ⟨pairs.2.1,pairs.2.2,Heap.preservesRefl _,_,rfl⟩
  newText pairs s := ⟨containedImp (fun v _ value => ⟨v,value,rfl⟩) (containedNewText pairs.2.1 pairs.2.2 s)⟩
  newList pairs values := ⟨containedImp (fun v _ value => ⟨v,value,rfl⟩)
    (containedNewList pairs.2.1 pairs.2.2 ((List.forall₂_and_left _ _).mp values).1)⟩
  newFunction pairs same := ⟨containedImp (fun v _ value => ⟨v,value,rfl⟩) (containedNewFunction pairs.2.1 pairs.2.2 same.2)⟩
  functionAt pairs values := ⟨containedImp (fun f _ body => ⟨f,rfl,body⟩) (containedFunctionAt pairs.2.1 pairs.2.2 values.1)⟩
  elementAt pairs slots := ⟨containedImp (fun v _ got => ⟨v,⟨got.1,rfl⟩,got.2,slots.2⟩)
    (containedElementAt pairs.2.1 pairs.2.2 slots.1 _)⟩
  lengthOf pairs values := ⟨pairs.2.1,pairs.2.2,Heap.preservesRefl _,_,rfl,
    fun i _ => ⟨values.1,congrArg (Slot.element · i) (Value.seq.inj values.2)⟩⟩
  pick pairs some slots := by
    refine ⟨containedImp (fun i n same => ⟨i,rfl,?_⟩) (containedPick pairs.2.1 pairs.2.2 _ _)⟩
    obtain ⟨confines,same'⟩ := slots 0 (Nat.pos_of_ne_zero some)
    exact ⟨by rwa [ConfinedSlot,same],congrArg (Slot.element · i) (Slot.element.inj same').1⟩
  read pairs slots := ⟨containedImp (fun v _ got => ⟨v,⟨got.1,rfl⟩,got.2,slots.2⟩) (containedRead pairs.2.1 pairs.2.2 slots.1)⟩
  call pairs same values _ _ := ⟨containedImp (fun v _ value => ⟨v,value,rfl⟩)
    (calls _ _ _ _ pairs.2.1 pairs.2.2 same.2 ((List.forall₂_and_left _ _).mp values).1)⟩
  leave confinement := confinement
  answer confinement := (Bool.and_eq_true_iff.mp confinement).1
  leaveOutside _ outside _ := absurd outside Bool.false_ne_true
  answerOutside _ outside _ := absurd outside Bool.false_ne_true
  write pairs _ values := ⟨containedImp (fun a _ _ => ⟨a,trivial⟩) (containedWrite pairs.2.1 pairs.2.2 _ values.1)⟩
  assign pairs values name := ⟨containedImp (fun a _ _ => ⟨a,trivial⟩) (containedWrite pairs.2.1 pairs.2.2 (.name name) values.1)⟩
  count := by
    rintro m _ _ pairs (rfl | rfl | rfl) <;> exact ⟨pairs.2.1,pairs.2.2,Heap.preservesRefl _,(),trivial⟩
  equal pairs _ _ := ⟨pairs.2.1,pairs.2.2,Heap.preservesRefl _,_,rfl⟩
  incomparable _ _ _ _ _ := ⟨containedRaise _ _ rfl⟩
  badCount _ _ _ := ⟨containedRaise _ _ rfl⟩
  mismatch _ _ _ _ := ⟨Heap.preservesRefl _,fun e same => by cases same; rfl⟩
  observe pairs _ := ⟨pairs.2.1,pairs.2.2,Heap.preservesRefl _,(),trivial⟩
  check pairs _ := ⟨containedImp (fun a _ _ => ⟨a,trivial⟩) (containedCheck pairs.2.1 pairs.2.2 _ _ _)⟩
  horizon := rfl
  unfinished _ := ⟨Heap.preservesRefl _,by rintro _ ⟨⟩⟩

theorem containedAnswerOf (calls : ctx.CallsContained) {body} (confinement : body.isConfined true false)
    (inScope : m.InScope) (confined : m.Confined) : Contained ConfinedValue m (ctx.answerOf body m) :=
  containedImp (fun _ _ ended => ended.choose_spec.1)
    ((statementsContain calls).goAnswerOf body confinement ⟨rfl,inScope,confined⟩).contained

theorem containedProgram (calls : ctx.CallsContained) {body} (confinement : bodyConfined false false body)
    (inScope : m.InScope) (confined : m.Confined) : Contained Anything m (ctx.program body m) :=
  containedImp (fun _ _ _ => trivial)
    ((statementsContain calls).goProgram body (bodyConfinedEach confinement) ⟨rfl,inScope,confined⟩).contained

end Context

open Run

theorem containedInvoke (host : Host) (depth : Nat) (site : CallSite) (f : Function) (args : List Value) (m : Machine)
    (inScope : m.InScope) (confined : m.Confined) (body : f.body.isConfined true false) (values : ConfinedValues args m) :
    Contained ConfinedValue m (invoke host depth site f args m) := by
  induction depth generalizing site f args m with
  | zero => exact containedRaise _ _ rfl
  | succ depth ih =>
    have calls : Context.CallsContained ⟨host,f.source,invoke host depth⟩ := ih
    obtain ⟨inScope₁,confined₁,same⟩ := Machine.confinedEnter inScope confined site f.params values
    have contained := Context.containedAnswerOf calls body inScope₁ confined₁
    have undisturbed := borrowsInvoke host (depth + 1) site f args m inScope
    have borrows : Context.CallsBorrow ⟨host,f.source,invoke host depth⟩ := borrowsInvoke host depth
    have frames := (Context.writesAnswerOf borrows f.body (m.enter site f.params args) inScope₁).frames
    rw [(enterWrites m site f.params args inScope).2.1] at frames
    simp only [invoke,leaving] at undisturbed ⊢
    generalize Context.answerOf _ f.body (m.enter site f.params args) = result at contained frames undisturbed
    cases result with
    | ok v n =>
      simp only [final] at frames
      simp only [frames,final] at undisturbed ⊢
      have preserves : m.heap.Preserves n.heap := same ▸ contained.2.2.1
      have held : (n.exit m.scope m.frames).InScope := by
        unfold Machine.InScope
        rw [undisturbed.scope,undisturbed.shelf]
        exact inScope
      refine ⟨held,fun b inside => preserves b.2 (confined b ?_),preserves,contained.2.2.2⟩
      rw [undisturbed.scope,(heldUnchanged undisturbed.shelf inScope).1] at inside
      exact inside
    | error halt n =>
      simp only [final] at frames
      simp only [frames]
      exact ⟨same ▸ contained.1,contained.2⟩

theorem outsideCode (fault : RuntimeFault) (inner : fault.isInner) :
    fault.code ≠ "STATE-0001" ∧ fault.code ≠ "STATE-0002" := by
  cases fault with
  | notInteger use got => cases use <;> simp [RuntimeFault.code]
  | answerOutside => contradiction
  | leaveOutside => contradiction
  | _ => simp [RuntimeFault.code]

theorem signalsAreConfined (host : Host) (source : Text) :
    (∀ (depth : Nat) (e : Expr) (m : Machine), (∀ i n, 1 ≤ n → host.random i n < n) → e.InRange → m.Proper →
      match (⟨host,source,invoke host depth⟩ : Context).expr e m with
      | .ok v n => n.heap.Proper v
      | .error halt _ => halt ≠ .stuck) ∧
    ∀ (body : List Stmt) (m : Machine), bodyConfined false false body → m.InScope → m.Confined →
      ∀ e n, (Context.top host source).program body m = .error (.failed e) n →
        e.fault.code ≠ "STATE-0001" ∧ e.fault.code ≠ "STATE-0002" := by
  refine ⟨fun depth e m random inRange proper => ?_,fun body m confinement inScope confined e n failed => ?_⟩
  · have fair : Context.Fair ⟨host,source,invoke host depth⟩ := ⟨random,safeInvoke random depth⟩
    have safe := Context.safeExpr fair e inRange proper
    generalize Context.expr _ e m = result at safe ⊢
    cases result with
    | ok v n => exact safe.2
    | error halt n => exact safe.2
  · have calls : (Context.top host source).CallsContained := containedInvoke host host.maxDepth
    have contained := Context.containedProgram calls confinement inScope confined
    rw [failed] at contained
    exact outsideCode e.fault (contained.2 e rfl)

def listedFunction : Parse :=
  Parse.strict (Text.ofString ("a = [入力 n に対し \x7b ? 回くり返す \x7b くり返しを抜ける \x7d\n n が答え \x7d]\n" ++
    "g = 入力 l に対し \x7b f = l[0]\n f(2) が答え \x7d\ng(a)\n"))

theorem listedFunctionIsConfined :
    (cyclic.Proper ∧ match (⟨{},[],invoke {} 1⟩ : Context).expr (.var (.mk ⟨0,4⟩ "a" [.null ⟨2,3⟩])) cyclic with
      | .ok v n => n.heap.Proper v
      | .error halt _ => halt ≠ .stuck) ∧
    listedFunction.errors = [] ∧ bodyConfined false false listedFunction.program.body ∧ Machine.empty.InScope ∧
      Machine.empty.Confined ∧
      ∀ e n, (Context.top {} listedFunction.source).program listedFunction.program.body .empty = .error (.failed e) n →
        e.fault.code ≠ "STATE-0001" ∧ e.fault.code ≠ "STATE-0002" := by
  have confinement : bodyConfined false false listedFunction.program.body := by decide +kernel
  have inScope : Machine.empty.InScope := ⟨0,⟨[],1⟩,rfl,rfl⟩
  have confined : Machine.empty.Confined := fun b inside => absurd inside List.not_mem_nil
  have inRange : (Expr.var (.mk ⟨0,4⟩ "a" [.null ⟨2,3⟩])).InRange := ⟨trivial,trivial⟩
  refine ⟨⟨properCyclic,?_⟩,by decide +kernel,confinement,inScope,confined,?_⟩
  · exact (signalsAreConfined {} []).1 1 _ cyclic (fun _ _ some => some) inRange properCyclic
  · exact (signalsAreConfined {} listedFunction.source).2 _ _ confinement inScope confined

end Terakoya
