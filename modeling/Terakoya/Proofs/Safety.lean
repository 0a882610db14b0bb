import Mathlib.Logic.Relation
import Terakoya.Proofs.Bindings
import Terakoya.Proofs.Scope
import Terakoya.Proofs.TextIndex

/-! Runs of programs that were read never get stuck. A machine is proper if every value in it, in
sequences, tables, frames and among the values shown, refers to something on the heap, and if every
function has a body whose quoted texts have the code points picked from them.
What a run can do to a machine is said once, as single steps; each step keeps a machine proper and
shortens no sequence. Evaluation is then followed node by node, and only has to take such steps. -/
namespace Terakoya

variable {α β : Type}

namespace Heap

def Proper (h : Heap) : Value → Prop
  | .int _ => True
  | .null => True
  | .seq id => id < h.sequences.size
  | .fn id => id < h.functions.size

structure Grows (h h' : Heap) : Prop where
  sequences : ∀ (id : Nat) s, h.sequences[id]? = some s → ∃ s', h'.sequences[id]? = some s' ∧
    s.elements.size ≤ s'.elements.size ∧ s'.isText = s.isText
  functions : h.functions.size ≤ h'.functions.size

theorem growsRefl (h : Heap) : h.Grows h := ⟨fun _ s there => ⟨s,there,Nat.le_refl _,rfl⟩,Nat.le_refl _⟩

theorem growsTrans {a b c : Heap} (first : a.Grows b) (second : b.Grows c) : a.Grows c := by
  refine ⟨fun id s there => ?_,Nat.le_trans first.functions second.functions⟩
  obtain ⟨s₁,there₁,longer₁,flag₁⟩ := first.sequences id s there
  obtain ⟨s₂,there₂,longer₂,flag₂⟩ := second.sequences id s₁ there₁
  exact ⟨s₂,there₂,Nat.le_trans longer₁ longer₂,flag₂.trans flag₁⟩

theorem growsSize {h h' : Heap} (grows : h.Grows h') : h.sequences.size ≤ h'.sequences.size := by
  by_contra shorter
  have inside : h'.sequences.size < h.sequences.size := by omega
  obtain ⟨s,there,_⟩ := grows.sequences h'.sequences.size _ (Array.getElem?_eq_getElem inside)
  simp at there

theorem growsProper {h h' : Heap} (grows : h.Grows h') {v} (proper : h.Proper v) : h'.Proper v := by
  cases v with
  | int n => trivial
  | null => trivial
  | seq id => exact Nat.lt_of_lt_of_le proper (growsSize grows)
  | fn id => exact Nat.lt_of_lt_of_le proper grows.functions

theorem growsSequence (h : Heap) (s : Sequence) : h.Grows (h.addSequence s).1 := by
  refine ⟨fun id s' there => ⟨s',?_,Nat.le_refl _,rfl⟩,Nat.le_refl _⟩
  have inside := (Array.getElem?_eq_some_iff.mp there).1
  simp only [addSequence]
  rw [Array.getElem?_push_lt inside]
  exact Array.getElem?_eq_some_iff.mp there |>.2 ▸ rfl

theorem growsFunction (h : Heap) (f : Function) : h.Grows (h.addFunction f).1 :=
  ⟨fun _ s there => ⟨s,there,Nat.le_refl _,rfl⟩,by simp [addFunction]⟩

theorem growsModify (h : Heap) (id : Nat) (f : Sequence → Sequence)
    (longer : ∀ s : Sequence, s.elements.size ≤ (f s).elements.size ∧ (f s).isText = s.isText) :
    h.Grows { h with sequences := h.sequences.modify id f } := by
  refine ⟨fun j s there => ?_,Nat.le_refl _⟩
  by_cases same : id = j
  · subst same
    exact ⟨f s,by simp [Array.getElem?_modify,there],longer s⟩
  · exact ⟨s,by simp [Array.getElem?_modify,same,there],Nat.le_refl _,rfl⟩

theorem growsPush (h : Heap) (id : Nat) (v : Value) : h.Grows (h.push id v) :=
  growsModify h id _ fun s => by simp

theorem growsSet (h : Heap) (id index : Nat) (v : Value) : h.Grows (h.set id index v) :=
  growsModify h id _ fun s => by simp

theorem properElement {h : Heap} (elements : ∀ s ∈ h.sequences, ∀ v ∈ s.elements, h.Proper v)
    {id index : Nat} {s v} (there : h.sequences[id]? = some s) (inside : s.elements[index]? = some v) : h.Proper v :=
  elements s (Array.mem_of_getElem? there) v (Array.mem_of_getElem? inside)

end Heap

namespace Machine

structure Proper (m : Machine) : Prop where
  elements : ∀ s ∈ m.heap.sequences, ∀ v ∈ s.elements, m.heap.Proper v
  bodies : ∀ f ∈ m.heap.functions, f.body.InRange
  names : ∀ i t, m.tables.live i = some t → ∀ b ∈ t.bindings, m.heap.Proper b.2
  scope : m.InScope
  frames : ∀ f ∈ m.frames, ∀ v ∈ f.args, m.heap.Proper v
  shown : ∀ s ∈ m.shown, m.heap.Proper s.value

inductive Step (m : Machine) : Machine → Prop where
  | sequence (s : Sequence) (elements : ∀ v ∈ s.elements, m.heap.Proper v) :
      Step m { m with heap := (m.heap.addSequence s).1 }
  | function (f : Function) (body : f.body.InRange) :
      Step m { m with heap := (m.heap.addFunction f).1 }
  | append (id : Nat) (v : Value) (there : id < m.heap.sequences.size) (proper : m.heap.Proper v) :
      Step m { m with heap := m.heap.push id v }
  | replace (id index : Nat) (v : Value) (inside : index < m.heap.length id) (proper : m.heap.Proper v) :
      Step m { m with heap := m.heap.set id index v }
  | bind (name : String) (v : Value) (proper : m.heap.Proper v) : Step m (m.set name v)
  | count (stats : Stats) : Step m { m with stats }
  | look : Step m { m with looks := m.looks + 1 }
  | pick (n : Nat) (some : 1 ≤ n) : Step m { m with picks := m.picks.push n }
  | observe (s : Shown) (stopped : Bool) (proper : m.heap.Proper s.value) :
      Step m { m with shown := m.shown.push s,stopped }
  | lend : Step m m.lend
  | call (f : Frame) (args : ∀ v ∈ f.args, m.heap.Proper v) : Step m { m with frames := f :: m.frames }
  | leave (caller : Environment) (f : Frame) (frames : List Frame) (active : m.frames = f :: frames)
      (held : caller.Held (m.exit caller frames).tables.live) : Step m (m.exit caller frames)

theorem stepGrows {m n : Machine} (step : m.Step n) : m.heap.Grows n.heap := by
  cases step with
  | sequence s _ => exact Heap.growsSequence m.heap s
  | function f _ => exact Heap.growsFunction m.heap f
  | append id v _ _ => exact Heap.growsPush m.heap id v
  | replace id index v _ _ => exact Heap.growsSet m.heap id index v
  | _ => exact Heap.growsRefl m.heap

theorem properGrown {m : Machine} (proper : m.Proper) {h} (grows : m.heap.Grows h)
    (elements : ∀ s ∈ h.sequences, ∀ v ∈ s.elements, h.Proper v)
    (bodies : ∀ f ∈ h.functions, f.body.InRange) : Proper { m with heap := h } where
  elements := elements
  bodies := bodies
  names i t there b inside := Heap.growsProper grows (proper.names i t there b inside)
  scope := proper.scope
  frames f inside v arg := Heap.growsProper grows (proper.frames f inside v arg)
  shown s inside := Heap.growsProper grows (proper.shown s inside)

theorem elementsModify {h : Heap} {id} {f : Sequence → Sequence}
    (grows : h.Grows { h with sequences := h.sequences.modify id f })
    (elements : ∀ s ∈ h.sequences, ∀ v ∈ s.elements, h.Proper v)
    (changed : ∀ s ∈ h.sequences, ∀ v ∈ (f s).elements, h.Proper v) : ∀ s ∈ h.sequences.modify id f, ∀ v ∈ s.elements,
      Heap.Proper { h with sequences := h.sequences.modify id f } v := by
  intro s inside v member
  refine Heap.growsProper grows ?_
  obtain ⟨j,there⟩ := Array.mem_iff_getElem?.mp inside
  rw [Array.getElem?_modify] at there
  split at there
  · obtain ⟨old,before,rfl⟩ := Option.map_eq_some_iff.mp there
    exact changed old (Array.mem_of_getElem? before) v member
  · exact elements s (Array.mem_of_getElem? there) v member

theorem properSequence {m : Machine} (proper : m.Proper) (s : Sequence)
    (elements : ∀ v ∈ s.elements, m.heap.Proper v) :
    Proper { m with heap := (m.heap.addSequence s).1 } := by
  have grows := Heap.growsSequence m.heap s
  refine properGrown proper grows (fun s' inside v member => Heap.growsProper grows ?_) proper.bodies
  rcases Array.mem_push.mp inside with old | same
  · exact proper.elements s' old v member
  · exact elements v (same ▸ member)

theorem properFunction {m : Machine} (proper : m.Proper) (f : Function) (body : f.body.InRange) :
    Proper { m with heap := (m.heap.addFunction f).1 } := by
  have grows := Heap.growsFunction m.heap f
  refine properGrown proper grows
    (fun s inside v member => Heap.growsProper grows (proper.elements s inside v member)) ?_
  intro g inside
  rcases Array.mem_push.mp inside with old | same
  · exact proper.bodies g old
  · exact same ▸ body

theorem properModify {m : Machine} (proper : m.Proper) {id v} {f : Sequence → Sequence} (value : m.heap.Proper v)
    (grows : m.heap.Grows { m.heap with sequences := m.heap.sequences.modify id f })
    (changed : ∀ s, ∀ w ∈ (f s).elements, w ∈ s.elements ∨ w = v) :
    Proper { m with heap := { m.heap with sequences := m.heap.sequences.modify id f } } := by
  refine properGrown proper grows (elementsModify grows proper.elements fun s inside w member => ?_) proper.bodies
  rcases changed s w member with old | same
  · exact proper.elements s inside w old
  · exact same ▸ value

theorem properAppend {m : Machine} (proper : m.Proper) (id : Nat) {v} (value : m.heap.Proper v) :
    Proper { m with heap := m.heap.push id v } :=
  properModify proper value (Heap.growsPush m.heap id v) fun _ _ member => Array.mem_push.mp member

theorem properReplace {m : Machine} (proper : m.Proper) (id index : Nat) {v}
    (value : m.heap.Proper v) : Proper { m with heap := m.heap.set id index v } :=
  properModify proper value (Heap.growsSet m.heap id index v) fun _ _ member => Array.mem_or_eq_of_mem_setIfInBounds member

theorem properTables {m : Machine} (proper : m.Proper) {tables scope}
    (names : ∀ i t, tables.live i = some t → ∀ b ∈ t.bindings, m.heap.Proper b.2)
    (held : scope.Held tables.live) : Proper { m with tables,scope } :=
  ⟨proper.elements,proper.bodies,names,held,proper.frames,proper.shown⟩

theorem writtenNames {P : Value → Prop} {f : Bindings Value → Bindings Value} {s s' e e'} (written : Written f s e s' e')
    (names : ∀ i t, s i = some t → ∀ b ∈ t.bindings, P b.2)
    (changed : ∀ l : Bindings Value, (∀ b ∈ l, P b.2) → ∀ b ∈ f l, P b.2) :
    ∀ i t, s' i = some t → ∀ b ∈ t.bindings, P b.2 := by
  intro j t there
  cases written with
  | @alone i l held =>
    by_cases here : j = i
    · subst here
      obtain rfl : ⟨f l,1⟩ = t := by simpa using there
      exact changed l (names j _ held)
    · exact names j t (by simpa [here] using there)
  | @cloned i l n k held free =>
    by_cases new : j = k
    · subst new
      obtain rfl : ⟨f l,1⟩ = t := by simpa using there
      exact changed l (names i _ held)
    · by_cases here : j = i
      · subst here
        obtain rfl : ⟨l,n + 1⟩ = t := by simpa [new] using there
        exact names j ⟨l,n + 2⟩ held
      · exact names j t (by simpa [new,here] using there)

theorem properBind {m : Machine} (proper : m.Proper) (name : String) {v}
    (value : m.heap.Proper v) : (m.set name v).Proper := by
  have written := Tables.setWritten proper.scope name v
  refine properTables proper (writtenNames written proper.names ?_) (writtenHeld written)
  intro l old b inside
  rcases Bindings.mem_set inside with same | before
  · exact same ▸ value
  · exact old b before

theorem properLend {m : Machine} (proper : m.Proper) : m.lend.Proper := by
  refine properTables proper ?_ (lendInScope proper.scope)
  obtain ⟨i,t,scope,held⟩ := proper.scope
  intro j u (there : m.lend.tables.live j = some u)
  rw [(lendShelf scope held).1] at there
  by_cases here : j = i
  · subst here
    obtain rfl : ⟨t.bindings,t.refs + 1⟩ = u := by simpa using there
    exact proper.names j t held
  · exact proper.names j u (by simpa [here] using there)

theorem properLeave {m : Machine} (proper : m.Proper) {caller f frames} (active : m.frames = f :: frames)
    (caught : caller.Held (m.exit caller frames).tables.live) : (m.exit caller frames).Proper := by
  have names : ∀ j u, (m.tables.release m.scope).1.live j = some u →
      ∀ b ∈ u.bindings, m.heap.Proper b.2 := by
    obtain ⟨i,t,scope,held⟩ := proper.scope
    intro j u there
    rw [scope,Tables.liveRelease held] at there
    by_cases here : j = i
    · subst here
      rw [Function.update_self] at there
      split at there <;> cases there
      exact proper.names j t held
    · exact proper.names j u (by simpa [here] using there)
  refine ⟨proper.elements,proper.bodies,names,caught,fun g inside => ?_,proper.shown⟩
  exact proper.frames g (active ▸ List.mem_cons_of_mem f inside)

theorem stepProper {m n : Machine} (step : m.Step n) (proper : m.Proper) : n.Proper := by
  cases step with
  | sequence s elements => exact properSequence proper s elements
  | function f body => exact properFunction proper f body
  | append id v _ value => exact properAppend proper id value
  | replace id index v _ value => exact properReplace proper id index value
  | bind name v value => exact properBind proper name value
  | count stats => exact ⟨proper.elements,proper.bodies,proper.names,proper.scope,proper.frames,proper.shown⟩
  | look => exact ⟨proper.elements,proper.bodies,proper.names,proper.scope,proper.frames,proper.shown⟩
  | pick n _ => exact ⟨proper.elements,proper.bodies,proper.names,proper.scope,proper.frames,proper.shown⟩
  | observe s stopped value =>
    refine ⟨proper.elements,proper.bodies,proper.names,proper.scope,proper.frames,fun t inside => ?_⟩
    rcases Array.mem_push.mp inside with old | same
    · exact proper.shown t old
    · exact same ▸ value
  | lend => exact properLend proper
  | call f args =>
    refine ⟨proper.elements,proper.bodies,proper.names,proper.scope,fun g inside => ?_,proper.shown⟩
    rcases List.mem_cons.mp inside with same | old
    · exact same ▸ args
    · exact proper.frames g old
  | leave caller f frames active held => exact properLeave proper active held

def Leads : Machine → Machine → Prop := Relation.ReflTransGen Step

theorem leadsProper {m n : Machine} (leads : m.Leads n) (proper : m.Proper) : n.Proper := by
  induction leads with
  | refl => exact proper
  | tail _ step ih => exact stepProper step ih

theorem leadsGrows {m n : Machine} (leads : m.Leads n) : m.heap.Grows n.heap := by
  induction leads with
  | refl => exact Heap.growsRefl _
  | tail _ step ih => exact Heap.growsTrans ih (stepGrows step)

theorem leadsValue {m n : Machine} (leads : m.Leads n) {v} (proper : m.heap.Proper v) :
    n.heap.Proper v := Heap.growsProper (leadsGrows leads) proper

end Machine

namespace Run

open Machine

def Safe (Q : α → Machine → Prop) (m : Machine) : EStateM.Result Halt Machine α → Prop
  | .ok a n => m.Leads n ∧ Q a n
  | .error halt n => m.Leads n ∧ halt ≠ .stuck

section Safe

variable {m : Machine} {P : α → Machine → Prop} {Q : β → Machine → Prop}

theorem safeImp {P' : α → Machine → Prop} (imp : ∀ a n, P a n → P' a n) {r} (safe : Safe P m r) : Safe P' m r := by
  cases r with
  | ok a n => exact ⟨safe.1,imp a n safe.2⟩
  | error halt n => exact safe

theorem safeBind {x : Run α} {f : α → Run β} (first : Safe P m (x m))
    (next : ∀ a n, m.Leads n → P a n → Safe Q n (f a n)) : Safe Q m ((x >>= f) m) := by
  simp only [bind,EStateM.bind]
  cases result : x m with
  | ok a n =>
    rw [result] at first
    have second := next a n first.1 first.2
    dsimp only
    cases last : f a n with
    | ok b n' =>
      rw [last] at second
      exact ⟨Relation.ReflTransGen.trans first.1 second.1,second.2⟩
    | error halt n' =>
      rw [last] at second
      exact ⟨Relation.ReflTransGen.trans first.1 second.1,second.2⟩
  | error halt n =>
    rw [result] at first
    exact first

theorem safeRaise (source : Text) (offset : Nat) (fault : RuntimeFault) :
    Safe P m ((raiseAt source offset fault : Run α) m) := ⟨.refl,by simp⟩

theorem safeStep {a n} (step : m.Step n) (holds : P a n) : Safe P m (.ok a n) := ⟨.single step,holds⟩

end Safe

def ProperValue (v : Value) (m : Machine) : Prop := m.heap.Proper v

def ProperValues (vs : List Value) (m : Machine) : Prop := ∀ v ∈ vs, m.heap.Proper v

def ProperSlot : Slot → Machine → Prop
  | .name name,m => (m.get? name).isSome
  | .element id index,m => index < m.heap.length id
  | .tail id,m => id < m.heap.sequences.size

def Anything (_ : α) (_ : Machine) : Prop := True

variable {m : Machine}

theorem properFound (proper : m.Proper) {name v} (found : m.get? name = some v) : m.heap.Proper v := by
  obtain ⟨i,t,scope,held⟩ := proper.scope
  simp only [Machine.get?,Environment.get?,scope,Environment.Held.bindings held] at found
  exact proper.names i t held (name,v) (Bindings.getMember found)

theorem safeNewList {vs} (elements : ProperValues vs m) : Safe ProperValue m (newList vs m) := by
  refine safeStep (.sequence ⟨vs.toArray,false⟩ fun v inside => elements v (by simpa using inside)) ?_
  simp [ProperValue,Heap.Proper]

theorem safeNewText (s : String) : Safe ProperValue m (newText s m) := by
  refine safeStep (.sequence ⟨(s.toList.map fun c => .int c.toNat).toArray,true⟩ fun v inside => ?_) ?_
  · obtain ⟨c,_,rfl⟩ := List.mem_map.mp (by simpa using inside)
    trivial
  · simp [ProperValue,Heap.Proper]

theorem safeNewFunction {f} (body : f.body.InRange) : Safe ProperValue m (newFunction f m) := by
  refine safeStep (.function f body) ?_
  simp [ProperValue,Heap.Proper]

theorem safeFunctionAt (proper : m.Proper) {id} (there : m.heap.Proper (.fn id)) :
    Safe (fun f _ => f.body.InRange) m (functionAt id m) := by
  have found : m.heap.functions[id]? = some m.heap.functions[id] := Array.getElem?_eq_getElem there
  simp only [functionAt,found]
  exact ⟨.refl,proper.bodies _ (Array.getElem_mem there)⟩

theorem safeElementAt (proper : m.Proper) {id index} (inside : index < m.heap.length id) :
    Safe (fun v n => n.heap.Proper v ∧ index < n.heap.length id) m (elementAt id index m) := by
  have range := inside
  unfold Heap.length at range
  split at range
  · rename_i s there
    have found : s.elements[index]? = some s.elements[index] := Array.getElem?_eq_getElem range
    simp only [elementAt,there,found]
    exact ⟨.refl,Heap.properElement proper.elements there found,inside⟩
  · omega

theorem safeRead (proper : m.Proper) {slot} (there : ProperSlot slot m) :
    Safe (fun v n => n.heap.Proper v ∧ ProperSlot slot n) m (read slot m) := by
  cases slot with
  | name name =>
    obtain ⟨v,found⟩ := Option.isSome_iff_exists.mp there
    have looked : lookup name m = .ok (some v) m := by simp [lookup,found]
    simp only [read,bind,EStateM.bind,looked]
    exact ⟨.refl,properFound proper found,there⟩
  | element id index => exact safeElementAt proper there
  | tail id => exact ⟨.refl,trivial,there⟩

theorem safeWrite {slot} (there : ProperSlot slot m) {v} (value : m.heap.Proper v) : Safe Anything m (write slot v m) := by
  cases slot with
  | name name => exact safeStep (.bind name v value) trivial
  | element id index =>
    have inside : index < m.heap.length id := there
    simp only [write,if_pos inside]
    exact safeStep (.replace id index v inside value) trivial
  | tail id => exact safeStep (.append id v there value) trivial

end Run

namespace Context

open Run Machine

variable {ctx : Context}

structure Fair (ctx : Context) : Prop where
  random : ∀ i n, 1 ≤ n → ctx.host.random i n < n
  calls : ∀ site f args m, m.Proper → f.body.InRange → ProperValues args m →
    Safe ProperValue m (ctx.invoke site f args m)

theorem safeCheck {m} (host : Host) (source : Text) (offset : Nat) : Safe Anything m (check host source offset m) := by
  unfold check
  split
  · exact safeRaise _ _ _
  · split
    · exact ⟨.single .look,by simp⟩
    · exact safeStep .look trivial

structure Secures (P : Common α) (x : Run α) (m : Machine) : Prop where
  safe : Safe (fun a n => ∃ b, P a b n n) m (x m)

abbrev securing : Accord where
  shift := id
  Pairs m m' := m' = m ∧ m.Proper
  Later m _ n _ := m.Leads n
  Go P x _ m _ := Secures P x m
  Allows _ _ n := n.InRange
  value v v' m _ := m.heap.Proper v ∧ v = v'
  slot s s' m _ := ProperSlot s m ∧ s = s'
  function f f' := f' = f ∧ f.body.InRange
  Leaves _ := True
  Answers _ := True

theorem statementsSecure (fair : ctx.Fair) : securing.Statements ctx ctx where
  done pairs holds := ⟨.refl,_,pairs.1 ▸ holds⟩
  andThen pairs first next := by
    refine ⟨safeBind first.safe fun a n leads ended => ?_⟩
    obtain ⟨b,holds⟩ := ended
    exact (next a b n n ⟨rfl,leadsProper leads pairs.2⟩ leads holds).safe
  below inRange := ((Tree.inRangeSplit _).mp inRange).2
  alike := by
    rintro v _ _ _ ⟨_,rfl⟩
    cases v <;> constructor
  int _ _ _ := ⟨trivial,rfl⟩
  null _ _ := ⟨trivial,rfl⟩
  keeps leads values := ⟨leadsValue leads values.1,values.2⟩
  tail values := ⟨values.1,congrArg Slot.tail (Value.seq.inj values.2)⟩
  header same := same.1 ▸ ⟨rfl,rfl⟩
  christened same _ := ⟨by rw [same.1],same.2⟩
  literal inRange := ⟨by rw [Block.movedId],inRange⟩
  missing inRange none _ := absurd (inRange _ rfl) (by simpa using none)
  raise _ _ _ _ := ⟨safeRaise _ _ _⟩
  reject _ _ _ _ _ := ⟨safeRaise _ _ _⟩
  lookup pairs _ := ⟨.refl,_,Option.relSelf fun _ found => ⟨⟨properFound pairs.2 found,rfl⟩,Option.isSome_of_mem found,rfl⟩⟩
  names _ := ⟨.refl,_,rfl⟩
  newText _ s := ⟨safeImp (fun v _ proper => ⟨v,proper,rfl⟩) (safeNewText s)⟩
  newList _ values := ⟨safeImp (fun v _ proper => ⟨v,proper,rfl⟩) (safeNewList ((List.forall₂_and_left _ _).mp values).1)⟩
  newFunction _ same := ⟨safeImp (fun v _ proper => ⟨v,proper,rfl⟩) (safeNewFunction same.2)⟩
  functionAt pairs values := ⟨safeImp (fun f _ body => ⟨f,rfl,body⟩) (safeFunctionAt pairs.2 values.1)⟩
  elementAt pairs slots := ⟨safeImp (fun v _ got => ⟨v,⟨got.1,rfl⟩,got.2,slots.2⟩) (safeElementAt pairs.2 slots.1)⟩
  lengthOf _ values := ⟨.refl,_,rfl,fun i inside => ⟨inside,congrArg (Slot.element · i) (Value.seq.inj values.2)⟩⟩
  pick _ some slots := by
    constructor
    simp only [pick,if_neg some]
    exact safeStep (.pick _ (Nat.pos_of_ne_zero some)) ⟨_,rfl,slots _ (fair.random _ _ (Nat.pos_of_ne_zero some))⟩
  read pairs slots := ⟨safeImp (fun v _ got => ⟨v,⟨got.1,rfl⟩,got.2,slots.2⟩) (safeRead pairs.2 slots.1)⟩
  call pairs same values _ _ := ⟨safeImp (fun v _ proper => ⟨v,proper,rfl⟩)
    (fair.calls _ _ _ _ pairs.2 same.2 ((List.forall₂_and_left _ _).mp values).1)⟩
  leave _ := trivial
  answer _ := trivial
  leaveOutside _ _ _ := ⟨safeRaise _ _ _⟩
  answerOutside _ _ _ := ⟨safeRaise _ _ _⟩
  write _ slots values := ⟨safeImp (fun a _ _ => ⟨a,trivial⟩) (safeWrite slots.1 values.1)⟩
  assign _ values name := ⟨safeStep (.bind name _ values.1) ⟨(),trivial⟩⟩
  count := by rintro m _ _ _ (rfl | rfl | rfl) <;> exact ⟨safeStep (.count _) ⟨(),trivial⟩⟩
  equal _ _ _ := ⟨.refl,_,rfl⟩
  incomparable _ _ _ _ _ := ⟨safeRaise _ _ _⟩
  badCount _ _ _ := ⟨safeRaise _ _ _⟩
  mismatch _ _ _ _ := ⟨.refl,by simp⟩
  observe _ values := ⟨safeStep (.observe _ _ values.1) ⟨(),trivial⟩⟩
  check _ _ := ⟨safeImp (fun a _ _ => ⟨a,trivial⟩) (safeCheck _ _ _)⟩
  horizon := rfl
  unfinished _ := ⟨.refl,by simp⟩

theorem safeExpr {m : Machine} (fair : ctx.Fair) (e : Expr) (inRange : e.InRange) (proper : m.Proper) :
    Safe ProperValue m (ctx.expr e m) :=
  safeImp (fun _ _ ended => ended.choose_spec.1) ((statementsSecure fair).goExpr false false e inRange ⟨rfl,proper⟩).safe

theorem safeAnswerOf {m : Machine} (fair : ctx.Fair) (body : Block) (inRange : body.InRange)
    (proper : m.Proper) : Safe ProperValue m (ctx.answerOf body m) :=
  safeImp (fun _ _ ended => ended.choose_spec.1) ((statementsSecure fair).goAnswerOf body inRange ⟨rfl,proper⟩).safe

theorem safeProgram {m : Machine} (fair : ctx.Fair) (body : List Stmt) (inRange : bodyInRange body) (proper : m.Proper) :
    Safe Anything m (ctx.program body m) :=
  safeImp (fun _ _ _ => trivial) ((statementsSecure fair).goProgram body ((bodyInRangeEach _).mp inRange) ⟨rfl,proper⟩).safe

end Context

open Machine Run

theorem leadsParameters (pairs : List (String × Value)) {m : Machine}
    (values : ∀ p ∈ pairs, m.heap.Proper p.2) :
    m.Leads (pairs.foldl (fun (m : Machine) (name,v) => m.set name v) m) := by
  induction pairs generalizing m with
  | nil => exact .refl
  | cons pair rest ih =>
    obtain ⟨name,v⟩ := pair
    have step : m.Step (m.set name v) := .bind name v (values (name,v) List.mem_cons_self)
    refine Relation.ReflTransGen.head step (ih fun p inside => ?_)
    exact values p (List.mem_cons_of_mem _ inside)

theorem leadsEnter (site : CallSite) (params : List String) {args : List Value} {m : Machine}
    (values : ProperValues args m) : m.Leads (m.enter site params args) := by
  have bound : m.lend.Leads ((params.zip args).foldl (fun (m : Machine) (name,v) => m.set name v) m.lend) := by
    refine leadsParameters (params.zip args) fun p inside => ?_
    exact values p.2 (List.of_mem_zip inside).2
  have framed := Step.call ⟨site.name,args,site.source,site.span.start⟩
    fun v inside => leadsValue bound (values v inside)
  exact .trans (.head .lend bound) (.single framed)

theorem safeInvoke {host} (random : ∀ i n, 1 ≤ n → host.random i n < n) (depth : Nat) :
    ∀ site f args m, m.Proper → f.body.InRange → ProperValues args m →
      Safe ProperValue m (invoke host depth site f args m) := by
  induction depth with
  | zero => exact fun site f args m _ _ _ => safeRaise _ _ _
  | succ depth ih =>
    intro site f args m proper body values
    let ctx : Context := ⟨host,f.source,invoke host depth⟩
    have fair : ctx.Fair := ⟨random,ih⟩
    have enters := leadsEnter site f.params values
    have safe := Context.safeAnswerOf fair f.body body (leadsProper enters proper)
    obtain ⟨names,active,_⟩ := enterWrites m site f.params args proper.scope
    have borrows : ctx.CallsBorrow := borrowsInvoke host depth
    have writes := Context.writesAnswerOf borrows f.body
      (m.enter site f.params args) (rewrittenHeld names (lendInScope proper.scope))
    have after := rewrittenTrans names writes.names
    have frames := writes.frames.trans active
    have leaves {n : Machine} (leads : (m.enter site f.params args).Leads n)
        (after : Rewritten m.lend.tables.live m.lend.scope n.tables.live n.scope)
        (frames : n.frames = ⟨site.name,args,site.source,site.span.start⟩ :: m.frames) :
        m.Leads (n.exit m.scope m.frames) := by
      have held : m.scope.Held (n.exit m.scope m.frames).tables.live := by
        rw [exitShelf proper.scope after]
        exact proper.scope
      exact .tail (.trans enters leads) (.leave m.scope _ m.frames frames held)
    simp only [invoke,leaving]
    generalize ctx.answerOf f.body (m.enter site f.params args) = result at safe after frames
    cases result with
    | ok v n =>
      simp only [final] at after frames
      simp only [frames]
      exact ⟨leaves safe.1 after frames,safe.2⟩
    | error halt n =>
      simp only [final] at after frames
      simp only [frames]
      exact ⟨leaves safe.1 after frames,safe.2⟩

theorem fairTop {host} (random : ∀ i n, 1 ≤ n → host.random i n < n) (source : Text) :
    (Context.top host source).Fair := ⟨random,safeInvoke random host.maxDepth⟩

theorem safeFinal {α : Type} {Q : α → Machine → Prop} {m : Machine}
    {result : EStateM.Result Halt Machine α} (safe : Safe Q m result) :
    (∀ n, result ≠ .error .stuck n) ∧ m.Leads (final result) := by
  cases result with
  | ok a n => exact ⟨fun _ => by simp,safe.1⟩
  | error halt n =>
    refine ⟨fun n' same => ?_,safe.1⟩
    cases same
    exact safe.2 rfl

theorem leadsThrough {m n : Machine} (leads : m.Leads n) (proper : m.Proper) :
    Relation.ReflTransGen (fun a b => a.Step b ∧ b.Proper ∧ a.heap.Grows b.heap) m n := by
  induction leads with
  | refl => exact .refl
  | tail before step ih =>
    exact ih.tail ⟨step,stepProper step (leadsProper before proper),stepGrows step⟩

/-- A program that was read, up to its first fault or past faults, is run from a proper machine.
The run is never stuck: an element, a function, a code point of a quoted text or a frame that it
asks for is there, and it never asks for a random one of none. It goes on by single steps through
proper machines only, shortens no sequence, makes no text a list and no list a text, and in the end
the active calls are those of before. -/
theorem runsOfProgramsAreNeverStuck (host : Host) (random : ∀ i n, 1 ≤ n → host.random i n < n)
    (recover : Bool) (text : Text) (m : Machine) (proper : m.Proper) :
    let parsed := if recover then Parse.recovering text else Parse.strict text
    let result := (Context.top host parsed.source).program parsed.program.body m
    (∀ n, result ≠ .error .stuck n) ∧
    Relation.ReflTransGen (fun a b => a.Step b ∧ b.Proper ∧ a.heap.Grows b.heap) m (final result) ∧
    m.heap.Grows (final result).heap ∧ (final result).frames = m.frames := by
  intro parsed result
  have inRange : bodyInRange parsed.program.body := by
    cases recover with
    | false => exact Parse.programInRange false _
    | true => exact Parse.programInRange true _
  have safe := Context.safeProgram (fairTop random parsed.source) parsed.program.body inRange proper
  have borrows : (Context.top host parsed.source).CallsBorrow := borrowsInvoke host host.maxDepth
  have writes := Context.writesProgram borrows parsed.program.body m proper.scope
  obtain ⟨unstuck,leads⟩ := safeFinal safe
  exact ⟨unstuck,leadsThrough leads proper,leadsGrows leads,writes.frames⟩

def cyclic : Machine :=
  { heap := { sequences := #[⟨#[.seq 0],false⟩] }
    tables := ⟨#[⟨[("a",.seq 0)],1⟩]⟩
    scope := ⟨some 0⟩ }

theorem properCyclic : cyclic.Proper where
  elements s inside v member := by
    obtain rfl := Array.mem_singleton.mp inside
    obtain rfl := Array.mem_singleton.mp member
    exact Nat.zero_lt_one
  bodies f inside := by simp [cyclic] at inside
  names i t there b inside := by
    have slot := (Tables.liveSome.mp there).1
    obtain ⟨first,rfl⟩ : i = 0 ∧ t = ⟨[("a",.seq 0)],1⟩ := by
      cases i with
      | zero => exact ⟨rfl,(Option.some.inj slot).symm⟩
      | succ i => simp [cyclic] at slot
    obtain rfl := List.mem_singleton.mp inside
    exact Nat.zero_lt_one
  scope := ⟨0,⟨[("a",.seq 0)],1⟩,rfl,rfl⟩
  frames f inside := by simp [cyclic] at inside
  shown s inside := by simp [cyclic] at inside

theorem writingIntoACycleIsNotStuck : cyclic.Proper ∧
    let parsed := Parse.strict (Text.ofString "a[?] = \"ab\"[1]\na の末尾に a を追加する\n")
    let result := (Context.top {} parsed.source).program parsed.program.body cyclic
    (∀ n, result ≠ .error .stuck n) ∧ (final result).frames = [] := by
  obtain ⟨unstuck,_,_,frames⟩ := runsOfProgramsAreNeverStuck {} (fun _ _ some => some) false
    (Text.ofString "a[?] = \"ab\"[1]\na の末尾に a を追加する\n") cyclic properCyclic
  exact ⟨properCyclic,unstuck,frames⟩

end Terakoya
