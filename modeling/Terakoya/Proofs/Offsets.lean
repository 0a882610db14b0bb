import Terakoya.Proofs.Accord

/-! Where a program stands in its text matters only to its failures. A run that finishes is followed,
step by step, by the run of the same program with other offsets, on a machine that is the same but for
the texts and offsets of functions and calls. The second machine may have counted before and may have more
calls active. -/
namespace Terakoya

variable {α β γ : Type}

def Stats.plus (a b : Stats) : Stats :=
  ⟨a.increments + b.increments,a.decrements + b.decrements,a.comparisons + b.comparisons⟩

structure Function.Alike (f f' : Function) : Prop where
  name : f'.name = f.name
  params : f'.params = f.params
  body : ∃ g, f'.body = f.body.moved g

theorem Function.alikeRefl (f : Function) : f.Alike f := ⟨rfl,rfl,id,f.body.movedId.symm⟩

namespace Heap

structure Alike (h h' : Heap) : Prop where
  sequences : h'.sequences = h.sequences
  size : h'.functions.size = h.functions.size
  functions : ∀ id : Nat, ∀ f, h.functions[id]? = some f → ∃ f', h'.functions[id]? = some f' ∧ f.Alike f'

variable {h h' : Heap}

theorem alikeRefl (h : Heap) : h.Alike h := ⟨rfl,rfl,fun _ f there => ⟨f,there,f.alikeRefl⟩⟩

theorem alikeSequences (alike : h.Alike h') {s s'} (same : s' = s) :
    Alike { h with sequences := s } { h' with sequences := s' } := ⟨same,alike.size,alike.functions⟩

theorem alikePush (alike : h.Alike h') {f f'} (same : f.Alike f') :
    Alike { h with functions := h.functions.push f } { h' with functions := h'.functions.push f' } := by
  refine ⟨alike.sequences,by simp only [Array.size_push,alike.size],fun id g there => ?_⟩
  dsimp only at there ⊢
  rw [Array.getElem?_push] at there ⊢
  rw [alike.size]
  split at there
  · rename_i last
    cases there
    exact ⟨f',if_pos last,same⟩
  · rename_i other
    rw [if_neg other]
    exact alike.functions id g there

/-! Comparing and showing values -/

theorem alikeLength (alike : h.Alike h') (id : Nat) : h'.length id = h.length id := by
  rw [length,length,alike.sequences]

theorem alikeEqualAt (alike : h.Alike h') (depth : Nat) : h'.equalAt depth = h.equalAt depth := by
  induction depth with
  | zero =>
    funext assumed v w
    cases v <;> cases w <;> simp only [equalAt,alike.sequences]
  | succ depth ih =>
    funext assumed v w
    cases v <;> cases w <;> simp only [equalAt,alike.sequences,ih]

theorem alikeEqual (alike : h.Alike h') (v w : Value) : h'.equal v w = h.equal v w := by
  rw [equal,equal,alike.sequences,alikeEqualAt alike]

theorem alikeShown (alike : h.Alike h') (depth : Nat) (path : List Nat) (id : Nat) :
    h'.literalAt depth path (.fn id) = h.literalAt depth path (.fn id) := by
  have same : ∀ f f' : Function, f.Alike f' → showFunction f' = showFunction f := fun f f' alike => by
    rw [showFunction,showFunction,alike.name,alike.params]
  cases there : h.functions[id]? with
  | some f =>
    obtain ⟨f',there',alike'⟩ := alike.functions id f there
    cases depth <;> simp only [literalAt,there,there',same f f' alike']
  | none =>
    have there' : h'.functions[id]? = none := by
      rw [Array.getElem?_eq_none_iff] at there ⊢
      rwa [alike.size]
    cases depth <;> simp only [literalAt,there,there']

theorem alikeLiteralAt (alike : h.Alike h') (depth : Nat) (path : List Nat) (v : Value) :
    h'.literalAt depth path v = h.literalAt depth path v := by
  induction depth generalizing path v with
  | zero =>
    cases v with
    | fn id => exact alikeShown alike 0 path id
    | _ => simp only [literalAt]
  | succ depth ih =>
    have inner (id : Nat) : h'.literalAt depth (id :: path) = h.literalAt depth (id :: path) := funext (ih (id :: path))
    cases v with
    | fn id => exact alikeShown alike (depth + 1) path id
    | seq id => simp only [literalAt,alike.sequences,inner]
    | _ => simp only [literalAt]

theorem alikeLiteral (alike : h.Alike h') (v : Value) : h'.literal v = h.literal v := by
  rw [literal,literal,alike.sequences,alikeLiteralAt alike]

theorem alikePrinted (alike : h.Alike h') (v : Value) : h'.printed v = h.printed v := by
  cases v with
  | seq id =>
    have inner : h'.literalAt h.sequences.size [id] = h.literalAt h.sequences.size [id] := funext (alikeLiteralAt alike _ _)
    simp only [printed,alike.sequences,inner,alikeLiteral alike]
  | _ => exact alikeLiteral alike _

end Heap

namespace Machine

structure Alike (base : Stats) (m m' : Machine) : Prop where
  heap : m.heap.Alike m'.heap
  tables : m'.tables = m.tables
  scope : m'.scope = m.scope
  stats : m'.stats = base.plus m.stats
  frames : m.frames.length ≤ m'.frames.length
  shown : m'.shown.map (fun s => (s.value,s.line)) = m.shown.map fun s => (s.value,s.line)
  picks : m'.picks = m.picks
  going : m'.stopped = false

variable {base : Stats} {m m' : Machine}

theorem alikeSet (alike : m.Alike base m') (name : String) (v : Value) : (m.set name v).Alike base (m'.set name v) := by
  refine ⟨alike.heap,?_,?_,alike.stats,alike.frames,alike.shown,alike.picks,alike.going⟩
  · simp only [set,alike.tables,alike.scope]
  · simp only [set,alike.tables,alike.scope]

theorem alikeEnter (alike : m.Alike base m') (site site' : CallSite) (params : List String) (args : List Value) :
    (m.enter site params args).Alike base (m'.enter site' params args) := by
  have bound (pairs : List (String × Value)) (m m' : Machine) (alike : m.Alike base m') :
      (pairs.foldl (fun m pair => m.set pair.1 pair.2) m).Alike base (pairs.foldl (fun m pair => m.set pair.1 pair.2) m') := by
    induction pairs generalizing m m' with
    | nil => exact alike
    | cons pair pairs ih => exact ih _ _ (alikeSet alike pair.1 pair.2)
  have copied : Alike base { m with tables := (m.tables.copy m.scope).1,scope := (m.tables.copy m.scope).2 }
      { m' with tables := (m'.tables.copy m'.scope).1,scope := (m'.tables.copy m'.scope).2 } := by
    refine ⟨alike.heap,?_,?_,alike.stats,alike.frames,alike.shown,alike.picks,alike.going⟩
    · rw [alike.tables,alike.scope]
    · rw [alike.tables,alike.scope]
  have inner := bound (params.zip args) _ _ copied
  exact ⟨inner.heap,inner.tables,inner.scope,inner.stats,Nat.succ_le_succ inner.frames,inner.shown,inner.picks,inner.going⟩

theorem alikeExit (alike : m.Alike base m') (caller : Environment) {frames frames'}
    (active : frames.length ≤ frames'.length) : (m.exit caller frames).Alike base (m'.exit caller frames') := by
  refine ⟨alike.heap,?_,rfl,alike.stats,active,alike.shown,alike.picks,alike.going⟩
  simp only [exit,alike.tables,alike.scope]

end Machine

structure Host.Patient (host : Host) : Prop where
  unstopped : host.stopAfter = none
  untimed : ∀ looks, ¬ (0 < host.budget ∧ host.budget < host.clock looks)

namespace Run

variable {base : Stats} {m m' : Machine} {P : Common α}

structure Finishes (base : Stats) (P : Common α) (r r' : Run α) (m m' : Machine) : Prop where
  result : ∀ a n, r m = .ok a n → ∃ b n', r' m' = .ok b n' ∧ P a b n n' ∧ n.Alike base n'

theorem finishesBind {Q : Common β} {r r'} {f f' : α → Run β} (first : Finishes base P r r' m m')
    (next : ∀ a b n n', n.Alike base n' → P a b n n' → Finishes base Q (f a) (f' b) n n') :
    Finishes base Q (r >>= f) (r' >>= f') m m' := by
  refine ⟨fun c n finished => ?_⟩
  simp only [bind,EStateM.bind] at finished ⊢
  cases result : r m with
  | ok a k =>
    rw [result] at finished
    obtain ⟨b,k',result',related,alike⟩ := first.result a k result
    rw [result']
    exact (next a b k k' alike related).result c n finished
  | error halt k =>
    rw [result] at finished
    contradiction

theorem finishesAsk {f f' : Machine → α} (alike : m.Alike base m') (related : P (f m) (f' m') m m') :
    Finishes base P (fun m => .ok (f m) m) (fun m => .ok (f' m) m) m m' := by
  refine ⟨fun a n finished => ?_⟩
  cases finished
  exact ⟨_,m',rfl,related,alike⟩

theorem finishesSequence (alike : m.Alike base m') (s : Sequence) : Finishes base (fun v v' _ _ => v = v')
    (fun m => .ok (m.heap.addSequence s).2 { m with heap := (m.heap.addSequence s).1 })
    (fun m => .ok (m.heap.addSequence s).2 { m with heap := (m.heap.addSequence s).1 }) m m' := by
  refine ⟨fun v n finished => ?_⟩
  cases finished
  refine ⟨_,_,rfl,?_,?_⟩
  · rw [Heap.addSequence,Heap.addSequence,alike.heap.sequences]
  · exact ⟨Heap.alikeSequences alike.heap (by rw [alike.heap.sequences]),alike.tables,alike.scope,alike.stats,alike.frames,
      alike.shown,alike.picks,alike.going⟩

theorem finishesFunctionAt (alike : m.Alike base m') (id : Nat) :
    Finishes base (fun f f' _ _ => f.Alike f') (functionAt id) (functionAt id) m m' := by
  refine ⟨fun f n finished => ?_⟩
  simp only [functionAt] at finished ⊢
  cases there : m.heap.functions[id]? with
  | none =>
    rw [there] at finished
    contradiction
  | some g =>
    rw [there] at finished
    cases finished
    obtain ⟨f',there',same⟩ := alike.heap.functions id f there
    rw [there']
    exact ⟨f',m',rfl,same,alike⟩

theorem finishesElementAt {P : Common Value} (alike : m.Alike base m') (id index : Nat) (holds : ∀ v n n', P v v n n') :
    Finishes base P (elementAt id index) (elementAt id index) m m' := by
  refine ⟨fun v n finished => ?_⟩
  simp only [elementAt] at finished ⊢
  rw [alike.heap.sequences]
  cases there : m.heap.sequences[id]? with
  | none =>
    rw [there] at finished
    contradiction
  | some s =>
    rw [there] at finished
    dsimp only at finished ⊢
    cases inside : s.elements[index]? with
    | none =>
      rw [inside] at finished
      contradiction
    | some w =>
      rw [inside] at finished
      cases finished
      exact ⟨_,m',rfl,holds _ _ _,alike⟩

theorem finishesRead {P : Common Value} (alike : m.Alike base m') (slot : Slot) (holds : ∀ v n n', P v v n n') :
    Finishes base P (read slot) (read slot) m m' := by
  cases slot with
  | name name =>
    refine ⟨fun v n finished => ?_⟩
    simp only [read,lookup,bind,EStateM.bind,Machine.get?,alike.tables,alike.scope] at finished ⊢
    cases found : m.scope.get? m.tables name with
    | none =>
      rw [found] at finished
      contradiction
    | some w =>
      rw [found] at finished
      cases finished
      exact ⟨_,m',rfl,holds _ _ _,alike⟩
  | element id index => exact finishesElementAt alike id index holds
  | tail id => exact finishesAsk alike (holds _ _ _)

theorem finishesWrite (alike : m.Alike base m') (slot : Slot) (v : Value) :
    Finishes base (fun _ _ _ _ => True) (write slot v) (write slot v) m m' := by
  refine ⟨fun a n finished => ?_⟩
  cases slot with
  | name name =>
    cases finished
    exact ⟨_,_,rfl,trivial,Machine.alikeSet alike name v⟩
  | element id index =>
    simp only [write] at finished ⊢
    rw [Heap.alikeLength alike.heap]
    split at finished
    · rename_i inside
      cases finished
      rw [if_pos inside]
      refine ⟨_,_,rfl,trivial,Heap.alikeSequences alike.heap ?_,alike.tables,alike.scope,alike.stats,alike.frames,alike.shown,
        alike.picks,alike.going⟩
      rw [alike.heap.sequences]
    · contradiction
  | tail id =>
    cases finished
    refine ⟨_,_,rfl,trivial,Heap.alikeSequences alike.heap ?_,alike.tables,alike.scope,alike.stats,alike.frames,alike.shown,
      alike.picks,alike.going⟩
    rw [alike.heap.sequences]

theorem finishesCount (alike : m.Alike base m') (count : Stats → Stats) (adds : ∀ s, base.plus (count s) = count (base.plus s)) :
    Finishes base (fun _ _ _ _ => True) (fun m => .ok () { m with stats := count m.stats })
      (fun m => .ok () { m with stats := count m.stats }) m m' := by
  refine ⟨fun a n finished => ?_⟩
  cases finished
  refine ⟨_,_,rfl,trivial,alike.heap,alike.tables,alike.scope,?_,alike.frames,alike.shown,alike.picks,alike.going⟩
  rw [adds,alike.stats]

theorem finishesCheck (alike : m.Alike base m') {host : Host} (patient : host.Patient) (source source' : Text)
    (offset offset' : Nat) :
    Finishes base (fun _ _ _ _ => True) (check host source offset) (check host source' offset') m m' := by
  refine ⟨fun a n finished => ?_⟩
  simp only [check] at finished ⊢
  split at finished
  · contradiction
  · rename_i going
    have going' : ¬ (m'.stopped || host.cancelled) := by
      simp only [Bool.or_eq_true,not_or] at going ⊢
      exact ⟨by simp [alike.going],going.2⟩
    rw [if_neg (patient.untimed m.looks)] at finished
    rw [if_neg going',if_neg (patient.untimed m'.looks)]
    cases finished
    exact ⟨_,_,rfl,trivial,alike.heap,alike.tables,alike.scope,alike.stats,alike.frames,alike.shown,alike.picks,alike.going⟩

theorem finishesLeaving {body body'} (finishes : Finishes base (fun v v' _ _ => v = v') body body' m m') (caller : Environment) :
    Finishes base (fun v v' _ _ => v = v') (leaving caller body) (leaving caller body') m m' := by
  refine ⟨fun v n finished => ?_⟩
  simp only [leaving] at finished ⊢
  cases result : body m with
  | error halt k =>
    rw [result] at finished
    dsimp only at finished
    split at finished
    · contradiction
    · contradiction
  | ok w k =>
    rw [result] at finished
    obtain ⟨w',k',result',rfl,alike⟩ := finishes.result w k result
    rw [result']
    dsimp only at finished ⊢
    have more := alike.frames
    rcases active : k.frames with _ | ⟨frame,frames⟩
    · rw [active] at finished
      contradiction
    · rw [active] at finished more
      cases finished
      rcases active' : k'.frames with _ | ⟨frame',frames'⟩
      · rw [active'] at more
        contradiction
      · rw [active'] at more
        exact ⟨_,_,rfl,rfl,Machine.alikeExit alike caller (Nat.le_of_succ_le_succ more)⟩

end Run

namespace Context

open Run

structure Alike (base : Stats) (ctx ctx' : Context) : Prop where
  host : ctx'.host = ctx.host
  calls : ∀ site site' f f' args m m', m.Alike base m' → f.Alike f' →
    Finishes base (fun v v' _ _ => v = v') (ctx.invoke site f args) (ctx'.invoke site' f' args) m m'

variable {base : Stats} {ctx ctx' : Context}

abbrev finishing (base : Stats) (f : Nat → Nat) : Accord where
  shift := f
  Pairs m m' := m.Alike base m'
  Later _ _ _ _ := True
  Go P r r' m m' := Finishes base P r r' m m'
  Allows _ _ _ := True
  value v v' _ _ := v = v'
  slot s s' _ _ := s = s'
  function g g' := g.Alike g'
  Leaves _ := True
  Answers _ := True

theorem statementsFinish (alike : ctx.Alike base ctx') (f : Nat → Nat) (patient : ctx.host.Patient) :
    (finishing base f).Statements ctx ctx' where
  done alike holds := by
    refine ⟨fun c n finished => ?_⟩
    cases finished
    exact ⟨_,_,rfl,holds,alike⟩
  andThen _ first next := finishesBind first fun a b n n' alike holds => next a b n n' alike trivial holds
  below _ _ _ := trivial
  alike := by
    rintro v _ _ _ rfl
    cases v <;> constructor
  int _ _ _ := rfl
  null _ _ := rfl
  keeps _ := id
  tail same := by cases same; rfl
  header same := ⟨same.name,same.params⟩
  christened same _ := ⟨rfl,same.params,same.body⟩
  literal _ := ⟨rfl,rfl,f,rfl⟩
  missing _ _ _ := ⟨haltNone⟩
  raise _ _ _ _ := ⟨haltNone⟩
  reject _ _ _ _ _ := ⟨haltNone⟩
  lookup alike name := finishesAsk alike (by
    rw [Machine.get?,Machine.get?,alike.tables,alike.scope]
    exact Option.relSelf fun _ _ => ⟨rfl,rfl⟩)
  names alike := finishesAsk alike (by rw [Machine.names,Machine.names,alike.tables,alike.scope])
  newText alike _ := finishesSequence alike _
  newList alike values := by
    rw [List.forall₂_eq_eq_eq] at values
    exact values ▸ finishesSequence alike _
  newFunction alike same := by
    refine ⟨fun v n finished => ?_⟩
    cases finished
    refine ⟨_,_,rfl,congrArg Value.fn alike.heap.size.symm,?_⟩
    exact ⟨Heap.alikePush alike.heap same,alike.tables,alike.scope,alike.stats,alike.frames,alike.shown,alike.picks,alike.going⟩
  functionAt alike same := by
    cases same
    exact finishesFunctionAt alike _
  elementAt alike same := by
    cases same
    exact finishesElementAt alike _ _ fun _ _ _ => ⟨rfl,rfl⟩
  lengthOf alike same := by
    cases same
    exact finishesAsk alike ⟨(Heap.alikeLength alike.heap _).symm,fun _ _ => rfl⟩
  pick := by
    intro m m' id id' k alike' some same
    refine ⟨fun i n finished => ?_⟩
    cases same 0 (Nat.pos_of_ne_zero some)
    simp only [pick,if_neg some] at finished ⊢
    cases finished
    rw [alike.host,alike'.picks]
    exact ⟨_,_,rfl,⟨rfl,trivial⟩,alike'.heap,alike'.tables,alike'.scope,alike'.stats,alike'.frames,alike'.shown,rfl,alike'.going⟩
  read alike same := by
    cases same
    exact finishesRead alike _ fun _ _ _ => ⟨rfl,rfl⟩
  call alike' same values _ _ := by
    rw [List.forall₂_eq_eq_eq] at values
    exact values ▸ alike.calls _ _ _ _ _ _ _ alike' same
  leave _ := trivial
  answer _ := trivial
  leaveOutside _ _ _ := ⟨haltNone⟩
  answerOutside _ _ _ := ⟨haltNone⟩
  write alike slots values := by
    cases slots
    cases values
    exact finishesWrite alike _ _
  assign alike values name := by
    cases values
    exact finishesWrite alike (.name name) _
  count := by
    rintro m m' c alike (rfl | rfl | rfl)
    · exact finishesCount alike (fun s => { s with increments := s.increments + 1 }) fun _ => rfl
    · exact finishesCount alike (fun s => { s with decrements := s.decrements + 1 }) fun _ => rfl
    · exact finishesCount alike (fun s => { s with comparisons := s.comparisons + 1 }) fun _ => rfl
  equal alike values others := by
    cases values
    cases others
    exact finishesAsk alike (Heap.alikeEqual alike.heap _ _).symm
  incomparable _ _ _ _ _ := ⟨haltNone⟩
  badCount _ _ _ := ⟨haltNone⟩
  mismatch _ _ _ _ := ⟨haltNone⟩
  observe := by
    rintro m m' v _ alike' rfl
    refine ⟨fun a n finished => ?_⟩
    cases finished
    rw [alike.host]
    refine ⟨_,_,rfl,trivial,alike'.heap,alike'.tables,alike'.scope,alike'.stats,alike'.frames,?_,alike'.picks,?_⟩
    · simp only [Array.map_push,alike'.shown,Heap.alikePrinted alike'.heap]
    · simp only [patient.unstopped,alike'.going]
  check alike' _ := alike.host ▸ finishesCheck alike' patient _ _ _ _
  horizon := by rw [alike.host]
  unfinished _ := ⟨haltNone⟩

end Context

theorem finishesInvoke {base host} (patient : host.Patient) (depth : Nat) : ∀ site site' f f' args (m m' : Machine),
    m.Alike base m' → f.Alike f' →
    Run.Finishes base (fun v v' _ _ => v = v') (invoke host depth site f args) (invoke host depth site' f' args) m m' := by
  induction depth with
  | zero => exact fun _ _ _ _ _ _ _ _ _ => ⟨Run.haltNone⟩
  | succ depth ih =>
    intro site site' f f' args m m' alike same
    refine ⟨fun v n finished => ?_⟩
    obtain ⟨g,body⟩ := same.body
    have inner : Context.Alike base ⟨host,f.source,invoke host depth⟩ ⟨host,f'.source,invoke host depth⟩ := ⟨rfl,ih⟩
    have entered := Machine.alikeEnter alike site site' f.params args
    have answer := (Context.statementsFinish inner g patient).goAnswerOf f.body trivial entered
    rw [← body] at answer
    simp only [invoke] at finished ⊢
    rw [alike.scope,same.params]
    exact (Run.finishesLeaving answer m.scope).result v n finished

theorem Context.alikeTop {host} (patient : host.Patient) (base : Stats) (source source' : Text) :
    (top host source).Alike base (top host source') := ⟨rfl,finishesInvoke patient host.maxDepth⟩

end Terakoya
