import Mathlib.Data.List.Forall2
import Mathlib.Data.List.Induction
import Terakoya.Interpreter
import Terakoya.Proofs.Joined
import Terakoya.Proofs.Offsets

/-! Fragments of a program that are run one after the other on one machine do what the whole program does.
The fragments are read as they are in the joined text, but for their offsets, and each of them is followed
there by the part of the run that is its own. -/
namespace Terakoya

def hanging (ts : List Text) : Bool := (ts.flatMap fun t => (Parse.strict t).program.body).getLast?.any Stmt.isOpen

def alternates (t : Text) : Bool := (Cursor.start (Text.normalize t)).skipBlank.looksAt "そうでなければ"

def Settled (ts : List Text) : Prop := ∀ i (inside : i < ts.length), alternates (ts.get ⟨i,inside⟩) → ¬ hanging (ts.take i)

instance (ts : List Text) : Decidable (Settled ts) := by
  unfold Settled
  infer_instance

/-! Reading fragments -/

theorem openMoved (f : Nat → Nat) (s : Stmt) : (s.moved f).isOpen = s.isOpen := by
  cases s with
  | cond span a b cmp yes no => cases no <;> rfl
  | _ => rfl

def Parts (ts : List Text) (bodies : List (List Stmt)) : Prop :=
  List.Forall₂ (fun t body => ∃ f, body = (Parse.strict t).program.body.map (Stmt.moved f)) ts bodies

theorem partsHanging {ts bodies} (parts : Parts ts bodies) : bodies.flatten.getLast?.any Stmt.isOpen = hanging ts := by
  have opens : bodies.flatten.map Stmt.isOpen = (ts.flatMap fun t => (Parse.strict t).program.body).map Stmt.isOpen := by
    induction parts with
    | nil => rfl
    | cons first rest ih =>
      obtain ⟨f,rfl⟩ := first
      rw [List.flatten_cons,List.flatMap_cons,List.map_append,List.map_append,ih,List.map_map]
      exact congrArg (· ++ _) (List.map_congr_left fun s _ => openMoved f s)
  have last (body : List Stmt) : body.getLast?.any Stmt.isOpen = (body.map Stmt.isOpen).getLast?.any id := by
    rw [List.getLast?_map,Option.any_map]
    rfl
  rw [hanging,last,last,opens]

theorem settledFirst {ts t} (settled : Settled (ts ++ [t])) : Settled ts := by
  intro i inside begins
  have here' := settled i (by rw [List.length_append]; omega)
  rw [List.take_append_of_le_length (Nat.le_of_lt inside)] at here'
  refine here' ?_
  simpa [List.getElem_append_left inside] using begins

theorem settledLast {ts t} (settled : Settled (ts ++ [t])) (begins : alternates t) : ¬ hanging ts := by
  have here' := settled ts.length (by rw [List.length_append]; exact Nat.lt_succ_self _)
  rw [List.take_left] at here'
  exact here' (by simpa using begins)

theorem joinedCons (t u : Text) (rest : List Text) : List.intercalate [.newline] (t :: u :: rest) =
    t ++ .newline :: List.intercalate [.newline] (u :: rest) := by
  simp [List.intercalate]

theorem joinedAppend {ts us : List Text} (some : ts ≠ []) (some' : us ≠ []) : List.intercalate [.newline] (ts ++ us) =
    List.intercalate [.newline] ts ++ .newline :: List.intercalate [.newline] us := by
  induction ts with
  | nil => contradiction
  | cons t ts ih =>
    cases ts with
    | nil =>
      obtain ⟨u,us,rfl⟩ := List.exists_cons_of_ne_nil some'
      rw [List.singleton_append,joinedCons]
      simp [List.intercalate]
    | cons v ts =>
      have inner := ih (List.cons_ne_nil v ts)
      rw [List.cons_append] at inner
      rw [List.cons_append,List.cons_append,joinedCons,joinedCons,inner,List.append_assoc,List.cons_append]

theorem joinedSnoc {ts : List Text} (some : ts ≠ []) (t : Text) :
    List.intercalate [.newline] (ts ++ [t]) = List.intercalate [.newline] ts ++ .newline :: t := by
  rw [joinedAppend some (List.cons_ne_nil t [])]
  simp [List.intercalate]

theorem movedStill (body : List Stmt) : body.map (Stmt.moved id) = body := by
  refine (List.map_congr_left fun s _ => ?_).trans (List.map_id body)
  exact Tree.stmt.inj (Tree.movedFixed (n := .stmt s) (Tree.allOf (fun _ => rfl) _))

theorem partsJoined {ts} (faultless : ∀ t ∈ ts, (Parse.strict t).errors = []) (settled : Settled ts) :
    (Parse.strict (List.intercalate [.newline] ts)).errors = [] ∧
      ∃ bodies, Parts ts bodies ∧ (Parse.strict (List.intercalate [.newline] ts)).program.body = bodies.flatten := by
  induction ts using List.reverseRecOn with
  | nil => exact ⟨rfl,[],.nil,rfl⟩
  | append_singleton ts t ih =>
    have last := faultless t (List.mem_append_right ts (List.mem_singleton_self t))
    by_cases none : ts = []
    · subst none
      have alone : List.intercalate [.newline] ([] ++ [t]) = t := by simp [List.intercalate]
      rw [alone]
      refine ⟨last,[(Parse.strict t).program.body],.cons ⟨id,(movedStill _).symm⟩ .nil,?_⟩
      rw [List.flatten_cons,List.flatten_nil,List.append_nil]
    · obtain ⟨first,bodies,parts,body⟩ := ih (fun u inside => faultless u (List.mem_append_left _ inside)) (settledFirst settled)
      have apart : ¬ (Cursor.start (Text.normalize t)).skipBlank.looksAt "そうでなければ" ∨
          ∀ s, (Parse.strict (List.intercalate [.newline] ts)).program.body.getLast? = some s → s.isOpen = false := by
        by_cases begins : alternates t
        · refine Or.inr fun s final => Bool.eq_false_iff.mpr fun isOpen => settledLast settled begins ?_
          rw [← partsHanging parts,← body,final]
          exact isOpen
        · exact Or.inl begins
      have joined := Parse.ofNormalJoined first last apart
      rw [joinedSnoc none,Parse.strict,Text.normalizeJoined,joined]
      let shift := fun p => p + (Text.width (Text.normalize (List.intercalate [.newline] ts)) + 1)
      refine ⟨rfl,bodies ++ [(Parse.strict t).program.body.map (Stmt.moved shift)],
        List.rel_append parts (.cons ⟨shift,rfl⟩ .nil),?_⟩
      rw [List.flatten_append,List.flatten_cons,List.flatten_nil,List.append_nil,← body]
      rfl

/-! Running fragments -/

theorem Stats.nonePlus (s : Stats) : Stats.plus {} s = s := by
  simp only [plus,Nat.zero_add]

theorem Stats.plusAssoc (a b c : Stats) : (a.plus b).plus c = a.plus (b.plus c) := by
  simp only [plus,Nat.add_assoc]

theorem Machine.alikeRestart {base} {m m' : Machine} (alike : m.Alike base m') : m.restart.Alike (base.plus m.stats) m' :=
  ⟨alike.heap,alike.tables,alike.scope,alike.stats,Nat.zero_le _,alike.shown,alike.picks,alike.going⟩

theorem Machine.alikeStart (m : Machine) : m.restart.Alike {} m.restart :=
  ⟨m.heap.alikeRefl,rfl,rfl,rfl,Nat.le_refl _,rfl,rfl,rfl⟩

theorem Context.programAppend {ctx : Context} {first second m n}
    (finished : ctx.program first m = .ok () n) : ctx.program (first ++ second) m = ctx.program second n := by
  induction first generalizing m with
  | nil =>
    cases finished
    rfl
  | cons s first ih =>
    simp only [program,List.cons_append,bind,EStateM.bind] at finished ⊢
    cases result : ctx.stmt s m with
    | error halt k =>
      rw [result] at finished
      contradiction
    | ok flow k =>
      rw [result] at finished
      cases flow with
      | next => exact ih finished
      | answered v span => contradiction
      | left span => contradiction

namespace Interpreter

variable {host : Host} {name : String} {t : Text} {m n : Machine}

def limited (host : Host) : Host := { host with budget := budgetFor host.budget }

theorem runDone : run host name t m = (n,.done) ↔ (Parse.strict t).errors = [] ∧
    (Context.top (limited host) (Parse.strict t).source).program (Parse.strict t).program.body m.restart = .ok () n := by
  simp only [run,Parse.diagnostics]
  cases faults : (Parse.strict t).errors with
  | cons e rest => simp
  | nil =>
    have same : runParse host name (Parse.strict t) m =
        evaluate (limited host) name (Parse.strict t).source (Parse.strict t).program.body m.restart := rfl
    simp only [List.map_nil,same,evaluate,true_and]
    cases (Context.top (limited host) (Parse.strict t).source).program (Parse.strict t).program.body m.restart with
    | ok a k => simp
    | error halt k => cases halt <;> simp

def runAll (host : Host) (name : String) : List Text → Machine → Option (Machine × Stats)
  | [],m => some (m,{})
  | t :: ts,m =>
    match run host name t m with
    | (n,.done) => (runAll host name ts n).map fun (k,total) => (k,n.stats.plus total)
    | _ => none

theorem runAllMore {ts total} (ran : runAll host name (t :: ts) m = some (n,total)) :
    ∃ k rest, run host name t m = (k,.done) ∧ runAll host name ts k = some (n,rest) ∧ total = k.stats.plus rest := by
  rw [runAll] at ran
  split at ran
  · rename_i k done
    obtain ⟨⟨_,rest⟩,later,same⟩ := Option.map_eq_some_iff.mp ran
    cases same
    exact ⟨k,rest,done,later,rfl⟩
  · contradiction

theorem runAllFaultless {ts total} (ran : runAll host name ts m = some (n,total)) :
    ∀ t ∈ ts, (Parse.strict t).errors = [] := by
  induction ts generalizing m total with
  | nil => exact fun _ none => absurd none List.not_mem_nil
  | cons t ts ih =>
    obtain ⟨k,rest,first,later,_⟩ := runAllMore ran
    exact List.forall_mem_cons.mpr ⟨(runDone.mp first).1,ih later⟩

theorem followsAll (patient : (limited host).Patient) (source : Text) {ts : List Text} {bodies : List (List Stmt)}
    (parts : Parts ts bodies) {base total m'} (alike : m.restart.Alike base m')
    (ran : runAll host name ts m = some (n,total)) :
    ∃ n', (Context.top (limited host) source).program bodies.flatten m' = .ok () n' ∧
      n.restart.Alike (base.plus total) n' := by
  induction parts generalizing m base total m' with
  | nil =>
    cases ran
    exact ⟨m',rfl,alike⟩
  | @cons t body ts bodies first rest ih =>
    obtain ⟨f,rfl⟩ := first
    obtain ⟨k,counted,done,later,rfl⟩ := runAllMore ran
    obtain ⟨_,finished⟩ := runDone.mp done
    have top := Context.alikeTop patient base (Parse.strict t).source source
    have finishes := (Context.statementsFinish top f patient).goProgram (Parse.strict t).program.body (fun _ _ => trivial) alike
    obtain ⟨_,k',finished',_,alike'⟩ := finishes.result () k finished
    obtain ⟨n',finished'',alike''⟩ := ih (Machine.alikeRestart alike') later
    refine ⟨n',?_,?_⟩
    · rw [List.flatten_cons,Context.programAppend finished']
      exact finished''
    · rwa [Stats.plusAssoc] at alike''

end Interpreter

def Function.bare (f : Function) : Option String × List String × Block := (f.name,f.params,f.body.bare)

structure Machine.Agrees (m n : Machine) : Prop where
  output : n.output = m.output
  picks : n.picks = m.picks
  bindings : n.scope.bindings n.tables = m.scope.bindings m.tables
  sequences : n.heap.sequences = m.heap.sequences
  functions : n.heap.functions.map Function.bare = m.heap.functions.map Function.bare
  literal : ∀ v, n.heap.literal v = m.heap.literal v
  equal : ∀ v w, n.heap.equal v w = m.heap.equal v w

theorem Heap.alikeFunctions {h h' : Heap} (alike : h.Alike h') :
    h'.functions.map Function.bare = h.functions.map Function.bare := by
  refine Array.ext_getElem? fun id => ?_
  rw [Array.getElem?_map,Array.getElem?_map]
  cases there : h.functions[id]? with
  | none =>
    have there' : h'.functions[id]? = none := by
      rw [Array.getElem?_eq_none_iff] at there ⊢
      rwa [alike.size]
    rw [there']
  | some f =>
    obtain ⟨f',there',same⟩ := alike.functions id f there
    obtain ⟨g,body⟩ := same.body
    rw [there',Option.map_some,Option.map_some,Function.bare,Function.bare,same.name,same.params,body,Block.bareMoved]

theorem Machine.alikeAgrees {base : Stats} {m n : Machine} (alike : m.restart.Alike base n) : m.Agrees n := by
  have lines : n.shown.toList.map Shown.line = m.shown.toList.map Shown.line := by
    have same := congrArg (fun shown => shown.toList.map Prod.snd) alike.shown
    simp only [Array.toList_map,List.map_map] at same
    exact same
  refine ⟨?_,alike.picks,?_,alike.heap.sequences,Heap.alikeFunctions alike.heap,Heap.alikeLiteral alike.heap,
    Heap.alikeEqual alike.heap⟩
  · have joined (k : Machine) : k.output = String.join ((k.shown.toList.map Shown.line).map (· ++ "\n")) := by
      rw [List.map_map]
      rfl
    rw [joined,joined,lines]
  · rw [alike.tables,alike.scope]
    rfl

open Interpreter in
theorem fragmentsRunAsOne (host : Host) (name : String) (ts : List Text) (m n : Machine) (total : Stats)
    (unstopped : host.stopAfter = none)
    (untimed : ∀ looks, ¬ (0 < budgetFor host.budget ∧ budgetFor host.budget < host.clock looks)) (settled : Settled ts)
    (ran : runAll host name ts m = some (n,total)) :
    ∃ n', run host name (List.intercalate [.newline] ts) m = (n',.done) ∧ n.Agrees n' ∧ n'.stats = total := by
  have patient : (limited host).Patient := ⟨unstopped,untimed⟩
  obtain ⟨faultless,bodies,parts,body⟩ := partsJoined (runAllFaultless ran) settled
  obtain ⟨n',finished,alike⟩ := followsAll patient (Parse.strict (List.intercalate [.newline] ts)).source parts
    (Machine.alikeStart m) ran
  rw [← body] at finished
  refine ⟨n',runDone.mpr ⟨faultless,finished⟩,Machine.alikeAgrees alike,?_⟩
  rw [alike.stats,Stats.nonePlus]
  rfl

def unhurried : Host := { budget := -1,random := fun i n => i % n }

def listFragments : List Text :=
  [Text.ofString "x を [1, 2] とする",
    Text.ofString "積む を 入力 a に対し \x7b a の末尾に x[?] を追加する \x7d とする",
    Text.ofString "もし x[0] が 1 ならば \x7b x[0] を増やす \x7d そうでなければ \x7b \x7d",
    Text.ofString "# つづき",
    Text.ofString "そうでなければ を 5 とする\n3 回くり返す \x7b 積む(x) \x7d",
    Text.ofString "x"]

open Interpreter in
theorem listFragmentsRunAsOne : ∃ n n', runAll unhurried "" listFragments .empty = some (n,⟨1,0,1⟩) ∧
    run unhurried "" (List.intercalate [.newline] listFragments) .empty = (n',.done) ∧ n.Agrees n' ∧ n'.stats = ⟨1,0,1⟩ := by
  have settled : Settled listFragments := by decide +kernel
  have counted : (runAll unhurried "" listFragments .empty).map Prod.snd = some ⟨1,0,1⟩ := by decide +kernel
  obtain ⟨⟨n,total⟩,ran,rfl⟩ := Option.map_eq_some_iff.mp counted
  have untimed (looks : Nat) : ¬ (0 < budgetFor unhurried.budget ∧ budgetFor unhurried.budget < unhurried.clock looks) :=
    fun late => absurd late.1 (by decide)
  obtain ⟨n',done,agrees,stats⟩ := fragmentsRunAsOne unhurried "" listFragments .empty n _ rfl untimed settled ran
  exact ⟨n,n',ran,done,agrees,stats⟩

end Terakoya
