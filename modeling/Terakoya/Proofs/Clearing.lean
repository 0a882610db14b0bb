import Terakoya.Proofs.Renaming
import Terakoya.Proofs.Safety
import Terakoya.Session.Basic

/-! Clearing a session. Names, sources and counters are always as at the start. The lists and texts of a seed are
not made anew: a cleared session finds what the fragments before have made of them. Where they hold what they
held at the start, under whatever numbers, nothing tells the cleared session from a fresh one. -/
namespace Terakoya

namespace Session

inductive Step where
  | eval (t : Text)
  | command (c : String)

def take (s : Session) : Step → Session × String
  | .eval t => s.eval t
  | .command c => s.perform (.ofString c)

def through (s : Session) : List Step → Session
  | [] => s
  | step :: rest => (s.take step).1.through rest

structure Sight where
  answer : String
  names : List (String × String × String)
  stats : Stats
  deriving DecidableEq, Repr

def sights (s : Session) : List Step → List Sight
  | [] => []
  | step :: rest => ⟨(s.take step).2,(s.take step).1.machine.dump,(s.take step).1.stats⟩ :: (s.take step).1.sights rest

/-- The sequences that a session began with hold now, under whatever numbers, what they held then. -/
def Keeps (s₀ s : Session) : Prop :=
  ∃ ρ : Renaming, (∀ p ∈ s₀.seed, ρ.value p.2 = p.2) ∧
    ∀ id < s₀.machine.heap.sequences.size,
      s.machine.heap.sequences[ρ.seq id]? = s₀.machine.heap.sequences[id]?.map ρ.sequence

end Session

/-! Sessions on machines that number otherwise -/

namespace Renaming

variable {ρ : Renaming} {past : Array Nat} {m m' : Machine}

theorem machinesRestart (machines : ρ.Machines past m m') : ρ.Machines past m.restart m'.restart :=
  { machines with stats := rfl,frames := rfl,looks := rfl,stopped := rfl }

theorem machinesClearShown (machines : ρ.Machines past m m') : ρ.Machines past m.clearShown m'.clearShown :=
  { machines with shown := by simp only [Machine.clearShown,Array.map_empty] }

theorem outputSame (machines : ρ.Machines past m m') : m'.output = m.output := by
  simp only [Machine.output,machines.shown,Array.toList_map,List.map_map]
  rfl

theorem machinesEvaluate (machines : ρ.Machines past m m') (host : Host) (name : String) (source : Text) (body : List Stmt) :
    (Interpreter.evaluate host name source body m').2 = (Interpreter.evaluate (host.after past.size) name source body m).2 ∧
      ρ.Machines past (Interpreter.evaluate (host.after past.size) name source body m).1
        (Interpreter.evaluate host name source body m').1 := by
  have ended := Context.mirrorsProgram (Context.mirroredTop host source) body machines
  simp only [Interpreter.evaluate]
  generalize (Context.top (host.after past.size) source).program body m = result at ended
  generalize (Context.top host source).program body m' = result' at ended
  cases ended with
  | ok _ machines => exact ⟨rfl,machines⟩
  | @error halt _ _ _ same machines =>
    cases same
    cases halt with
    | failed e => exact ⟨rfl,machines⟩
    | stuck => exact ⟨rfl,machines⟩
    | unfinished => exact ⟨rfl,machines⟩

theorem machinesRun (machines : ρ.Machines past m m') (host : Host) (name : String) (t : Text) :
    (Interpreter.run host name t m').2 = (Interpreter.run (host.after past.size) name t m).2 ∧
      ρ.Machines past (Interpreter.run (host.after past.size) name t m).1 (Interpreter.run host name t m').1 := by
  simp only [Interpreter.run]
  cases (Parse.strict t).diagnostics name with
  | cons d rest => exact ⟨rfl,machines⟩
  | nil => exact machinesEvaluate (machinesRestart machines) { host with budget := Interpreter.budgetFor host.budget } name _ _

theorem machinesBindAll (machines : ρ.Machines past m m') {p : Planted} (fixed : ∀ q ∈ p, ρ.value q.2 = q.2) :
    ρ.Machines past (p.bindAll m) (p.bindAll m') := by
  induction p generalizing m m' with
  | nil => exact machines
  | cons q p ih =>
    obtain ⟨here,rest⟩ := List.forall_mem_cons.mp fixed
    have bound := machinesSet machines (Planted.bound q.1) q.2
    rw [here] at bound
    exact ih bound rest

end Renaming

namespace Planted

theorem restartBindAll (m : Machine) (p : Planted) : (p.bindAll m).restart.clearShown = p.bindAll m.restart.clearShown := by
  induction p generalizing m with
  | nil => rfl
  | cons q p ih => exact ih (m.set (bound q.1) q.2)

theorem heapBindAll (m : Machine) (p : Planted) : (p.bindAll m).heap = m.heap := by
  induction p generalizing m with
  | nil => rfl
  | cons q p ih => exact ih (m.set (bound q.1) q.2)

theorem bindingsBindAll (p : Planted) {m m'} (tables : m'.tables = m.tables) (scope : m'.scope = m.scope) :
    (p.bindAll m').scope.bindings (p.bindAll m').tables = (p.bindAll m).scope.bindings (p.bindAll m).tables := by
  induction p generalizing m m' with
  | nil => simp only [bindAll,List.foldl_nil,tables,scope]
  | cons q p ih =>
    refine ih ?_ ?_
    · simp only [Machine.set,tables,scope]
    · simp only [Machine.set,tables,scope]

end Planted

namespace Machine

theorem emptyTables (ρ : Renaming) : empty.tables.mapValues ρ.value = empty.tables := by
  simp [empty,Tables.new,Tables.add,Tables.mapValues,Tables.mapTable,Bindings.mapValues]

def bare (m : Machine) : Machine := { m with tables := empty.tables,scope := empty.scope,frames := [] }

end Machine

namespace Session

def cleared (s : Session) : Session := { s with machine := s.seed.bindAll s.machine.bare,sources := [],stats := {} }

theorem resetGood {s : Session} (good : s.seed.badName? = none) : s.reset = .ok s.cleared := by
  simp only [reset,Planted.apply,good]
  rfl

theorem resetBad {s : Session} {b} (bad : s.seed.badName? = some b) : s.reset = .error b := by
  simp only [reset,Planted.apply,bad]
  rfl

structure Mirrored (ρ : Renaming) (past : Array Nat) (s s' : Session) : Prop where
  host : s.host = s'.host.after past.size
  machine : ρ.Machines past s.machine.restart.clearShown s'.machine.restart.clearShown
  seed : s'.seed = s.seed
  fixed : ∀ p ∈ s.seed, ρ.value p.2 = p.2
  sources : s'.sources = s.sources
  stats : s'.stats = s.stats

variable {ρ : Renaming} {past : Array Nat} {s s' : Session}

theorem mirroredDump (mirrored : s.Mirrored ρ past s') : s'.machine.dump = s.machine.dump := by
  have same := Renaming.dumpSame mirrored.machine
  exact same

theorem mirroredCleared (host : s.host = s'.host.after past.size) (heaps : ρ.Heaps s.machine.heap s'.machine.heap)
    (picks : s'.machine.picks = past ++ s.machine.picks) (seed : s'.seed = s.seed)
    (fixed : ∀ p ∈ s.seed, ρ.value p.2 = p.2) : s.cleared.Mirrored ρ past s'.cleared := by
  have bare : ρ.Machines past s.machine.bare.restart.clearShown s'.machine.bare.restart.clearShown :=
    { heap := heaps,tables := (Machine.emptyTables ρ).symm,scope := rfl,stats := rfl,frames := rfl
      shown := Array.map_empty.symm,picks,looks := rfl,stopped := rfl }
  have bound := Renaming.machinesBindAll bare fixed
  rw [← Planted.restartBindAll,← Planted.restartBindAll] at bound
  refine { host,machine := ?_,seed,fixed,sources := rfl,stats := rfl }
  simp only [cleared,seed]
  exact bound

theorem mirroredEval (mirrored : s.Mirrored ρ past s') (t : Text) :
    (s'.eval t).2 = (s.eval t).2 ∧ (s.eval t).1.Mirrored ρ past (s'.eval t).1 := by
  obtain ⟨ending,machines⟩ := Renaming.machinesRun mirrored.machine s'.host "" t
  rw [← mirrored.host] at ending machines
  simp only [eval,ending,Renaming.outputSame machines,machines.stats,mirrored.sources]
  exact ⟨trivial,{ mirrored with
    machine := Renaming.machinesClearShown (Renaming.machinesRestart machines)
    sources := rfl
    stats := rfl }⟩

theorem mirroredPerform (mirrored : s.Mirrored ρ past s') (c : Command) :
    (s'.perform c).2 = (s.perform c).2 ∧ (s.perform c).1.Mirrored ρ past (s'.perform c).1 := by
  cases c with
  | nothing => exact ⟨rfl,mirrored⟩
  | help => exact ⟨rfl,mirrored⟩
  | env => exact ⟨by simp only [perform,listing,mirroredDump mirrored],mirrored⟩
  | stats => exact ⟨by simp only [perform,mirrored.stats],mirrored⟩
  | quit => exact ⟨rfl,mirrored⟩
  | emit dialect => exact ⟨by simp only [perform,emitted,source,mirrored.sources],mirrored⟩
  | unknown word => exact ⟨rfl,mirrored⟩
  | clear =>
    cases bad : s.seed.badName? with
    | some b =>
      have bad' : s'.seed.badName? = some b := by rw [mirrored.seed,bad]
      simp only [perform,resetBad bad,resetBad bad']
      exact ⟨trivial,mirrored⟩
    | none =>
      have good' : s'.seed.badName? = none := by rw [mirrored.seed,bad]
      simp only [perform,resetGood bad,resetGood good']
      exact ⟨trivial,mirroredCleared mirrored.host mirrored.machine.heap mirrored.machine.picks mirrored.seed mirrored.fixed⟩

theorem mirroredTake (mirrored : s.Mirrored ρ past s') (step : Step) :
    (s'.take step).2 = (s.take step).2 ∧ (s.take step).1.Mirrored ρ past (s'.take step).1 := by
  cases step with
  | eval t => exact mirroredEval mirrored t
  | command c => exact mirroredPerform mirrored (.ofString c)

theorem mirroredSights (mirrored : s.Mirrored ρ past s') (steps : List Step) : s'.sights steps = s.sights steps := by
  induction steps generalizing s s' with
  | nil => rfl
  | cons step rest ih =>
    obtain ⟨answer,next⟩ := mirroredTake mirrored step
    simp only [sights,answer,mirroredDump next,next.stats,ih next]

theorem takeKeeps (s : Session) (step : Step) : (s.take step).1.seed = s.seed ∧ (s.take step).1.host = s.host := by
  cases step with
  | eval t => exact ⟨rfl,rfl⟩
  | command c =>
    simp only [take]
    cases Command.ofString c with
    | clear =>
      cases bad : s.seed.badName? with
      | some b => simp only [perform,resetBad bad,and_self]
      | none => simp only [perform,resetGood bad,cleared,and_self]
    | _ => exact ⟨rfl,rfl⟩

theorem throughKeeps (s : Session) (steps : List Step) : (s.through steps).seed = s.seed ∧ (s.through steps).host = s.host := by
  induction steps generalizing s with
  | nil => exact ⟨rfl,rfl⟩
  | cons step rest ih =>
    obtain ⟨seed,host⟩ := takeKeeps s step
    obtain ⟨seed',host'⟩ := ih (s.take step).1
    exact ⟨seed'.trans seed,host'.trans host⟩

end Session

/-! What planting leaves on a heap -/

namespace Heap

structure Data (h : Heap) : Prop where
  functions : h.functions = #[]
  elements : ∀ s ∈ h.sequences, ∀ v ∈ s.elements, h.Proper v

theorem dataEmpty : Data {} := ⟨rfl,by simp⟩

structure Plants (h h' : Heap) (vs : List Value) : Prop where
  data : h'.Data
  grows : h.Grows h'
  values : ∀ v ∈ vs, h'.Proper v

theorem plantsSequence {h : Heap} (data : h.Data) {s} (elements : ∀ v ∈ s.elements, h.Proper v) :
    h.Plants (h.addSequence s).1 [(h.addSequence s).2] := by
  have grows := growsSequence h s
  refine ⟨⟨data.functions,fun t there v inside => ?_⟩,grows,?_⟩
  · rcases Array.mem_push.mp there with old | rfl
    · exact growsProper grows (data.elements t old v inside)
    · exact growsProper grows (elements v inside)
  · simp [Proper,addSequence]

theorem plantsTrans {a b c : Heap} {vs ws} (first : a.Plants b vs) (second : b.Plants c ws) : a.Plants c (vs ++ ws) := by
  refine ⟨second.data,growsTrans first.grows second.grows,fun v there => ?_⟩
  rcases List.mem_append.mp there with old | new
  · exact growsProper second.grows (first.values v old)
  · exact second.values v new

end Heap

mutual

theorem SeedValue.plants {h : Heap} (data : h.Data) (value : SeedValue) : h.Plants (value.plant h).1 [(value.plant h).2] := by
  cases value with
  | int n => exact ⟨data,Heap.growsRefl h,by simp [SeedValue.plant,Heap.Proper]⟩
  | null => exact ⟨data,Heap.growsRefl h,by simp [SeedValue.plant,Heap.Proper]⟩
  | text s => exact Heap.plantsSequence data (by simp [Heap.Proper])
  | list items =>
    have inner := SeedValue.plantsAll data items
    have outer := Heap.plantsSequence inner.data (s := ⟨(SeedValue.plantAll h items).2.toArray,false⟩)
      fun v there => inner.values v (List.mem_toArray.mp there)
    exact ⟨outer.data,Heap.growsTrans inner.grows outer.grows,outer.values⟩

theorem SeedValue.plantsAll {h : Heap} (data : h.Data) (items : List SeedValue) :
    h.Plants (SeedValue.plantAll h items).1 (SeedValue.plantAll h items).2 := by
  cases items with
  | nil => exact ⟨data,Heap.growsRefl h,by simp [SeedValue.plantAll]⟩
  | cons item rest =>
    have first := SeedValue.plants data item
    exact Heap.plantsTrans first (SeedValue.plantsAll first.data rest)

end

theorem Seed.plants {h : Heap} (data : h.Data) (seed : Seed) : h.Plants (seed.plant h).1 ((seed.plant h).2.map Prod.snd) := by
  induction seed generalizing h with
  | nil => exact ⟨data,Heap.growsRefl h,by simp [Seed.plant]⟩
  | cons pair rest ih =>
    have first := SeedValue.plants data pair.2
    exact Heap.plantsTrans first (ih first.data)

/-! Numbers on the heap of a cleared session -/

namespace Renaming

def extended (ρ : Renaming) (bound : Nat) (h : Heap) (inside : ∀ id < bound, ρ.seq id < h.sequences.size) : Renaming where
  seq id := if id < bound then ρ.seq id else id - bound + h.sequences.size
  fn id := id + h.functions.size
  seqInjective i j same := by
    simp only at same
    split at same
    · rename_i low
      have below := inside i low
      split at same
      · exact ρ.seqInjective same
      · omega
    · split at same
      · rename_i low
        have below := inside j low
        omega
      · omega
  fnInjective i j same := by simpa using same

theorem extendedValue (ρ : Renaming) {h h' : Heap} (functions : h.functions = #[])
    (inside : ∀ id < h.sequences.size, ρ.seq id < h'.sequences.size) {v} (proper : h.Proper v) :
    (ρ.extended h.sequences.size h' inside).value v = ρ.value v := by
  cases v with
  | int n => rfl
  | null => rfl
  | seq id => exact congrArg Value.seq (if_pos proper)
  | fn id =>
    simp only [Heap.Proper,functions] at proper
    contradiction

theorem heapsExtended (ρ : Renaming) {h h' : Heap} (data : h.Data)
    (inside : ∀ id < h.sequences.size, ρ.seq id < h'.sequences.size)
    (found : ∀ id < h.sequences.size, h'.sequences[ρ.seq id]? = h.sequences[id]?.map ρ.sequence) :
    (ρ.extended h.sequences.size h' inside).Heaps h h' := by
  refine ⟨fun id => ?_,fun id => ?_,fun n => ?_,fun n => ?_⟩
  · by_cases low : id < h.sequences.size
    · have same : (ρ.extended h.sequences.size h' inside).sequence h.sequences[id] = ρ.sequence h.sequences[id] := by
        simp only [sequence]
        congr 1
        refine Array.map_congr_left fun v there => ?_
        exact extendedValue ρ data.functions inside (data.elements _ (Array.getElem_mem low) v there)
      simp only [extended,if_pos low,found id low]
      rw [Array.getElem?_eq_getElem low,Option.map_some,Option.map_some]
      exact congrArg some same.symm
    · simp only [extended,if_neg low]
      rw [Array.getElem?_eq_none (by omega),Array.getElem?_eq_none (by omega)]
      rfl
  · simp only [extended,data.functions]
    rw [Array.getElem?_eq_none (by omega)]
    rfl
  · simp only [extended]
    rw [if_neg (by omega)]
    omega
  · simp only [extended,data.functions,List.size_toArray,List.length_nil]
    omega

end Renaming

namespace Session

def planted (host : Host) (seed : Seed) : Session :=
  { host,machine := { Machine.empty with heap := (seed.plant {}).1 },seed := (seed.plant {}).2 }

theorem startGood {host : Host} {seed s₀} (begun : start host seed = .ok s₀) :
    (planted host seed).seed.badName? = none ∧ s₀ = (planted host seed).cleared := by
  have begun : (planted host seed).reset = .ok s₀ := begun
  cases bad : (planted host seed).seed.badName? with
  | some b =>
    rw [resetBad bad] at begun
    contradiction
  | none =>
    rw [resetGood bad] at begun
    exact ⟨rfl,(Except.ok.inj begun).symm⟩

theorem mirroredFresh {host : Host} {seed s} (same : s.seed = (planted host seed).seed ∧ s.host = host)
    (kept : (planted host seed).cleared.Keeps s) :
    ∃ ρ, (planted (host.after s.machine.picks.size) seed).cleared.Mirrored ρ s.machine.picks s.cleared := by
  obtain ⟨ρ,fixed,found⟩ := kept
  have heap : (planted host seed).cleared.machine.heap = (seed.plant {}).1 := Planted.heapBindAll _ _
  rw [heap] at found
  have plants := Seed.plants Heap.dataEmpty seed
  have inside : ∀ id < (seed.plant {}).1.sequences.size, ρ.seq id < s.machine.heap.sequences.size := by
    intro id low
    have there := found id low
    rw [Array.getElem?_eq_getElem low,Option.map_some] at there
    exact (Array.getElem?_eq_some_iff.mp there).1
  have heaps := Renaming.heapsExtended ρ plants.data inside found
  refine ⟨_,mirroredCleared ?_ heaps ?_ same.1 fun p there => ?_⟩
  · simp only [planted,same.2]
  · exact (Array.append_empty).symm
  · rw [Renaming.extendedValue ρ plants.data.functions inside (plants.values p.2 (List.mem_map_of_mem there))]
    exact fixed p there

end Session

theorem clearedSessionsStartAgain (host : Host) (seed : Seed) (s₀ : Session) (begun : Session.start host seed = .ok s₀)
    (steps : List Session.Step) :
    ∃ s, (s₀.through steps).take (.command ":clear") = (s,"Environment cleared\n") ∧ s.sources = [] ∧ s.stats = {} ∧
      s.machine.scope.bindings s.machine.tables = s₀.machine.scope.bindings s₀.machine.tables ∧
      (s.machine.dump = s₀.machine.dump ↔ ∀ p ∈ s₀.machine.scope.bindings s₀.machine.tables,
        (s₀.through steps).machine.heap.literal p.2 = s₀.machine.heap.literal p.2) ∧
      (s₀.Keeps (s₀.through steps) → ∃ fresh,
        Session.start (host.after (s₀.through steps).machine.picks.size) seed = .ok fresh ∧
          s.machine.dump = fresh.machine.dump ∧ ∀ later, s.sights later = fresh.sights later) := by
  obtain ⟨good,rfl⟩ := Session.startGood begun
  generalize reached : (Session.planted host seed).cleared.through steps = now
  have same := Session.throughKeeps (Session.planted host seed).cleared steps
  rw [reached] at same
  have names : now.cleared.machine.scope.bindings now.cleared.machine.tables =
      (Session.planted host seed).cleared.machine.scope.bindings (Session.planted host seed).cleared.machine.tables := by
    simp only [Session.cleared,same.1]
    exact Planted.bindingsBindAll _ rfl rfl
  have heap : now.cleared.machine.heap = now.machine.heap := Planted.heapBindAll _ _
  refine ⟨now.cleared,?_,rfl,rfl,names,?_,fun kept => ?_⟩
  · have clears : Session.Command.ofString ":clear" = .clear := by
      have words : Text.words ":clear" = [":clear"] := by decide +kernel
      simp [Session.Command.ofString,words]
    have good' : now.seed.badName? = none := by rw [same.1]; exact good
    simp only [Session.take,clears,Session.perform,Session.resetGood good']
  · simp only [Machine.dump,names,heap]
    rw [List.map_inj_left]
    refine forall₂_congr fun p there => ?_
    simp only [Prod.mk.injEq,true_and]
  · obtain ⟨ρ,mirrored⟩ := Session.mirroredFresh same kept
    exact ⟨_,Session.resetGood good,Session.mirroredDump mirrored,Session.mirroredSights mirrored⟩

namespace Session

deriving instance DecidableEq for Sequence

def scores : Session := (planted {} [(Text.ofString "点数",.list [.int 1,.int 2])]).cleared

theorem scoresBegin : start {} [(Text.ofString "点数",.list [.int 1,.int 2])] = .ok scores :=
  resetGood (by decide +kernel)

end Session

theorem repairedScoresStartAgain :
    let steps : List Session.Step := ["別名 = 点数","別名[0] = 5","点数[0] = 1"].map fun t => .eval (Text.ofString t)
    Session.start {} [(Text.ofString "点数",.list [.int 1,.int 2])] = .ok Session.scores ∧
      Session.scores.Keeps (Session.scores.through steps) ∧
      ∃ s, (Session.scores.through steps).take (.command ":clear") = (s,"Environment cleared\n") ∧ s.sources = [] ∧ s.stats = {} ∧
      s.machine.scope.bindings s.machine.tables = Session.scores.machine.scope.bindings Session.scores.machine.tables ∧
      ∃ fresh, Session.start (Host.after {} (Session.scores.through steps).machine.picks.size)
          [(Text.ofString "点数",.list [.int 1,.int 2])] = .ok fresh ∧
        s.machine.dump = fresh.machine.dump ∧ ∀ later, s.sights later = fresh.sights later := by
  intro steps
  have kept : Session.scores.Keeps (Session.scores.through steps) := by
    refine ⟨⟨id,id,fun _ _ same => same,fun _ _ same => same⟩,?_,?_⟩
    · decide +kernel
    · decide +kernel
  obtain ⟨s,clears,sources,stats,names,_,fresh⟩ := clearedSessionsStartAgain {} _ _ Session.scoresBegin steps
  exact ⟨Session.scoresBegin,kept,s,clears,sources,stats,names,fresh kept⟩

theorem longerScoresStay :
    (Session.scores.sights [.eval (Text.ofString "点数の末尾に 3 を追加する"),.command ":clear",.eval (Text.ofString "点数")]).map
        Session.Sight.answer = ["","Environment cleared\n","[1, 2, 3]\n"] ∧
      (Session.scores.sights [.eval (Text.ofString "点数")]).map Session.Sight.answer = ["[1, 2]\n"] := by
  decide +kernel

end Terakoya
