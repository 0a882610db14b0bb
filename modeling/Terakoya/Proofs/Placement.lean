import Terakoya.Interpreter
import Terakoya.Proofs.Accord
import Terakoya.Proofs.Lines

/-! Where a run is said to have failed. A failure, and each call in its trace, is placed in the text that was
run or in a text that a function on the machine was read from. -/
namespace Terakoya

open Run

variable {α β : Type} {S : Text → Prop}

structure Machine.Sourced (S : Text → Prop) (m : Machine) : Prop where
  functions : ∀ f ∈ m.heap.functions, S f.source
  frames : ∀ f ∈ m.frames, S f.source

def Traced (S : Text → Prop) (line : String) : Prop :=
  (∃ h f, S f.source ∧ line = Machine.showFrame h f) ∨ ∃ more : Nat, line = s!"… {more} more"

structure RuntimeError.Placed (S : Text → Prop) (e : RuntimeError) : Prop where
  location : ∃ source offset, S source ∧ e.location = Location.ofOffset source offset
  trace : ∀ line ∈ e.trace, Traced S line

theorem Machine.traced {m : Machine} (sourced : m.Sourced S) : ∀ line ∈ m.trace, Traced S line := by
  have calls : ∀ line ∈ (m.frames.take traceLength).map (showFrame m.heap), Traced S line := by
    intro line there
    obtain ⟨f,inside,rfl⟩ := List.mem_map.mp there
    exact .inl ⟨m.heap,f,sourced.frames f (List.mem_of_mem_take inside),rfl⟩
  unfold trace
  dsimp only
  split
  · exact calls
  · exact List.forall_mem_append.mpr ⟨calls,List.forall_mem_singleton.mpr (.inr ⟨_,rfl⟩)⟩

inductive Run.Settles (S : Text → Prop) (P : Common α) : EStateM.Result Halt Machine α → Prop
  | ok {a b n} (sourced : n.Sourced S) (holds : P a b n n) : Settles S P (.ok a n)
  | error {halt n} (sourced : n.Sourced S) (placed : ∀ e, halt = .failed e → e.Placed S) : Settles S P (.error halt n)

namespace Run

variable {P : Common α} {m : Machine}

theorem settlesBind {Q : Common β} {x} {f : α → Run β} (first : Settles S P (x m))
    (next : ∀ a b n, n.Sourced S → P a b n n → Settles S Q (f a n)) : Settles S Q ((x >>= f) m) := by
  simp only [bind,EStateM.bind]
  cases result : x m with
  | ok a n =>
    rw [result] at first
    cases first with
    | @ok _ b _ sourced holds => exact next a b n sourced holds
  | error halt n =>
    rw [result] at first
    cases first with
    | error sourced placed => exact .error sourced placed

theorem settlesRaise (sourced : m.Sourced S) {source} (known : S source) (offset : Nat) (fault : RuntimeFault) :
    Settles S P (raiseAt source offset fault m) :=
  .error sourced fun _ same => by
    cases same
    exact ⟨⟨source,offset,known,rfl⟩,Machine.traced sourced⟩

theorem settlesStuck (sourced : m.Sourced S) : Settles S P (stuck m) := .error sourced (by rintro _ ⟨⟩)

theorem settlesFunctionAt (sourced : m.Sourced S) (id : Nat) :
    Settles S (fun f f' _ _ => f' = f ∧ S f.source) (functionAt id m) := by
  simp only [functionAt]
  cases found : m.heap.functions[id]? with
  | none => exact settlesStuck sourced
  | some f => exact .ok sourced ⟨rfl,sourced.functions f (Array.mem_of_getElem? found)⟩

theorem settlesElementAt (sourced : m.Sourced S) {id index s} (same : Slot.element id index = s) :
    Settles S (fun v v' _ _ => v = v' ∧ Slot.element id index = s) (elementAt id index m) := by
  simp only [elementAt]
  split
  · split
    · exact .ok sourced ⟨rfl,same⟩
    · exact settlesStuck sourced
  · exact settlesStuck sourced

theorem settlesRead (sourced : m.Sourced S) {slot s : Slot} (same : slot = s) :
    Settles S (fun v v' _ _ => v = v' ∧ slot = s) (read slot m) := by
  cases slot with
  | name name =>
    simp only [read,lookup,bind,EStateM.bind]
    cases m.get? name with
    | some v => exact .ok sourced ⟨rfl,same⟩
    | none => exact settlesStuck sourced
  | element id index => exact settlesElementAt sourced same
  | tail id => exact .ok sourced ⟨rfl,same⟩

theorem settlesWrite (sourced : m.Sourced S) (slot : Slot) (v : Value) : Settles S (fun _ _ _ _ => True) (write slot v m) := by
  cases slot with
  | element id index =>
    simp only [write]
    split
    · exact .ok (b := ()) ⟨sourced.functions,sourced.frames⟩ trivial
    · exact settlesStuck sourced
  | _ => exact .ok (b := ()) ⟨sourced.functions,sourced.frames⟩ trivial

theorem settlesCheck (sourced : m.Sourced S) {host source} (known : S source) (offset : Nat) :
    Settles S (fun _ _ _ _ => True) (check host source offset m) := by
  have looked : Machine.Sourced S { m with looks := m.looks + 1 } := ⟨sourced.functions,sourced.frames⟩
  simp only [check]
  split
  · exact settlesRaise sourced known _ _
  · split
    · exact settlesRaise looked known _ _
    · exact .ok (b := ()) looked trivial

end Run

namespace Context

variable {ctx : Context}

def CallsSettle (S : Text → Prop) (ctx : Context) : Prop :=
  ∀ site f args m, m.Sourced S → S site.source → S f.source → Settles S (fun v v' _ _ => v = v') (ctx.invoke site f args m)

abbrev settling (S : Text → Prop) : Accord where
  shift := id
  Pairs m m' := m' = m ∧ m.Sourced S
  Later _ _ _ _ := True
  Go P x _ m _ := Settles S P (x m)
  Allows _ _ _ := True
  value v v' _ _ := v = v'
  slot s s' _ _ := s = s'
  function f f' := f' = f ∧ S f.source
  Leaves _ := True
  Answers _ := True

theorem statementsSettle (known : S ctx.source) (calls : ctx.CallsSettle S) : (settling S).Statements ctx ctx where
  done pairs holds := .ok pairs.2 (pairs.1 ▸ holds)
  andThen _ first next := settlesBind first fun a b n sourced holds => next a b n n ⟨rfl,sourced⟩ trivial holds
  below _ _ _ := trivial
  alike := by
    rintro v _ _ _ rfl
    cases v <;> constructor
  int _ _ _ := rfl
  null _ _ := rfl
  keeps _ := id
  tail same := by cases same; rfl
  header same := same.1 ▸ ⟨rfl,rfl⟩
  christened same _ := ⟨by rw [same.1],same.2⟩
  literal _ := ⟨by rw [Block.movedId],known⟩
  missing _ _ pairs := settlesStuck pairs.2
  raise pairs _ _ _ := settlesRaise pairs.2 known _ _
  reject pairs _ _ _ _ := settlesRaise pairs.2 known _ _
  lookup pairs _ := .ok pairs.2 (Option.relSelf fun _ _ => ⟨rfl,rfl⟩)
  names pairs := .ok pairs.2 rfl
  newText pairs _ := .ok ⟨pairs.2.functions,pairs.2.frames⟩ rfl
  newList pairs _ := .ok ⟨pairs.2.functions,pairs.2.frames⟩ rfl
  newFunction pairs same := .ok ⟨fun g there => (Array.mem_push.mp there).elim (pairs.2.functions g) fun new => new ▸ same.2,
    pairs.2.frames⟩ rfl
  functionAt pairs _ := settlesFunctionAt pairs.2 _
  elementAt pairs same := settlesElementAt pairs.2 same
  lengthOf pairs same := .ok pairs.2 ⟨rfl,fun _ _ => by cases same; rfl⟩
  pick pairs some same := by
    simp only [pick,if_neg some]
    cases same 0 (Nat.pos_of_ne_zero some)
    exact .ok ⟨pairs.2.functions,pairs.2.frames⟩ ⟨rfl,rfl⟩
  read pairs same := settlesRead pairs.2 same
  call pairs same _ _ _ := calls _ _ _ _ pairs.2 known same.2
  leave _ := trivial
  answer _ := trivial
  leaveOutside pairs _ _ := settlesRaise pairs.2 known _ _
  answerOutside pairs _ _ := settlesRaise pairs.2 known _ _
  write pairs _ _ := settlesWrite pairs.2 _ _
  assign pairs _ _ := .ok (b := ()) ⟨pairs.2.functions,pairs.2.frames⟩ trivial
  count := by rintro m _ _ pairs (rfl | rfl | rfl) <;> exact .ok (b := ()) ⟨pairs.2.functions,pairs.2.frames⟩ trivial
  equal pairs _ _ := .ok pairs.2 rfl
  incomparable pairs _ _ _ _ := settlesRaise pairs.2 known _ _
  badCount pairs _ _ := settlesRaise pairs.2 known _ _
  mismatch pairs _ _ _ := .error pairs.2 fun _ same => by
    cases same
    exact ⟨⟨ctx.source,_,known,rfl⟩,Machine.traced pairs.2⟩
  observe pairs _ := .ok (b := ()) ⟨pairs.2.functions,pairs.2.frames⟩ trivial
  check pairs _ := settlesCheck pairs.2 known _
  horizon := rfl
  unfinished pairs := .error pairs.2 (by rintro _ ⟨⟩)

end Context

theorem Machine.sourcedEnter {m : Machine} (sourced : m.Sourced S) {site} (known : S site.source)
    (params : List String) (args : List Value) : (m.enter site params args).Sourced S := by
  have bound (pairs : List (String × Value)) {n : Machine} (sourced : n.Sourced S) :
      (pairs.foldl (fun n pair => n.set pair.1 pair.2) n).Sourced S := by
    induction pairs generalizing n with
    | nil => exact sourced
    | cons pair rest ih => exact ih ⟨sourced.functions,sourced.frames⟩
  have within := bound (params.zip args)
    (n := { m with tables := (m.tables.copy m.scope).1,scope := (m.tables.copy m.scope).2 })
    ⟨sourced.functions,sourced.frames⟩
  exact ⟨within.functions,List.forall_mem_cons.mpr ⟨known,within.frames⟩⟩

theorem settlesLeaving (caller : Environment) {body m} (ended : Settles S (fun v v' _ _ => v = v') (body m)) :
    Settles S (fun v v' _ _ => v = v') (leaving caller body m) := by
  have left {n : Machine} (sourced : n.Sourced S) {f : Frame} {frames : List Frame} (active : n.frames = f :: frames) :
      (n.exit caller frames).Sourced S :=
    ⟨sourced.functions,fun g there => sourced.frames g (active ▸ List.mem_cons_of_mem f there)⟩
  unfold leaving
  cases result : body m with
  | ok v n =>
    rw [result] at ended
    obtain ⟨sourced,_⟩ | _ := ended
    dsimp only
    cases active : n.frames with
    | nil => exact settlesStuck sourced
    | cons f frames => exact .ok (left sourced active) rfl
  | error halt n =>
    rw [result] at ended
    obtain _ | ⟨sourced,placed⟩ := ended
    dsimp only
    cases active : n.frames with
    | nil => exact settlesStuck sourced
    | cons f frames => exact .error (left sourced active) placed

theorem settlesInvoke (host : Host) (depth : Nat) (site : CallSite) (f : Function) (args : List Value) (m : Machine)
    (sourced : m.Sourced S) (there : S site.source) (known : S f.source) :
    Settles S (fun v v' _ _ => v = v') (invoke host depth site f args m) := by
  induction depth generalizing site f args m with
  | zero => exact settlesRaise sourced there _ _
  | succ depth ih =>
    let ctx : Context := ⟨host,f.source,invoke host depth⟩
    have entered := Machine.sourcedEnter sourced there f.params args
    exact settlesLeaving m.scope ((ctx.statementsSettle known ih).goAnswerOf f.body trivial ⟨rfl,entered⟩)

theorem Interpreter.evaluatePlaces (host : Host) (name : String) {source} (known : S source) (body : List Stmt)
    {m} (sourced : m.Sourced S) :
    (evaluate host name source body m).1.Sourced S ∧ ∀ d, (evaluate host name source body m).2 = .failed d →
      (∃ source offset, S source ∧ d.location = Location.ofOffset source offset) ∧ ∀ line ∈ d.trace, Traced S line := by
  have calls : (Context.top host source).CallsSettle S := settlesInvoke host host.maxDepth
  have ended : Settles S (fun _ _ _ _ => True) ((Context.top host source).program body m) :=
    (Context.statementsSettle known calls).goProgram body (fun _ _ => trivial) ⟨rfl,sourced⟩
  unfold evaluate
  cases result : (Context.top host source).program body m with
  | ok _ n =>
    rw [result] at ended
    obtain ⟨sourced,_⟩ | _ := ended
    exact ⟨sourced,fun d same => by cases same⟩
  | error halt n =>
    rw [result] at ended
    obtain _ | ⟨sourced,placed⟩ := ended
    cases halt with
    | failed e =>
      have placed := placed e rfl
      refine ⟨sourced,fun d same => ?_⟩
      cases same
      exact ⟨placed.location,placed.trace⟩
    | stuck => exact ⟨sourced,fun d same => by cases same⟩
    | unfinished => exact ⟨sourced,fun d same => by cases same⟩

def Machine.ReadFrom (texts : List Text) (m : Machine) : Prop :=
  ∀ f ∈ m.heap.functions, ∃ t ∈ texts, f.source = Text.normalize t

structure Diagnostic.Written (texts : List Text) (d : Diagnostic) : Prop where
  place : ∃ t ∈ texts, ∃ line, d.location.OnLine t line
  trace : ∀ shown ∈ d.trace, (∃ h f, shown = Machine.showFrame h f ∧
    ∃ t ∈ texts, ∃ line, (Location.ofOffset f.source f.offset).OnLine t line) ∨ ∃ more : Nat, shown = s!"… {more} more"

theorem Parse.diagnosticOnLine {t recover name d}
    (reported : d ∈ (ofNormal recover (Text.normalize t)).diagnostics name) : ∃ line, d.location.OnLine t line := by
  obtain ⟨e,_,rfl⟩ := List.mem_map.mp reported
  exact Location.onLine t e.offset

theorem Diagnostic.ofCodeTrace (code : String) (data : Option Data) : (ofCode code data).trace = [] := by
  unfold ofCode
  split <;> rfl

theorem Interpreter.runWritten (host : Host) (name : String) (t : Text) {texts m}
    (functions : m.ReadFrom texts) : (run host name t m).1.ReadFrom (t :: texts) ∧
      ∀ d, (run host name t m).2 = .failed d → d.Written (t :: texts) := by
  have wider : m.ReadFrom (t :: texts) := by
    intro f there
    obtain ⟨u,known,same⟩ := functions f there
    exact ⟨u,List.mem_cons_of_mem t known,same⟩
  unfold run
  dsimp only
  cases reported : (Parse.strict t).diagnostics name with
  | cons d more =>
    refine ⟨wider,fun d' same => ?_⟩
    cases same
    have there : d ∈ (Parse.strict t).diagnostics name := reported ▸ List.mem_cons_self
    have onLine := Parse.diagnosticOnLine there
    obtain ⟨e,_,rfl⟩ := List.mem_map.mp there
    have silent : (e.diagnostic (Parse.strict t).source).trace = [] := Diagnostic.ofCodeTrace _ _
    exact ⟨⟨t,List.mem_cons_self,onLine⟩,fun shown there => absurd (silent ▸ there) List.not_mem_nil⟩
  | nil =>
    obtain ⟨sourced,placed⟩ := evaluatePlaces (S := fun source => ∃ u ∈ t :: texts, source = Text.normalize u)
      { host with budget := budgetFor host.budget } name ⟨t,List.mem_cons_self,rfl⟩ (Parse.strict t).program.body
      (m := m.restart) ⟨wider,fun f there => by cases there⟩
    refine ⟨sourced.functions,fun d failed => ?_⟩
    obtain ⟨⟨source,offset,⟨u,known,rfl⟩,location⟩,trace⟩ := placed d failed
    refine ⟨⟨u,known,location ▸ Location.onLine u offset⟩,fun shown there => ?_⟩
    rcases trace shown there with ⟨h,f,⟨u,known,source⟩,same⟩ | more
    · exact .inl ⟨h,f,same,u,known,source ▸ Location.onLine u f.offset⟩
    · exact .inr more

open Text (normalize decode lines) in
/-- Normalizing goes line by line: what stands before a newline and what stands behind it are normalized apart,
and the lines of a text that was read from bytes are those of the bytes. So what a fault of reading, a failure
of a run and each call of its trace tell of a line holds of the text as it was written. -/
theorem normalizingKeepsLines :
    (∀ a b : Text, normalize (a ++ .newline :: b) = normalize a ++ .newline :: normalize b) ∧
    (∀ bytes : List UInt8, lines (normalize (decode bytes)) = (bytes.splitOn 10).map fun line => normalize (decode line)) ∧
    (∀ (t : Text) (recover : Bool) (name : String), ∀ d ∈ (Parse.ofNormal recover (normalize t)).diagnostics name,
      ∃ line, d.location.OnLine t line) ∧
    ∀ (host : Host) (name : String) (t : Text) (texts : List Text) (m : Machine), m.ReadFrom texts →
      (Interpreter.run host name t m).1.ReadFrom (t :: texts) ∧
      ∀ d, (Interpreter.run host name t m).2 = .failed d → d.Written (t :: texts) := by
  refine ⟨Text.normalizeJoined,fun bytes => ?_,fun t recover name d reported => Parse.diagnosticOnLine reported,
    fun host name t texts m functions => Interpreter.runWritten host name t functions⟩
  rw [Text.linesNormalized,Text.linesDecoded,List.map_map]
  rfl

def firstElement : Text := Text.ofString "\"か\u3099\"\nf を 入力 n に対し \x7b\n  n[0] が答え\n\x7d とする"

def firstOfOne : Text := Text.ofString "# か\u3099\nf(1)"

theorem failureOfFunctionIsWritten :
    let m := (Interpreter.run {} "" firstElement .empty).1
    m.ReadFrom [firstElement] ∧ ∃ d, (Interpreter.run {} "" firstOfOne m).2 = .failed d ∧ d.location.line = 3 ∧
      d.trace = ["f(1) at line 2"] ∧ d.Written [firstOfOne,firstElement] := by
  intro m
  have functions : m.ReadFrom [firstElement] :=
    (normalizingKeepsLines.2.2.2 {} "" firstElement [] .empty fun f there => absurd there (by simp [Machine.empty])).1
  have told : (Interpreter.run {} "" firstOfOne m).2.diagnostic?.map (fun d => (d.location.line,d.trace)) =
      some (3,["f(1) at line 2"]) := by decide +kernel
  obtain ⟨d,failed,same⟩ := Option.map_eq_some_iff.mp told
  have failed : (Interpreter.run {} "" firstOfOne m).2 = .failed d := by
    generalize (Interpreter.run {} "" firstOfOne m).2 = ending at failed
    cases ending <;> simp_all [Ending.diagnostic?]
  exact ⟨functions,d,failed,congrArg Prod.fst same,congrArg Prod.snd same,
    (normalizingKeepsLines.2.2.2 {} "" firstOfOne [firstElement] m functions).2 d failed⟩

end Terakoya
