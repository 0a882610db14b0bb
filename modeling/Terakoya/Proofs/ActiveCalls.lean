import Terakoya.Proofs.Termination

/-! The calls that are active. Whatever is evaluated and however it ends, the same calls are active as before.
In a run they are at every moment those that something waits for, and never more than may be. A failure shows
those active where it arose. -/
namespace Terakoya

open Run

namespace Moment

variable {host : Host} {M N : Moment} {source : Text} {body : List Stmt} {m : Machine}

def Raises (host : Host) (M N : Moment) (e : RuntimeError) : Prop :=
  next host M = some N ∧ N.task = .halt (.failed e) ∧ M.task ≠ .halt (.failed e)

def Shows (h : Heap) (calls : List Frame) (trace : List String) : Prop :=
  (calls.length ≤ 10 → trace = calls.map (Machine.showFrame h)) ∧
    (10 < calls.length → trace = (calls.take 10).map (Machine.showFrame h) ++
      ["… " ++ toString (calls.length - 10) ++ " more"])

theorem traceShows (m : Machine) : Shows m.heap m.frames m.trace := by
  refine ⟨fun few => ?_,fun many => ?_⟩
  · have none : m.frames.length - Machine.traceLength = 0 := Nat.sub_eq_zero_of_le few
    simp only [Machine.trace,none,if_true]
    exact congrArg _ (List.take_of_length_le few)
  · have some : m.frames.length - Machine.traceLength ≠ 0 := Nat.sub_ne_zero_of_lt many
    rw [Machine.trace]
    simp only [if_neg some]
    rfl

theorem raisedTrace {e} (raises : Raises host M N e) : e.trace = N.machine.trace := by
  obtain ⟨step,failed,new⟩ := raises
  cases nextPasses step with
  | acts dropped more rest _ _ _ _ _ raised =>
    rcases raised e failed with old | shown
    · exact absurd (old.trans failed) new
    · exact shown
  | enters site f args _ _ same =>
    rw [same] at failed
    contradiction
  | leaves site args caller task rest _ same kept =>
    unfold back at same
    split at same
    · rw [same] at failed
      exact absurd ((kept e failed).trans failed) new
    · rw [same] at failed
      cases failed

theorem raisedBefore {e} (reaches : Reaches host M N) (failed : N.task = .halt (.failed e))
    (other : M.task ≠ .halt (.failed e)) : ∃ A B, Reaches host M A ∧ Raises host A B e := by
  induction reaches with
  | refl => exact absurd failed other
  | @tail A B before step ih =>
    by_cases already : A.task = .halt (.failed e)
    · exact ih already
    · exact ⟨A,B,before,step,failed,already⟩

def Few (host : Host) (M : Moment) : Prop := M.machine.frames.length ≤ host.maxDepth

theorem fewStep (passes : Passes host M N) (few : Few host M) : Few host N := by
  unfold Few at few ⊢
  cases passes with
  | acts dropped more rest _ _ _ _ stays => rwa [stays.frames]
  | enters site f args _ fewer same =>
    rw [same,enterFrames]
    exact fewer
  | leaves site args caller task rest _ same =>
    rw [same,back]
    split
    · rename_i frames there
      rw [there] at few
      exact Nat.le_of_succ_le few
    · exact few

theorem refused {site f args} (few : Few host M) (task : M.task = .call site f args) :
    (∃ N e, Raises host M N e ∧ e.fault.code = "STATE-0003") ↔ M.machine.frames.length = host.maxDepth := by
  have calls : next host M = if host.maxDepth ≤ M.machine.frames.length then
      some (M.act (raiseAt site.source site.span.start (.tooDeep host.maxDepth site.name)) M.waiting)
    else some ⟨f.source,.stmts f.body.body,.leave site args M.machine.scope :: M.waiting,
      M.machine.enter site f.params args⟩ := by
    rw [next,task]
  have other (e : RuntimeError) : M.task ≠ .halt (.failed e) := by
    rw [task]
    intro same
    cases same
  refine ⟨?_,fun full => ?_⟩
  · rintro ⟨N,e,⟨step,failed,_⟩,_⟩
    rw [calls] at step
    split at step
    · rename_i full
      exact Nat.le_antisymm few full
    · cases step
      contradiction
  · rw [if_pos (Nat.le_of_eq full.symm)] at calls
    exact ⟨_,_,⟨calls,rfl,other _⟩,rfl⟩

end Moment

open Moment

def Context.on (host : Host) (source : Text) (m : Machine) : Context :=
  ⟨host,source,Terakoya.invoke host (host.maxDepth - m.frames.length)⟩

theorem callsAreBalancedAndBounded (host : Host) (source : Text) (m : Machine) :
    (∀ e, (final ((Context.on host source m).expr e m)).frames = m.frames) ∧
    (∀ s, (final ((Context.on host source m).stmt s m)).frames = m.frames) ∧
    (∀ b, (final ((Context.on host source m).block b m)).frames = m.frames) ∧
    (∀ body, (final ((Context.on host source m).program body m)).frames = m.frames) ∧
    (m.frames = [] → ∀ body,
      (∀ M, Reaches host (start source body m) M →
        M.machine.frames = active M.waiting ∧ M.machine.frames.length ≤ host.maxDepth ∧
        (∀ site f args, M.task = .call site f args →
          ((∃ N e, Raises host M N e ∧ e.fault.code = "STATE-0003") ↔ M.machine.frames.length = host.maxDepth)) ∧
        ∀ N e, Raises host M N e → Shows N.machine.heap (active N.waiting) e.trace) ∧
      ∀ r, (Context.top host source).program body m = r → Finished r →
        Reaches host (start source body m) (ended source [] (fun _ => .done) r) ∧
        ∀ e n, r = .error (.failed e) n → ∃ M N, Reaches host (start source body m) M ∧ Raises host M N e) := by
  have calls := tracksCalls host (host.maxDepth - m.frames.length)
  have room : Room host (host.maxDepth - m.frames.length) m := rfl
  have framesOf {α : Type} {task : Task} {give : α → Task} {x : Nat → Run α}
      (tracks : Tracks host ⟨source,task,[],m⟩ [] give x) : (final (x host.horizon m)).frames = m.frames :=
    tracks.frames host.horizon
  refine ⟨fun e => framesOf (tracksExpr calls e room),fun s => framesOf (tracksStmt calls s room),
    fun b => framesOf (tracksBlock calls b room),fun body => framesOf (tracksProgram calls body room),fun fresh body => ?_⟩
  have here {M : Moment} (reaches : Reaches host (start source body m) M) : M.machine.frames = active M.waiting := by
    have balanced := heldAlong balancedStep (show IsBalanced [] (start source body m) from fresh) reaches
    rwa [IsBalanced,List.append_nil] at balanced
  have few {M : Moment} (reaches : Reaches host (start source body m) M) : Few host M :=
    heldAlong fewStep (show (start source body m).machine.frames.length ≤ host.maxDepth by
      rw [show (start source body m).machine.frames = [] from fresh]; exact Nat.zero_le _) reaches
  refine ⟨fun M reaches => ⟨here reaches,few reaches,fun site f args task => refused (few reaches) task,
    fun N e raises => ?_⟩,fun r evaluated finished => ?_⟩
  · rw [raisedTrace raises,← here (reaches.tail raises.1)]
    exact traceShows N.machine
  · subst evaluated
    have reaches := (tracksRun host source body fresh).reaches host.horizon finished
    refine ⟨reaches,fun e n failed => raisedBefore reaches ?_ nofun⟩
    exact congrArg (fun r => (ended source [] (fun _ => .done) r).task) failed

def endlessCall : List Stmt :=
  [.assign ⟨0,9⟩ (.mk ⟨0,1⟩ "f" []) (.fn ⟨2,9⟩ [] (.mk ⟨3,9⟩ [.answer ⟨4,8⟩ (.call ⟨4,6⟩ "f" [])])),
    .observe ⟨10,13⟩ (.call ⟨10,13⟩ "f" [])]

def endsRefused (lines : Nat) : EStateM.Result Halt Machine Unit → Bool
  | .error (.failed e) _ => e.fault.code == "STATE-0003" && e.trace.length == lines
  | _ => false

theorem endsRefusedCases {lines r} (refused : endsRefused lines r = true) :
    ∃ e n, r = .error (.failed e) n ∧ e.fault.code = "STATE-0003" ∧ e.trace.length = lines := by
  unfold endsRefused at refused
  split at refused
  · rename_i e n
    rw [Bool.and_eq_true,beq_iff_eq,beq_iff_eq] at refused
    exact ⟨e,n,rfl,refused⟩
  · cases refused

theorem endlessCallIsRefused :
    ∃ e n, (Context.top { maxDepth := 12 } []).program endlessCall .empty = .error (.failed e) n ∧
      e.fault.code = "STATE-0003" ∧ e.trace.length = 11 ∧ n.frames = [] ∧
      ∃ M N, Reaches { maxDepth := 12 } (start [] endlessCall .empty) M ∧ Raises { maxDepth := 12 } M N e ∧
        Shows N.machine.heap (active N.waiting) e.trace := by
  obtain ⟨_,_,_,frames,runs⟩ := callsAreBalancedAndBounded { maxDepth := 12 } [] .empty
  obtain ⟨moments,ends⟩ := runs rfl endlessCall
  have refusal : endsRefused 11 ((Context.top { maxDepth := 12 } []).program endlessCall .empty) = true := by
    decide +kernel
  obtain ⟨e,n,run,code,lines⟩ := endsRefusedCases refusal
  obtain ⟨M,N,reaches,raises⟩ := (ends _ run trivial).2 e n rfl
  exact ⟨e,n,run,code,lines,congrArg (fun r => (final r).frames) run ▸ frames endlessCall,M,N,reaches,raises,
    (moments M reaches).2.2.2 N e raises⟩

end Terakoya
