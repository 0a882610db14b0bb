import Terakoya.Proofs.Agreement

/-! When a run ends. Calls are bounded and counted loops too, so that only a loop without a count can go on
for ever, and only as long as its check passes. The check ends all loops once a run is stopped, and once its
time is over. -/
namespace Terakoya

open Run

namespace Moment

variable {host : Host} {M N : Moment} {source : Text} {body : List Stmt} {m : Machine}

theorem overStays (last : next host M = none) (reaches : Reaches host M N) : N = M := by
  rcases Relation.ReflTransGen.cases_head reaches with same | ⟨L,step,_⟩
  · exact same.symm
  · exact nomatch last.symm.trans step

theorem laterCases {L} (step : next host M = some N) (reaches : Reaches host M L) : L = M ∨ Reaches host N L := by
  rcases Relation.ReflTransGen.cases_head reaches with same | ⟨N',step',later⟩
  · exact .inl same.symm
  · cases Option.some.inj (step.symm.trans step')
    exact .inr later

theorem endsOnce {F G} (reaches : Reaches host M F) (last : next host F = none)
    (reaches' : Reaches host M G) (last' : next host G = none) : F = G := by
  have unique : Relator.RightUnique fun M N => next host M = some N := fun _ _ _ first second =>
    Option.some.inj (first.symm.trans second)
  rcases Relation.ReflTransGen.total_of_right_unique unique reaches reaches' with later | later
  · exact (overStays last later).symm
  · exact overStays last' later

structure Ends (host : Host) (source : Text) (body : List Stmt) (m : Machine)
    (r : EStateM.Result Halt Machine Unit) : Prop where
  finished : Finished r
  evaluated : ∃ h, ∀ h', h ≤ h' → (Context.top (host.upTo h') source).program body m = r
  reached : Reaches host (start source body m) (ended source [] (fun _ => .done) r)

theorem endedIsOver (r : EStateM.Result Halt Machine Unit) : next host (ended source [] (fun _ => .done) r) = none := by
  cases r <;> rfl

theorem tracksRun (host : Host) (source : Text) (body : List Stmt) (fresh : m.frames = []) :
    Tracks host (start source body m) [] (fun _ => .done) fun h => (Context.top (host.upTo h) source).program body :=
  tracksProgram (tracksCalls host host.maxDepth) body (by rw [Room,fresh]; rfl)

theorem endsExpiring (fresh : m.frames = []) (expire : LoopsExpire host (start source body m)) :
    ∃ r, Ends host source body m r := by
  have tracks := tracksRun host source body fresh
  obtain ⟨h,finished⟩ := tracks.ends expire
  exact ⟨_,finished,⟨h,fun h' le => tracks.settled h h' le finished⟩,tracks.reaches h finished⟩

/-! ## Loops without a count -/

theorem unboundedCounted {text loop waiting n}
    (unbounded : loop.count = none) (reaches : Reaches host (start source body m) ⟨text,.round loop 0,waiting,n⟩) :
    ∃ text' span block waiting' n',
      Reaches host (start source body m) ⟨text',.value .null,.count span block :: waiting',n'⟩ := by
  rcases Relation.ReflTransGen.cases_tail reaches with same | ⟨P,before,step⟩
  · cases same
  · obtain ⟨text',task,waiting',n'⟩ := P
    cases nextPasses step with
    | acts dropped more rest _ _ _ _ _ _ begun =>
      rcases begun loop 0 rfl with ⟨d,more,_⟩ | ⟨_,empty⟩
      · contradiction
      · obtain ⟨rfl,span,block,rfl⟩ := empty unbounded
        exact ⟨text',span,block,rest,n',before⟩
    | enters site f args _ _ same => cases same
    | leaves site args caller task rest _ same _ other =>
      unfold back at same
      split at same
      · cases same
        exact absurd rfl (other loop 0)
      · cases same

/-! ## A run that is stopped -/

def IsStopped (host : Host) (m : Machine) : Prop := m.stopped = true ∨ host.cancelled = true

theorem checkStopped {offset} (stopped : IsStopped host m) : check host source offset m =
    .error (.failed { fault := .stopped, location := Location.ofOffset source offset, trace := m.trace }) m := by
  have flag : (m.stopped || host.cancelled) = true := (Bool.or_eq_true _ _).mpr stopped
  rw [check,if_pos flag]
  rfl

theorem backKeeps (M : Moment) (text : Text) (caller : Environment) (task : Task) (rest : List Wait) :
    (M.back text caller task rest).machine.stopped = M.machine.stopped ∧
      (M.back text caller task rest).machine.looks = M.machine.looks ∧
      (M.back text caller task rest).waiting = rest ∧
      ∀ loop done, (M.back text caller task rest).task = .round loop done → task = .round loop done := by
  unfold back
  split
  · exact ⟨rfl,rfl,rfl,fun _ _ => id⟩
  · exact ⟨rfl,rfl,rfl,fun _ _ same => nomatch same⟩

theorem stoppedStep (passes : Passes host M N) (stopped : IsStopped host M.machine) : IsStopped host N.machine := by
  refine stopped.imp_left fun stopped => ?_
  cases passes with
  | acts dropped more rest before after calls _ stays => exact stays.stopped stopped
  | enters site f args _ _ same =>
    rw [same]
    exact (bindingStays _ _).stopped stopped
  | leaves site args caller task rest before same =>
    rw [same,(backKeeps _ _ _ _ _).1]
    exact stopped

theorem roundlessStep (passes : Passes host M N)
    (roundless : IsStopped host M.machine ∧ ∀ w ∈ M.waiting, w.isRound = false) :
    IsStopped host N.machine ∧ ∀ w ∈ N.waiting, w.isRound = false := by
  refine ⟨stoppedStep passes roundless.1,fun w inside => ?_⟩
  cases passes with
  | acts dropped more rest before after _ rounds =>
    rw [after,List.mem_append] at inside
    rcases inside with new | old
    · by_contra heavy
      obtain ⟨loop,done,_,_,passed⟩ := rounds w new (by simpa using heavy)
      rw [checkStopped roundless.1] at passed
      contradiction
    · exact roundless.2 w (by rw [before]; exact List.mem_append_right _ old)
  | enters site f args _ _ same =>
    rw [same] at inside
    rcases List.mem_cons.mp inside with rfl | old
    · rfl
    · exact roundless.2 w old
  | leaves site args caller task rest before same =>
    rw [same,(backKeeps _ _ _ _ _).2.2.1] at inside
    exact roundless.2 w (by rw [before]; exact List.mem_cons_of_mem _ inside)

theorem stoppedExpire (stopped : IsStopped host M.machine) : LoopsExpire host M := by
  intro text loop waiting n _ reaches
  refine ⟨0,fun n' later => ?_⟩
  have still : IsStopped host n' := heldAlong stoppedStep stopped (reaches.trans later)
  exact ⟨_,_,checkStopped still⟩

theorem unwinds {base text halt waiting n} (balanced : IsBalanced base ⟨text,.halt halt,waiting,n⟩) :
    ∃ text' n', Reaches host ⟨text,.halt halt,waiting,n⟩ ⟨text',.halt halt,[],n'⟩ := by
  induction waiting generalizing text n with
  | nil => exact ⟨text,n,.refl⟩
  | cons w rest ih =>
    cases w with
    | leave site args caller =>
      have step : next host ⟨text,.halt halt,.leave site args caller :: rest,n⟩ =
          some ⟨site.source,.halt halt,rest,n.exit caller (active rest ++ base)⟩ :=
        congrArg some (backBalanced rfl balanced)
      have below : IsBalanced base ⟨site.source,.halt halt,rest,n.exit caller (active rest ++ base)⟩ := rfl
      obtain ⟨text',n',later⟩ := ih below
      exact ⟨text',n',reachesFrom step later⟩
    | _ =>
      obtain ⟨text',n',later⟩ := ih (show IsBalanced base ⟨text,.halt halt,rest,n⟩ from balanced)
      exact ⟨text',n',reachesFrom rfl later⟩

theorem stoppedLoopEnds {r} (fresh : m.frames = []) (stopped : IsStopped host m)
    (ends : Ends host source body m r) {text loop waiting n}
    (reaches : Reaches host (start source body m) ⟨text,.round loop 0,waiting,n⟩) (someRound : loop.count ≠ some 0) :
    ∃ e n', r = .error (.failed e) n' ∧ e.fault = .stopped ∧ e.location = Location.ofOffset text loop.span.start := by
  have going : loop.isOver 0 = false := by
    unfold Loop.isOver
    split
    · rename_i k count
      have positive : k ≠ 0 := fun zero => someRound (zero ▸ count)
      simpa using positive
    · rfl
  have still : IsStopped host n := heldAlong stoppedStep stopped reaches
  have step : next host ⟨text,.round loop 0,waiting,n⟩ = some ⟨text,.halt (.failed
      { fault := .stopped, location := Location.ofOffset text loop.span.start, trace := n.trace }),waiting,n⟩ := by
    simp only [next,act,Task.begin,going,context]
    rw [if_neg Bool.false_ne_true,bindError (checkStopped still)]
  have there := reaches.tail step
  have balanced := heldAlong balancedStep (show IsBalanced [] (start source body m) from fresh) there
  obtain ⟨text',n',falls⟩ := unwinds balanced
  have same := endsOnce ends.reached (endedIsOver r) (there.trans falls) rfl
  cases r with
  | ok u k => cases same
  | error halt k =>
    cases same
    exact ⟨_,_,rfl,rfl,rfl⟩

/-! ## A run with a time limit -/

def Clocked (M : Moment) : Prop :=
  (∀ loop done, M.task = .round loop done → done ≤ M.machine.looks) ∧
    ∀ loop done, Wait.round loop done ∈ M.waiting → done < M.machine.looks

theorem checkLooks {offset n} (passed : check host source offset m = .ok () n) : n.looks = m.looks + 1 := by
  unfold check at passed
  split at passed
  · contradiction
  · split at passed
    · contradiction
    · cases passed
      rfl

theorem clockedStep (passes : Passes host M N) (clocked : Clocked M) : Clocked N := by
  cases passes with
  | acts dropped more rest before after _ rounds stays _ begun =>
    refine ⟨fun loop done task => ?_,fun loop done inside => ?_⟩
    · rcases begun loop done task with ⟨d,rfl,inside⟩ | ⟨rfl,_⟩
      · exact Nat.le_trans (clocked.2 loop d inside) stays.looks
      · exact Nat.zero_le _
    · rw [after,List.mem_append] at inside
      rcases inside with new | old
      · obtain ⟨loop',done',same,task,passed⟩ := rounds _ new rfl
        cases same
        rw [checkLooks passed]
        exact Nat.lt_succ_of_le (clocked.1 loop done task)
      · exact Nat.lt_of_lt_of_le (clocked.2 loop done (by rw [before]; exact List.mem_append_right _ old)) stays.looks
  | enters site f args _ _ same =>
    rw [same]
    refine ⟨nofun,fun loop done inside => ?_⟩
    rcases List.mem_cons.mp inside with other | old
    · cases other
    · exact Nat.lt_of_lt_of_le (clocked.2 loop done old) (bindingStays _ M.machine.lend).looks
  | leaves site args caller task rest before same _ other =>
    obtain ⟨_,looks,waiting,task'⟩ := backKeeps M site.source caller task rest
    rw [same,Clocked,looks,waiting]
    exact ⟨fun loop done round => absurd (task' loop done round) (other loop done),fun loop done inside =>
      clocked.2 loop done (by rw [before]; exact List.mem_cons_of_mem _ inside)⟩

theorem checkLate {offset} (limited : 0 < host.budget) (late : host.budget < host.clock m.looks) :
    ∃ e n, check host source offset m = .error (.failed e) n := by
  unfold check
  split
  · exact ⟨_,_,rfl⟩
  · rw [if_pos ⟨limited,late⟩]
    exact ⟨_,_,rfl⟩

theorem lateExpire {k} (limited : 0 < host.budget) (late : ∀ looks, k ≤ looks → host.budget < host.clock looks) :
    LoopsExpire host (start source body m) := by
  intro text loop waiting n _ reaches
  refine ⟨k,fun n' later => ?_⟩
  have first : Clocked (start source body m) := ⟨nofun,nofun⟩
  have clocked := heldAlong clockedStep first (reaches.trans later)
  exact checkLate limited (late n'.looks (clocked.1 loop k rfl))

theorem timeLimitEndsRuns (host : Host) (source : Text) (body : List Stmt) (m : Machine) (fresh : m.frames = [])
    (limited : 0 < host.budget) (late : ∃ k, ∀ looks, k ≤ looks → host.budget < host.clock looks) :
    ∃ r, Ends host source body m r := by
  obtain ⟨k,late⟩ := late
  exact endsExpiring fresh (lateExpire limited late)

end Moment

open Moment

theorem onlyUncountedLoopsRunOn (host : Host) (source : Text) (body : List Stmt) (m : Machine)
    (fresh : m.frames = []) :
    (LoopsExpire host (start source body m) → ∃ r, Ends host source body m r) ∧
    ((∀ text span block waiting n,
      ¬Reaches host (start source body m) ⟨text,.value .null,.count span block :: waiting,n⟩) →
      ∃ r, Ends host source body m r) ∧
    (m.stopped = true ∨ host.cancelled = true → ∃ r, Ends host source body m r ∧
      (∀ M, Reaches host (start source body m) M → ∀ w ∈ M.waiting, w.isRound = false) ∧
      ∀ text loop waiting n, Reaches host (start source body m) ⟨text,.round loop 0,waiting,n⟩ →
        loop.count ≠ some 0 → ∃ e n', r = .error (.failed e) n' ∧ e.fault.code = "STOP-0001" ∧
          e.location = Location.ofOffset text loop.span.start) := by
  refine ⟨endsExpiring fresh,fun counted => endsExpiring fresh ?_,fun stopped => ?_⟩
  · intro text loop waiting n unbounded reaches
    obtain ⟨text',span,block,waiting',n',there⟩ := unboundedCounted unbounded reaches
    exact absurd there (counted text' span block waiting' n')
  · have first : IsStopped host (start source body m).machine ∧
        ∀ w ∈ (start source body m).waiting, w.isRound = false :=
      ⟨stopped,fun _ inside => nomatch inside⟩
    obtain ⟨r,ends⟩ := endsExpiring fresh (stoppedExpire first.1)
    refine ⟨r,ends,fun M reaches => (heldAlong roundlessStep first reaches).2,?_⟩
    intro text loop waiting n reaches someRound
    obtain ⟨e,n',failed,fault,location⟩ := stoppedLoopEnds fresh stopped ends reaches someRound
    exact ⟨e,n',failed,by rw [fault]; rfl,location⟩

def idleLoop (count : Expr) : List Stmt := [.loop ⟨0,5⟩ count (.mk ⟨3,5⟩ [])]

theorem idleLoopsEnd :
    (∃ r, Ends { budget := 1000 } [] (idleLoop (.null ⟨0,1⟩)) .empty r) ∧
    (∃ r, Ends {} [] (idleLoop (.int ⟨0,1⟩ 1)) .empty r) ∧
    ∃ e n, Ends { cancelled := true } [] (idleLoop (.null ⟨0,1⟩)) .empty (.error (.failed e) n) ∧
      e.fault.code = "STOP-0001" := by
  refine ⟨?_,?_,?_⟩
  · have late (looks : Nat) (more : 10 ≤ looks) : (1000 : Int) < ((100 * (looks + 1) : Nat) : Int) := by omega
    exact (onlyUncountedLoopsRunOn { budget := 1000 } [] (idleLoop (.null ⟨0,1⟩)) .empty rfl).1
      (lateExpire (by decide) late)
  · refine (onlyUncountedLoopsRunOn {} [] (idleLoop (.int ⟨0,1⟩ 1)) .empty rfl).2.1 ?_
    intro text span block waiting n reaches
    iterate 10
      rcases laterCases rfl reaches with same | reaches
      · cases same
    cases overStays rfl reaches
  · obtain ⟨r,ends,_,first⟩ :=
      (onlyUncountedLoopsRunOn { cancelled := true } [] (idleLoop (.null ⟨0,1⟩)) .empty rfl).2.2 (.inr rfl)
    have reaches : Reaches { cancelled := true } (start [] (idleLoop (.null ⟨0,1⟩)) .empty)
        ⟨[],.round ⟨⟨0,5⟩,.mk ⟨3,5⟩ [],none⟩ 0,[.program []],.empty⟩ :=
      reachesFrom rfl (reachesFrom rfl (reachesFrom rfl (reachesFrom rfl .refl)))
    obtain ⟨e,n,rfl,code,_⟩ := first _ _ _ _ reaches nofun
    exact ⟨e,n,ends,code⟩

end Terakoya
