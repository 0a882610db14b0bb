import Terakoya.Proofs.Moments

/-! Evaluation agrees with its moments. Evaluation follows a loop without a count for so many rounds at
most. If that is enough, more rounds change nothing, and the moments come to the same end. If every such loop
fails its check at some round, some number of rounds is enough. -/
namespace Terakoya

open Run

variable {α β : Type}

def Host.upTo (host : Host) (horizon : Nat) : Host := { host with horizon }

namespace Run

variable {m n : Machine}

theorem bindOk {x} {f : α → Run β} {a} (result : x m = .ok a n) : (x >>= f) m = f a n := by
  simp only [bind,EStateM.bind,result]

theorem bindError {x} {f : α → Run β} {halt} (result : x m = .error halt n) : (x >>= f) m = .error halt n := by
  simp only [bind,EStateM.bind,result]

theorem finishedError {halt} (other : halt ≠ .unfinished) : Finished (.error halt n : EStateM.Result Halt Machine α) := by
  cases halt with
  | failed e => trivial
  | stuck => trivial
  | unfinished => exact absurd rfl other

theorem otherHalt {halt} (finished : Finished (.error halt n : EStateM.Result Halt Machine α)) : halt ≠ .unfinished := by
  rintro rfl
  exact finished

theorem finishedFirst {x} {f : α → Run β} (finished : Finished ((x >>= f) m)) : Finished (x m) := by
  cases result : x m with
  | ok a n => trivial
  | error halt n =>
    rw [bindError result] at finished
    exact finishedError (otherHalt finished)

def Settled (x : Nat → Run α) (m : Machine) : Prop :=
  ∀ h h', h ≤ h' → Finished (x h m) → x h' m = x h m

theorem settledBind {x : Nat → Run α} {f : Nat → α → Run β} (first : Settled x m)
    (next : ∀ h a n, x h m = .ok a n → Settled (fun h => f h a) n) : Settled (fun h => x h >>= f h) m := by
  intro h h' le finished
  have same := first h h' le (finishedFirst finished)
  cases result : x h m with
  | ok a n =>
    dsimp only at finished ⊢
    rw [bindOk result] at finished
    rw [bindOk result,bindOk (same.trans result)]
    exact next h a n result h h' le finished
  | error halt n =>
    dsimp only
    rw [bindError result,bindError (same.trans result)]

end Run

namespace Moment

variable {host : Host} {M N : Moment} {source : Text} {task : Task} {waiting : List Wait} {m : Machine}
  {give : α → Task} {give' : β → Task} {depth : Nat}

theorem reachesFrom {L} (step : next host M = some N) (later : Reaches host N L) : Reaches host M L :=
  .head step later

def ended (source : Text) (waiting : List Wait) (give : α → Task) : EStateM.Result Halt Machine α → Moment
  | .ok a n => ⟨source,give a,waiting,n⟩
  | .error halt n => ⟨source,.halt halt,waiting,n⟩

def Expires (host : Host) (source : Text) (loop : Loop) (waiting : List Wait) (m : Machine) : Prop :=
  ∃ k, ∀ n, Reaches host ⟨source,.round loop 0,waiting,m⟩ ⟨source,.round loop k,waiting,n⟩ →
    ∃ e n', check host source loop.span.start n = .error (.failed e) n'

def LoopsExpire (host : Host) (M : Moment) : Prop :=
  ∀ source loop waiting m, loop.count = none → Reaches host M ⟨source,.round loop 0,waiting,m⟩ →
    Expires host source loop waiting m

theorem loopsExpireLater (expire : LoopsExpire host M) (reaches : Reaches host M N) : LoopsExpire host N :=
  fun source loop waiting m unbounded later => expire source loop waiting m unbounded (reaches.trans later)

/-- From a moment on, a run does what is evaluated, and comes back to what waits with the result. However
evaluation ends, the active calls are those of the beginning. -/
structure Tracks (host : Host) (M : Moment) (waiting : List Wait) (give : α → Task) (x : Nat → Run α) : Prop where
  reaches : ∀ h, Finished (x h M.machine) → Reaches host M (ended M.source waiting give (x h M.machine))
  settled : Settled x M.machine
  ends : LoopsExpire host M → ∃ h, Finished (x h M.machine)
  frames : ∀ h, (final (x h M.machine)).frames = M.machine.frames

theorem tracksPure (give : α → Task) (a : α) : Tracks host ⟨source,give a,waiting,m⟩ waiting give fun _ => pure a where
  reaches _ _ := .refl
  settled _ _ _ _ := rfl
  ends _ := ⟨0,trivial⟩
  frames _ := rfl

theorem tracksStep {t between} {x : Nat → Run α}
    (step : next host ⟨source,task,between,m⟩ = some ⟨source,t,waiting,m⟩) {rest}
    (tracks : Tracks host ⟨source,t,waiting,m⟩ rest give x) : Tracks host ⟨source,task,between,m⟩ rest give x where
  reaches h finished := (tracks.reaches h finished).head step
  settled := tracks.settled
  ends expire := tracks.ends (loopsExpireLater expire (.single step))
  frames := tracks.frames

theorem tracksHalt {n halt} {x : Nat → Run α} {between}
    (step : next host ⟨source,task,between,m⟩ = some ⟨source,.halt halt,waiting,n⟩) (other : halt ≠ .unfinished)
    (frames : n.frames = m.frames) (same : ∀ h, x h m = .error halt n) : Tracks host ⟨source,task,between,m⟩ waiting give x where
  reaches h _ := by
    dsimp only
    rw [same h]
    exact .single step
  settled h h' _ _ := (same h').trans (same h).symm
  ends _ := by
    refine ⟨0,?_⟩
    dsimp only
    rw [same 0]
    exact finishedError other
  frames h := by
    dsimp only
    rw [same h]
    exact frames

theorem reachesThere {x : Nat → Run α} {h a n}
    (tracks : Tracks host ⟨source,task,waiting,m⟩ waiting give x) (result : x h m = .ok a n) :
    Reaches host ⟨source,task,waiting,m⟩ ⟨source,give a,waiting,n⟩ := by
  have reaches := tracks.reaches h (by dsimp only; rw [result]; trivial)
  dsimp only at reaches
  rwa [result] at reaches

theorem reachesHalt {x : Nat → Run α} {h halt n}
    (tracks : Tracks host ⟨source,task,waiting,m⟩ waiting give x) (result : x h m = .error halt n)
    (other : halt ≠ .unfinished) : Reaches host ⟨source,task,waiting,m⟩ ⟨source,.halt halt,waiting,n⟩ := by
  have reaches := tracks.reaches h (by dsimp only; rw [result]; exact finishedError other)
  dsimp only at reaches
  rwa [result] at reaches

theorem framesThere {x : Nat → Run α} {h a n}
    (tracks : Tracks host ⟨source,task,waiting,m⟩ waiting give x) (result : x h m = .ok a n) : n.frames = m.frames := by
  have frames := tracks.frames h
  dsimp only at frames
  rwa [result] at frames

theorem tracksBind {between} {x : Nat → Run α} {f : Nat → α → Run β}
    (falls : ∀ halt n, Reaches host ⟨source,.halt halt,between,n⟩ ⟨source,.halt halt,waiting,n⟩)
    (first : Tracks host ⟨source,task,between,m⟩ between give x)
    (next : ∀ a n, n.frames = m.frames → Tracks host ⟨source,give a,between,n⟩ waiting give' fun h => f h a) :
    Tracks host ⟨source,task,between,m⟩ waiting give' fun h => x h >>= f h := by
  have later (h : Nat) (a : α) (n : Machine) (result : x h m = .ok a n) :
      Tracks host ⟨source,give a,between,n⟩ waiting give' fun h => f h a :=
    next a n (framesThere first result)
  have settled : Settled (fun h => x h >>= f h) m :=
    settledBind first.settled fun h a n result => (later h a n result).settled
  refine ⟨fun h finished => ?_,settled,fun expire => ?_,fun h => ?_⟩
  · dsimp only at finished ⊢
    cases result : x h m with
    | ok a n =>
      rw [bindOk result] at finished ⊢
      exact (reachesThere first result).trans ((later h a n result).reaches h finished)
    | error halt n =>
      rw [bindError result] at finished ⊢
      exact (reachesHalt first result (otherHalt finished)).trans (falls halt n)
  · obtain ⟨h,finished⟩ := first.ends expire
    cases result : x h m with
    | ok a n =>
      obtain ⟨h',finished'⟩ := (later h a n result).ends (loopsExpireLater expire (reachesThere first result))
      have same := first.settled h (max h h') (Nat.le_max_left h h') finished
      have same' := (later h a n result).settled h' (max h h') (Nat.le_max_right h h') finished'
      refine ⟨max h h',?_⟩
      dsimp only at same same' ⊢
      rwa [bindOk (same.trans result),same']
    | error halt n =>
      refine ⟨h,?_⟩
      dsimp only at finished ⊢
      rw [result] at finished
      rw [bindError result]
      exact finishedError (otherHalt finished)
  · have frames := first.frames h
    dsimp only at frames ⊢
    cases result : x h m with
    | ok a n =>
      rw [bindOk result]
      exact ((later h a n result).frames h).trans (framesThere first result)
    | error halt n =>
      rw [bindError result]
      rwa [result] at frames

def Follows (host : Host) (source : Text) (waiting : List Wait) (give : α → Task) (y : Run (Task × List Wait))
    (x : Nat → Run α) (m : Machine) : Prop :=
  match y m with
  | .ok (task,more) n => n.frames = m.frames ∧ ∃ x' : Nat → Run α, (∀ h, x h m = x' h n) ∧
      Tracks host ⟨source,task,more ++ waiting,n⟩ waiting give x'
  | .error halt n => n.frames = m.frames ∧ halt ≠ .unfinished ∧ ∀ h, x h m = .error halt n

theorem tracksAct {y} {x : Nat → Run α} {between}
    (step : next host ⟨source,task,between,m⟩ = some (act ⟨source,task,between,m⟩ y waiting))
    (follows : Follows host source waiting give y x m) : Tracks host ⟨source,task,between,m⟩ waiting give x := by
  unfold act at step
  unfold Follows at follows
  dsimp only at step
  cases result : y m with
  | ok r n =>
    rw [result] at step follows
    obtain ⟨frames,x',same,tracks⟩ := follows
    have step : next host ⟨source,task,between,m⟩ = some ⟨source,r.1,r.2 ++ waiting,n⟩ := step
    refine ⟨fun h finished => ?_,fun h h' le finished => ?_,fun expire => ?_,fun h => ?_⟩
    · dsimp only at finished ⊢
      rw [same] at finished ⊢
      exact (tracks.reaches h finished).head step
    · dsimp only at finished ⊢
      rw [same] at finished
      rw [same,same]
      exact tracks.settled h h' le finished
    · obtain ⟨h,finished⟩ := tracks.ends (loopsExpireLater expire (.single step))
      exact ⟨h,(same h).symm ▸ finished⟩
    · dsimp only
      rw [same]
      exact (tracks.frames h).trans frames
  | error halt n =>
    rw [result] at step follows
    exact tracksHalt step follows.2.1 follows.1 follows.2.2

theorem followsReturn {x : Nat → Run α} {more} (tracks : Tracks host ⟨source,task,more ++ waiting,m⟩ waiting give x) :
    Follows host source waiting give (pure (task,more)) x m := ⟨rfl,x,fun _ => rfl,tracks⟩

theorem followsRaise (offset : Nat) (fault : RuntimeFault) (text : Text) :
    Follows host source waiting give (raiseAt text offset fault) (fun _ => raiseAt text offset fault) m :=
  ⟨rfl,nofun,fun _ => rfl⟩

theorem followsRaiseWith (offset : Nat) (fault : Heap → RuntimeFault) (text : Text) :
    Follows host source waiting give (raiseWith text offset fault) (fun _ => raiseWith text offset fault) m :=
  ⟨rfl,nofun,fun _ => rfl⟩

theorem followsStuck : Follows host source waiting give stuck (fun _ => stuck) m := ⟨rfl,nofun,fun _ => rfl⟩

theorem followsBind {γ : Type} {post : γ → Prop} {z : Run γ} {zs : Nat → Run γ} {g : γ → Run (Task × List Wait)}
    {f : Nat → γ → Run α} (plain : IsPlain post z) (same : ∀ h, zs h = z)
    (next : ∀ b n, n.frames = m.frames → Follows host source waiting give (g b) (fun h => f h b) n) :
    Follows host source waiting give (z >>= g) (fun h => zs h >>= f h) m := by
  have ends := plain m
  unfold Follows
  cases result : z m with
  | ok b n =>
    rw [result] at ends
    have later := next b n ends.1.frames
    unfold Follows at later
    rw [bindOk result]
    cases led : g b n with
    | ok r k =>
      rw [led] at later
      obtain ⟨frames,x',same',tracks⟩ := later
      exact ⟨frames.trans ends.1.frames,x',fun h => (bindOk ((congrFun (same h) m).trans result)).trans (same' h),tracks⟩
    | error halt k =>
      rw [led] at later
      exact ⟨later.1.trans ends.1.frames,later.2.1,fun h =>
        (bindOk ((congrFun (same h) m).trans result)).trans (later.2.2 h)⟩
  | error halt n =>
    rw [bindError result]
    rw [result] at ends
    refine ⟨(endsStays ends).frames,?_,fun h => bindError ((congrFun (same h) m).trans result)⟩
    rintro rfl
    exact ends

theorem followsGive {post : α → Prop} {z : Run α} {zs : Nat → Run α} (plain : IsPlain post z) (same : ∀ h, zs h = z) :
    Follows host source waiting give (z >>= fun a => pure (give a,[])) zs m := by
  have all : zs = fun h => zs h >>= fun a => pure a := by
    funext h m
    cases result : zs h m with
    | ok a n => rw [bindOk result]; rfl
    | error halt n => rw [bindError result]
  rw [all]
  exact followsBind plain same fun a n _ => followsReturn (tracksPure give a)

/-! ## Tasks -/

def Room (host : Host) (depth : Nat) (m : Machine) : Prop := host.maxDepth - m.frames.length = depth

theorem roomLater {n} (room : Room host depth m) (same : n.frames = m.frames) : Room host depth n := by
  unfold Room
  rwa [same]

theorem haltPasses {w} (light : w.call? = none) (halt : Halt) (n : Machine) :
    Reaches host ⟨source,.halt halt,w :: waiting,n⟩ ⟨source,.halt halt,waiting,n⟩ := by
  refine .single ?_
  cases w with
  | leave site args caller => contradiction
  | _ => rfl

theorem tracksAfter {w} {x : Nat → Run α} {f : Nat → α → Run β} (light : w.call? = none)
    (room : Room host depth m) (first : Tracks host ⟨source,task,w :: waiting,m⟩ (w :: waiting) give x)
    (next : ∀ a n, Room host depth n →
      Tracks host ⟨source,give a,w :: waiting,n⟩ waiting give' fun h => f h a) :
    Tracks host ⟨source,task,w :: waiting,m⟩ waiting give' fun h => x h >>= f h :=
  tracksBind (haltPasses light) first fun a n same => next a n (roomLater room same)

def within (host : Host) (source : Text) (depth horizon : Nat) : Context :=
  ⟨host.upTo horizon,source,invoke (host.upTo horizon) depth⟩

def CallsTrack (host : Host) (depth : Nat) : Prop :=
  ∀ site f args waiting m, Room host depth m →
    Tracks host ⟨site.source,.call site f args,waiting,m⟩ waiting .value
      fun h => invoke (host.upTo h) depth site f args

/-! Loops -/

def once (check : Run Unit) (body : Run Flow) : Run (Option Flow) := do
  check
  match ← body with
  | .next => return none
  | .left _ => return some .next
  | .answered v span => return some (.answered v span)

theorem roundsOnce (check : Run Unit) (body after : Run Flow) (n : Nat) :
    rounds check body after (n + 1) = once check body >>= fun end? =>
      match end? with
      | none => rounds check body after n
      | some flow => pure flow := by
  funext m
  simp only [rounds,once,bind,EStateM.bind]
  cases check m with
  | error halt n => rfl
  | ok u n =>
    dsimp only
    cases body n with
    | error halt k => rfl
    | ok flow k => cases flow <;> rfl

def endless : Run Flow := fun m => .error .unfinished m

def afterRound (loop : Loop) (done : Nat) : Option Flow → Task
  | none => .round loop (done + 1)
  | some flow => .flow flow

section Loops

variable {loop : Loop} {body : Nat → Run Flow}

theorem tracksOnce (round : ∀ {waiting m}, Room host depth m →
      Tracks host ⟨source,.stmts loop.body.body,waiting,m⟩ waiting .flow body)
    {done} (going : loop.isOver done = false) (room : Room host depth m) :
    Tracks host ⟨source,.round loop done,waiting,m⟩ waiting (afterRound loop done)
      fun h => once (check host source loop.span.start) (body h) := by
  have begins : Task.begin (context host source) (.round loop done) =
      check host source loop.span.start >>= fun _ => pure (.stmts loop.body.body,[.round loop done]) := by
    simp only [Task.begin,going]
    rfl
  refine tracksAct (congrArg (fun y => some (act _ y waiting)) begins) ?_
  refine followsBind (simpleCheck host source _) (fun _ => rfl) fun _ n same => followsReturn ?_
  refine tracksAfter rfl (roomLater room same) (round (roomLater room same)) fun flow k _ => ?_
  cases flow with
  | next => exact tracksStep rfl (tracksPure (afterRound loop done) none)
  | left span => exact tracksStep rfl (tracksPure (afterRound loop done) (some .next))
  | answered v span => exact tracksStep rfl (tracksPure (afterRound loop done) (some (.answered v span)))

theorem tracksCounted (round : ∀ {waiting m}, Room host depth m →
      Tracks host ⟨source,.stmts loop.body.body,waiting,m⟩ waiting .flow body)
    {n done} (count : loop.count = some (done + n)) (room : Room host depth m) :
    Tracks host ⟨source,.round loop done,waiting,m⟩ waiting .flow
      fun h => rounds (check host source loop.span.start) (body h) (pure .next) n := by
  induction n generalizing done m with
  | zero =>
    have last : loop.isOver done = true := by simp [Loop.isOver,count]
    refine tracksStep ?_ (tracksPure Task.flow .next)
    simp only [next,act,Task.begin,last]
    rfl
  | succ n ih =>
    have going : loop.isOver done = false := by simp [Loop.isOver,count]
    simp only [roundsOnce]
    refine tracksBind (fun _ _ => .refl) (tracksOnce round going room) fun end? k same => ?_
    cases end? with
    | none => exact ih (by rw [count]; congr 1; omega) (roomLater room same)
    | some flow => exact tracksPure Task.flow flow

section Endless

variable {check : Run Unit}
  (one : ∀ {n : Machine} (done : Nat), Room host depth n →
    Tracks host ⟨source,.round loop done,waiting,n⟩ waiting (afterRound loop done) fun h => once check (body h))
include one

theorem roomAgain {h} {end? : Option Flow} {n} (room : Room host depth m)
    (result : once check (body h) m = .ok end? n) : Room host depth n :=
  roomLater room (framesThere (one 0 room) result)

theorem reachesEndless {h n done} (room : Room host depth m) (finished : Finished (rounds check (body h) endless n m)) :
    Reaches host ⟨source,.round loop done,waiting,m⟩
      (ended source waiting .flow (rounds check (body h) endless n m)) := by
  induction n generalizing done m with
  | zero => exact finished.elim
  | succ n ih =>
    rw [roundsOnce] at finished ⊢
    cases result : once check (body h) m with
    | ok end? k =>
      have reaches := reachesThere (one done room) result
      rw [bindOk result] at finished ⊢
      cases end? with
      | none => exact reaches.trans (ih (roomAgain one room result) finished)
      | some flow => exact reaches
    | error halt k =>
      rw [bindError result] at finished ⊢
      exact reachesHalt (one done room) result (otherHalt finished)

theorem framesEndless {h n} (room : Room host depth m) : (final (rounds check (body h) endless n m)).frames = m.frames := by
  induction n generalizing m with
  | zero => rfl
  | succ n ih =>
    have frames := (one 0 room).frames h
    dsimp only at frames
    rw [roundsOnce]
    cases result : once check (body h) m with
    | ok end? k =>
      rw [result] at frames
      rw [bindOk result]
      cases end? with
      | none => exact (ih (roomAgain one room result)).trans frames
      | some flow => exact frames
    | error halt k =>
      rw [bindError result]
      rwa [result] at frames

theorem settledEndless {h h' n n'} (room : Room host depth m) (more : n ≤ n') (le : h ≤ h')
    (finished : Finished (rounds check (body h) endless n m)) :
    rounds check (body h') endless n' m = rounds check (body h) endless n m := by
  induction n generalizing n' m with
  | zero => exact finished.elim
  | succ n ih =>
    obtain ⟨n',rfl⟩ : ∃ k, n' = k + 1 := ⟨n' - 1,by omega⟩
    rw [roundsOnce] at finished ⊢
    rw [roundsOnce]
    have same := (one 0 room).settled h h' le (finishedFirst finished)
    dsimp only at same
    cases result : once check (body h) m with
    | ok end? k =>
      rw [bindOk result] at finished
      rw [bindOk result,bindOk (same.trans result)]
      cases end? with
      | none => exact ih (roomAgain one room result) (Nat.le_of_succ_le_succ more) finished
      | some flow => rfl
    | error halt k => rw [bindError result,bindError (same.trans result)]

theorem endsEndless {left done} (room : Room host depth m) (expire : LoopsExpire host ⟨source,.round loop done,waiting,m⟩)
    (fails : ∀ n, Reaches host ⟨source,.round loop done,waiting,m⟩ ⟨source,.round loop (done + left),waiting,n⟩ →
      ∃ e n', check n = .error (.failed e) n') : ∃ h n, Finished (rounds check (body h) endless n m) := by
  induction left generalizing done m with
  | zero =>
    obtain ⟨e,n,failed⟩ := fails m .refl
    refine ⟨0,1,?_⟩
    rw [roundsOnce,bindError (show once check (body 0) m = .error (.failed e) n from bindError failed)]
    trivial
  | succ left ih =>
    obtain ⟨h,finished⟩ := (one done room).ends expire
    dsimp only at finished
    cases result : once check (body h) m with
    | ok end? k =>
      cases end? with
      | none =>
        have reaches := reachesThere (one done room) result
        have again := roomAgain one room result
        obtain ⟨h',n,finished'⟩ := ih again (loopsExpireLater expire reaches) fun n later =>
          fails n (by rw [show done + (left + 1) = done + 1 + left by omega]; exact reaches.trans later)
        have same := (one done room).settled h (max h h') (Nat.le_max_left h h') finished
        have same' := settledEndless one again (Nat.le_refl n) (Nat.le_max_right h h') finished'
        refine ⟨max h h',n + 1,?_⟩
        dsimp only at same
        rw [roundsOnce,bindOk (same.trans result)]
        dsimp only
        rwa [same']
      | some flow =>
        refine ⟨h,1,?_⟩
        rw [roundsOnce,bindOk result]
        trivial
    | error halt k =>
      rw [result] at finished
      refine ⟨h,1,?_⟩
      rw [roundsOnce,bindError result]
      exact finishedError (otherHalt finished)

end Endless

theorem tracksEndless (round : ∀ {waiting m}, Room host depth m →
      Tracks host ⟨source,.stmts loop.body.body,waiting,m⟩ waiting .flow body)
    (unbounded : loop.count = none) (room : Room host depth m) :
    Tracks host ⟨source,.round loop 0,waiting,m⟩ waiting .flow
      fun h => rounds (check host source loop.span.start) (body h) endless h := by
  have one {n : Machine} (done : Nat) (room : Room host depth n) :
      Tracks host ⟨source,.round loop done,waiting,n⟩ waiting (afterRound loop done)
        fun h => once (check host source loop.span.start) (body h) :=
    tracksOnce round (by simp [Loop.isOver,unbounded]) room
  refine ⟨fun h finished => reachesEndless one room finished,
    fun h h' le finished => settledEndless one room le le finished,fun expire => ?_,fun h => framesEndless one room⟩
  obtain ⟨k,fails⟩ := expire source loop waiting m unbounded .refl
  rw [← Nat.zero_add k] at fails
  obtain ⟨h,n,finished⟩ := endsEndless one room expire fails
  refine ⟨max h n,?_⟩
  have same := settledEndless one room (Nat.le_max_right h n) (Nat.le_max_left h n) finished
  exact same ▸ finished

end Loops

/-! Expressions -/

mutual

theorem tracksExpr (calls : CallsTrack host depth) (e : Expr) {waiting m} (room : Room host depth m) :
    Tracks host ⟨source,.expr e,waiting,m⟩ waiting .value fun h => (within host source depth h).expr e := by
  cases e with
  | int span n => exact tracksStep rfl (tracksPure Task.value (.int n))
  | null span => exact tracksStep rfl (tracksPure Task.value .null)
  | text span s index =>
    cases index with
    | none => exact tracksAct rfl (followsGive (simpleNewText s) fun _ => rfl)
    | some i =>
      refine tracksAct rfl ?_
      simp only [Task.begin,Context.expr]
      cases s.toList[i]? with
      | none => exact followsStuck
      | some c => exact followsReturn (tracksPure Task.value (.int c.toNat))
  | seq span items =>
    exact tracksStep rfl (tracksAfter rfl room (tracksExprs calls items room) fun vs n _ =>
      tracksAct rfl (followsGive (simpleNewList vs) fun _ => rfl))
  | var p =>
    exact tracksStep rfl (tracksAfter rfl room (tracksPlace calls false p room) fun slot n _ =>
      tracksAct rfl (followsGive (simpleRead slot) fun _ => rfl))
  | fn span params body => exact tracksAct rfl (followsGive (simpleNewFunction _) fun _ => rfl)
  | call span name args =>
    refine tracksAct rfl (followsBind (simpleLook _) (fun _ => rfl) fun found n same => ?_)
    have room := roomLater room same
    cases found with
    | none => exact followsBind (simpleLook _) (fun _ => rfl) fun _ _ _ => followsRaise _ _ _
    | some v =>
      cases v with
      | fn id =>
        refine followsBind (simpleFunctionAt id) (fun _ => rfl) fun f k same => ?_
        have room := roomLater room same
        dsimp only
        split
        · exact followsRaise _ _ _
        · exact followsReturn (tracksAfter rfl room (tracksExprs calls args room) fun vs k room =>
            tracksStep rfl (calls ⟨name,span,source⟩ f vs waiting k room))
      | int n => exact followsRaiseWith _ _ _
      | null => exact followsRaiseWith _ _ _
      | seq id => exact followsRaiseWith _ _ _
  | neg span e =>
    refine tracksStep rfl (tracksAfter rfl room (tracksExpr calls e room) fun v n _ => ?_)
    cases v with
    | int n => exact tracksStep rfl (tracksPure Task.value (.int (-n)))
    | null => exact tracksHalt rfl nofun rfl fun _ => rfl
    | seq id => exact tracksHalt rfl nofun rfl fun _ => rfl
    | fn id => exact tracksHalt rfl nofun rfl fun _ => rfl
  | len span e =>
    refine tracksStep rfl (tracksAfter rfl room (tracksExpr calls e room) fun v n _ => ?_)
    cases v with
    | seq id =>
      exact tracksAct rfl (followsBind (simpleLook _) (fun _ => rfl) fun n _ _ =>
        followsReturn (tracksPure Task.value (.int n)))
    | int n => exact tracksHalt rfl nofun rfl fun _ => rfl
    | null => exact tracksHalt rfl nofun rfl fun _ => rfl
    | fn id => exact tracksHalt rfl nofun rfl fun _ => rfl

theorem tracksExprs (calls : CallsTrack host depth) (es : List Expr) {waiting m} (room : Room host depth m) :
    Tracks host ⟨source,.exprs es,waiting,m⟩ waiting .values fun h => (within host source depth h).exprs es := by
  cases es with
  | nil => exact tracksStep rfl (tracksPure Task.values [])
  | cons e rest =>
    exact tracksStep rfl (tracksAfter rfl room (tracksExpr calls e room) fun v n room =>
      tracksStep rfl (tracksAfter rfl room (tracksExprs calls rest room) fun vs n _ =>
        tracksStep rfl (tracksPure Task.values (v :: vs))))

theorem tracksPlace (calls : CallsTrack host depth) (write : Bool) (p : Place) {waiting m} (room : Room host depth m) :
    Tracks host ⟨source,.place write p,waiting,m⟩ waiting .slot
      fun h => (within host source depth h).place write p := by
  cases p with
  | mk span name indices =>
    refine tracksAct rfl (followsBind (simpleLook _) (fun _ => rfl) fun found n same => ?_)
    cases found with
    | none => exact followsBind (simpleLook _) (fun _ => rfl) fun _ _ _ => followsRaise _ _ _
    | some v => exact followsReturn (tracksWalk calls write span (.name name) v indices (roomLater room same))

theorem tracksWalk (calls : CallsTrack host depth) (write : Bool) (span : Span) (slot : Slot) (v : Value)
    (indices : List Expr) {waiting m} (room : Room host depth m) :
    Tracks host ⟨source,.walk write span slot v indices,waiting,m⟩ waiting .slot
      fun h => (within host source depth h).walk write span slot v indices := by
  cases indices with
  | nil => exact tracksStep rfl (tracksPure Task.slot slot)
  | cons index rest =>
    cases v with
    | seq id =>
      refine tracksStep rfl (tracksAfter rfl room (tracksExpr calls index room) fun i n room => tracksAct rfl ?_)
      refine followsBind (Context.simpleIndexFor _ _ _ i) (fun _ => ?_) fun found k same => ?_
      · cases i <;> rfl
      cases found with
      | none => exact followsReturn (tracksPure Task.slot (.tail id))
      | some i =>
        dsimp only
        split
        · exact followsReturn (tracksPure Task.slot (.element id i))
        · exact followsBind (simpleElementAt id i) (fun _ => rfl) fun w _ same' =>
            followsReturn (tracksWalk calls write span (.element id i) w rest (roomLater (roomLater room same) same'))
    | int n => exact tracksHalt rfl nofun rfl fun _ => rfl
    | null => exact tracksHalt rfl nofun rfl fun _ => rfl
    | fn id => exact tracksHalt rfl nofun rfl fun _ => rfl

end

/-! Statements -/

theorem tracksGoesOn {y} {ys : Nat → Run Unit} {between : List Wait} (simple : Simple y)
    (same : ∀ h, ys h = y) (step : next host ⟨source,task,between,m⟩ =
      some (act ⟨source,task,between,m⟩ (y >>= fun _ => pure (.flow .next,[])) waiting)) :
    Tracks host ⟨source,task,between,m⟩ waiting .flow fun h => ys h >>= fun _ => pure .next :=
  tracksAct step (followsBind simple same fun _ _ _ => followsReturn (tracksPure Task.flow .next))

mutual

theorem tracksStmt (calls : CallsTrack host depth) (s : Stmt) {waiting} {m : Machine} (room : Room host depth m) :
    Tracks host ⟨source,.stmt s,waiting,m⟩ waiting .flow fun h => (within host source depth h).stmt s := by
  cases s with
  | assign span target e =>
    obtain ⟨position,name,indices⟩ := target
    refine tracksStep rfl (tracksAfter rfl room (tracksExpr calls e room) fun v n room => ?_)
    cases indices with
    | nil =>
      exact tracksAct rfl (followsBind (Context.simpleChristen name v) (fun _ => rfl) fun w _ _ =>
        followsBind (simpleWrite (.name name) w) (fun _ => rfl) fun _ _ _ =>
          followsReturn (tracksPure Task.flow .next))
    | cons index rest =>
      exact tracksStep rfl (tracksAfter rfl room (tracksPlace calls true _ room) fun slot n _ =>
        tracksGoesOn (simpleWrite slot v) (fun _ => rfl) rfl)
  | append span target e =>
    refine tracksStep rfl (tracksAfter rfl room (tracksPlace calls false target room) fun slot n room => ?_)
    refine tracksAct rfl (followsBind (simpleRead slot) (fun _ => rfl) fun v k same => ?_)
    have room := roomLater room same
    cases v with
    | seq id =>
      exact followsReturn (tracksAfter rfl room (tracksExpr calls e room) fun w n _ =>
        tracksGoesOn (simpleWrite (.tail id) w) (fun _ => rfl) rfl)
    | int n => exact followsRaiseWith _ _ _
    | null => exact followsRaiseWith _ _ _
    | fn id => exact followsRaiseWith _ _ _
  | increment span target =>
    refine tracksStep rfl (tracksAfter rfl room (tracksPlace calls false target room) fun slot n _ => tracksAct rfl ?_)
    exact followsBind (Context.simpleStep span _ _ slot) (fun _ => rfl) fun _ _ _ =>
      followsBind (simpleCount _) (fun _ => rfl) fun _ _ _ => followsReturn (tracksPure Task.flow .next)
  | decrement span target =>
    refine tracksStep rfl (tracksAfter rfl room (tracksPlace calls false target room) fun slot n _ => tracksAct rfl ?_)
    exact followsBind (Context.simpleStep span _ _ slot) (fun _ => rfl) fun _ _ _ =>
      followsBind (simpleCount _) (fun _ => rfl) fun _ _ _ => followsReturn (tracksPure Task.flow .next)
  | cond span left right cmp yes no =>
    have branch {other : Nat → Run Flow} (otherwise : ∀ {k : Machine}, Room host depth k →
        Follows host source waiting Task.flow (match no with
          | some b => pure (.stmts b.body,[])
          | none => pure (.flow .next,[])) other k) :
        Tracks host ⟨source,.stmt (.cond span left right cmp yes no),waiting,m⟩ waiting .flow fun h => (do
          let l ← (within host source depth h).expr left
          let r ← (within host source depth h).expr right
          let holds ← (within host source depth h).compare span cmp l r
          countComparison
          if holds then (within host source depth h).block yes else other h) := by
      refine tracksStep rfl (tracksAfter rfl room (tracksExpr calls left room) fun l n room =>
        tracksStep rfl (tracksAfter rfl room (tracksExpr calls right room) fun r n room => tracksAct rfl ?_))
      refine followsBind (Context.simpleCompare span cmp l r) (fun _ => rfl) fun holds k same =>
        followsBind (simpleCount _) (fun _ => rfl) fun _ k same' => ?_
      have room := roomLater (roomLater room same) same'
      cases holds with
      | true => exact followsReturn (tracksBlock calls yes room)
      | false => exact otherwise room
    cases no with
    | none => exact branch fun _ => followsReturn (tracksPure Task.flow .next)
    | some b => exact branch fun room => followsReturn (tracksBlock calls b room)
  | loop span count body =>
    refine tracksStep rfl (tracksAfter rfl room (tracksExpr calls count room) fun v n room => ?_)
    have round {waiting : List Wait} {m : Machine} (room : Room host depth m) :
        Tracks host ⟨source,.stmts body.body,waiting,m⟩ waiting .flow fun h => (within host source depth h).block body :=
      tracksBlock calls body room
    cases v with
    | null =>
      have endless : Tracks host ⟨source,.round ⟨span,body,none⟩ 0,waiting,n⟩ waiting .flow _ := tracksEndless round rfl room
      exact tracksStep rfl endless
    | int n =>
      by_cases negative : n < 0
      · refine tracksAct rfl ?_
        simp only [Wait.resume,if_pos negative]
        exact followsRaise _ _ _
      · refine tracksAct rfl ?_
        simp only [Wait.resume,if_neg negative]
        exact followsReturn (tracksCounted round (by rw [Nat.zero_add]) room)
    | seq id => exact tracksHalt rfl nofun rfl fun _ => rfl
    | fn id => exact tracksHalt rfl nofun rfl fun _ => rfl
  | leave span => exact tracksStep rfl (tracksPure Task.flow (.left span))
  | answer span e =>
    exact tracksStep rfl (tracksAfter rfl room (tracksExpr calls e room) fun v n _ =>
      tracksStep rfl (tracksPure Task.flow (.answered v span)))
  | observe span e =>
    exact tracksStep rfl (tracksAfter rfl room (tracksExpr calls e room) fun v n _ =>
      tracksGoesOn (simpleObserve host v) (fun _ => rfl) rfl)
  | doctest span e wanted =>
    refine tracksStep rfl (tracksAfter rfl room (tracksExpr calls e room) fun v n room =>
      tracksStep rfl (tracksAfter rfl room (tracksExpr calls wanted room) fun w n _ => tracksAct rfl ?_))
    refine followsBind (simpleLook _) (fun _ => rfl) fun same k _ => ?_
    cases same with
    | true => exact followsReturn (tracksPure Task.flow .next)
    | false => exact ⟨rfl,nofun,fun _ => rfl⟩

theorem tracksBlock (calls : CallsTrack host depth) (b : Block) {waiting m} (room : Room host depth m) :
    Tracks host ⟨source,.stmts b.body,waiting,m⟩ waiting .flow fun h => (within host source depth h).block b := by
  cases b with
  | mk span body => exact tracksStmts calls body room

theorem tracksStmts (calls : CallsTrack host depth) (ss : List Stmt) {waiting m} (room : Room host depth m) :
    Tracks host ⟨source,.stmts ss,waiting,m⟩ waiting .flow fun h => (within host source depth h).stmts ss := by
  cases ss with
  | nil => exact tracksStep rfl (tracksPure Task.flow .next)
  | cons s rest =>
    refine tracksStep rfl (tracksAfter rfl room (tracksStmt calls s room) fun flow n room => ?_)
    cases flow with
    | next => exact tracksStep rfl (tracksStmts calls rest room)
    | answered v span => exact tracksStep rfl (tracksPure Task.flow (.answered v span))
    | left span => exact tracksStep rfl (tracksPure Task.flow (.left span))

end

/-! Calls and programs -/

def returned (source : Text) (caller : Environment) (frames : List Frame) :
    EStateM.Result Halt Machine Flow → EStateM.Result Halt Machine Value
  | .ok (.answered v _) n => .ok v (n.exit caller frames)
  | .ok .next n => .ok .null (n.exit caller frames)
  | .ok (.left span) n => .error (.failed
      { fault := .leaveOutside, location := Location.ofOffset source span.start, trace := n.trace }) (n.exit caller frames)
  | .error halt n => .error halt (n.exit caller frames)

theorem invokeReturned (host : Host) (site : CallSite) (f : Function) (args : List Value) {r}
    (result : (⟨host,f.source,invoke host depth⟩ : Context).block f.body (m.enter site f.params args) = r)
    {frame : Frame} {frames} (there : (final r).frames = frame :: frames) :
    invoke host (depth + 1) site f args m = returned f.source m.scope frames r := by
  simp only [invoke,leaving,Context.answerOf]
  cases r with
  | ok flow n =>
    rw [bindOk result]
    cases flow with
    | next => simp only [pure,EStateM.pure,show n.frames = frame :: frames from there]; rfl
    | answered v span => simp only [pure,EStateM.pure,show n.frames = frame :: frames from there]; rfl
    | left span => simp only [Context.raise,raiseAt,show n.frames = frame :: frames from there]; rfl
  | error halt n =>
    rw [bindError result]
    simp only [show n.frames = frame :: frames from there]
    rfl

theorem finishedReturned {caller frames r} : Finished (returned source caller frames r) ↔ Finished r := by
  cases r with
  | ok flow n => cases flow <;> exact Iff.rfl
  | error halt n => cases halt <;> exact Iff.rfl

theorem returnedFrames {caller frames r} : (final (returned source caller frames r)).frames = frames := by
  cases r with
  | ok flow n => cases flow <;> rfl
  | error halt n => rfl

theorem reachesReturned {site args caller frame frames r} (there : (final r).frames = frame :: frames) :
    Reaches host (ended source (.leave site args caller :: waiting) .flow r)
      (ended site.source waiting .value (returned source caller frames r)) := by
  have goesBack (task task' : Task) (n : Machine) (there : n.frames = frame :: frames) :
      some (back ⟨source,task,.leave site args caller :: waiting,n⟩ site.source caller task' waiting) =
        some ⟨site.source,task',waiting,n.exit caller frames⟩ := by
    simp only [back,there]
  cases r with
  | ok flow n =>
    cases flow with
    | next => exact .single (goesBack _ (.value .null) n there)
    | answered v span => exact .single (goesBack _ (.value v) n there)
    | left span => exact reachesFrom rfl (.single (goesBack _ (.halt _) n there))
  | error halt n => exact .single (goesBack _ (.halt halt) n there)

theorem tracksCalls (host : Host) (depth : Nat) : CallsTrack host depth := by
  induction depth with
  | zero =>
    intro site f args waiting m room
    have full : host.maxDepth ≤ m.frames.length := Nat.sub_eq_zero_iff_le.mp room
    have step : next host ⟨site.source,.call site f args,waiting,m⟩ = some (act ⟨site.source,.call site f args,waiting,m⟩
        (raiseAt site.source site.span.start (.tooDeep host.maxDepth site.name)) waiting) := by
      simp only [next,if_pos full]
    exact tracksAct step (followsRaise _ _ _)
  | succ depth ih =>
    intro site f args waiting m room
    have left : host.maxDepth - m.frames.length = depth + 1 := room
    have enters : next host ⟨site.source,.call site f args,waiting,m⟩ = some ⟨f.source,.stmts f.body.body,
        .leave site args m.scope :: waiting,m.enter site f.params args⟩ := by
      simp only [next,if_neg (show ¬host.maxDepth ≤ m.frames.length by omega)]
    have active := enterFrames m site f.params args
    have inside : Room host depth (m.enter site f.params args) := by
      rw [Room,active,List.length_cons]
      omega
    have body : Tracks host ⟨f.source,.stmts f.body.body,.leave site args m.scope :: waiting,m.enter site f.params args⟩
        (.leave site args m.scope :: waiting) .flow fun h => (within host f.source depth h).block f.body :=
      tracksBlock ih f.body inside
    have there (h : Nat) := (body.frames h).trans active
    have same (h : Nat) : invoke (host.upTo h) (depth + 1) site f args m = returned f.source m.scope m.frames
        ((within host f.source depth h).block f.body (m.enter site f.params args)) :=
      invokeReturned (host.upTo h) site f args rfl (there h)
    refine ⟨fun h finished => ?_,fun h h' le finished => ?_,fun expire => ?_,fun h => ?_⟩
    · dsimp only at finished ⊢
      rw [same,finishedReturned] at finished
      rw [same]
      exact reachesFrom enters ((body.reaches h finished).trans (reachesReturned (there h)))
    · rw [same,finishedReturned] at finished
      rw [same,same]
      exact congrArg _ (body.settled h h' le finished)
    · obtain ⟨h,finished⟩ := body.ends (loopsExpireLater expire (.single enters))
      exact ⟨h,by dsimp only; rw [same,finishedReturned]; exact finished⟩
    · dsimp only
      rw [same]
      exact returnedFrames

theorem tracksProgram (calls : CallsTrack host depth) (body : List Stmt) (room : Room host depth m) :
    Tracks host ⟨source,.program body,waiting,m⟩ waiting (fun _ => .done)
      fun h => (within host source depth h).program body := by
  induction body generalizing m with
  | nil => exact tracksStep rfl (tracksPure (fun _ => Task.done) ())
  | cons s rest ih =>
    refine tracksStep rfl (tracksAfter rfl room (tracksStmt calls s room) fun flow n room => ?_)
    cases flow with
    | next => exact tracksStep rfl (ih room)
    | answered v span => exact tracksHalt rfl nofun rfl fun _ => rfl
    | left span => exact tracksHalt rfl nofun rfl fun _ => rfl

end Moment
end Terakoya
