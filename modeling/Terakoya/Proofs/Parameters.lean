import Terakoya.Proofs.BoundNames
import Terakoya.Proofs.Leaves
import Terakoya.Proofs.LoneNames

/-! The parameters of functions. They are read up to other words than names are, and looked at once
more: each of them is a name, none occurs twice, and none holds the word behind the parameters. So each
of them, written alone, is a variable, and in a call it stands for its own argument. -/
namespace Terakoya

open Text (ofString)

namespace Cursor

theorem bindingStopped (pos : Nat) (t : Text) : ¬ ofString "に対し" <:+: (readBinding pos t).1 := by
  induction t generalizing pos with
  | nil => simp [readBinding,ofString]
  | cons g t ih =>
    unfold readBinding
    split
    · simp [ofString]
    · rename_i goes
      intro inside
      rcases List.infix_cons_iff.mp inside with here | later
      · have whole := (overBinding (pos + g.width) t).rest
        obtain ⟨rest,split⟩ := here
        have begins : ofString "に対し" <+: g :: t :=
          ⟨rest ++ (readBinding (pos + g.width) t).2.rest,by rw [← List.append_assoc,split,List.cons_append,← whole]⟩
        have stop := (Seam.dropWordPrefix "に対し".toList (g :: t)).mpr begins
        exact goes (by simp only [endsBinding,bindingStops,List.any_cons,stop,Bool.true_or,Bool.or_true])
      · exact ih _ later

end Cursor

namespace Phrases

open Reader

theorem headerStopped : Yields (fun ps => ∀ name ∈ ps.map Prod.snd, ¬ ofString "に対し" <:+: name) header := by
  have listed (n : Nat) : Yields (fun ps => ∀ name ∈ ps.map Prod.snd, ¬ ofString "に対し" <:+: name) (parameters n) := by
    induction n with
    | zero => exact yieldsUnfinished
    | succ n ih =>
      have name : Yields (fun name => ¬ ofString "に対し" <:+: name) fun c => .found c.readName.1 c.readName.2 := by
        intro c _ _ found
        cases found
        exact Cursor.bindingStopped c.pos c.rest
      refine yieldsThen fun start => yieldsBind name fun name free => ?_
      split
      · exact yieldsAbsent
      · refine yieldsThen fun _ => yieldsThen fun more => ?_
        cases more with
        | true =>
          exact yieldsThen fun _ => yieldsBind ih fun _ rest => yieldsPure (List.forall_mem_cons.mpr ⟨free,rest⟩)
        | false => exact yieldsPure (by simpa using free)
  refine yieldsThen fun _ => yieldsThen fun _ => yieldsThen fun empty => ?_
  have ending {ps : List (Nat × Text)} (free : ∀ name ∈ ps.map Prod.snd, ¬ ofString "に対し" <:+: name) :
      Yields (fun ps => ∀ name ∈ ps.map Prod.snd, ¬ ofString "に対し" <:+: name) (word "に対し" >>= fun _ => Pure.pure ps) :=
    yieldsThen fun _ => yieldsPure free
  cases empty with
  | true => exact ending (List.forall_mem_nil _)
  | false => exact yieldsBind (yieldsFuelled listed) fun _ free => ending free

end Phrases

theorem announcesStopped {name : Text} (free : ¬ ofString "に対し" <:+: name) : announcesFunction name = false := by
  have behind {w : List Char} {t rest : Text} (found : Cursor.dropWord w t = some rest) (free : ¬ ofString "に対し" <:+: t) :
      ¬ ofString "に対し" <:+: rest :=
    fun inside => free (inside.trans (Cursor.dropWordSome found ▸ (List.suffix_append _ _).isInfix))
  have headless {t : Text} (free : ¬ ofString "に対し" <:+: t) : heads t = false := by
    unfold heads
    cases found : Cursor.dropWord "入力".toList t with
    | none => rfl
    | some rest => exact decide_eq_false (behind found free)
  rw [announcesFunction,headless free,Bool.false_or]
  cases found : Cursor.dropWord "もし".toList name with
  | none => rfl
  | some rest => exact headless (behind found free)

theorem usableParameter {name : Text} (named : isIdentifier name) (free : ¬ ofString "に対し" <:+: name) :
    (Parse.strict (ofString (Text.toString name))).ShowsVariable (Text.toString name) ∧ ofString (Text.toString name) = name := by
  obtain ⟨s,rfl⟩ : ∃ s, ofString s = name := by
    simp only [isIdentifier,Bool.and_eq_true,decide_eq_true_eq] at named
    exact ⟨_,named.1.2⟩
  rw [Phrases.textBack]
  exact ⟨Parse.showsLone named (announcesStopped free),rfl⟩

def Tree.Referable : Tree → Prop
  | .expr (.fn _ params _) => params.Nodup ∧ ∀ p ∈ params, (Parse.strict (ofString p)).ShowsVariable p
  | _ => True

theorem referableGrants : Phrases.Grants Tree.Referable where
  plain n plain := by
    rcases n with e | s | b
    · cases e <;> trivial
    · trivial
    · trivial
  reference _ _ _ := trivial
  call _ _ _ := trivial
  quoted _ := trivial
  function {c ps d} found proper span body := by
    have free := Phrases.headerStopped c ps d found
    have usable (name : Text) (inside : name ∈ ps.map Prod.snd) := usableParameter (proper.1 name inside) (free name inside)
    have params : (ps.map fun p => Text.toString p.2) = (ps.map Prod.snd).map Text.toString := by simp [Function.comp_def]
    unfold Tree.Referable
    rw [params]
    refine ⟨proper.2.map_on fun a first b second same => ?_,List.forall_mem_map.mpr fun name inside => (usable name inside).1⟩
    rw [← (usable a first).2,same,(usable b second).2]

namespace Machine

variable {m : Machine}

variable (inScope : m.InScope) (site : CallSite) {params : List String} {args : List Value}

include inScope

theorem enterEach (distinct : params.Nodup) (sameLength : args.length = params.length) (i : Nat) (inside : i < params.length) :
    (m.enter site params args).get? params[i] = args[i]? := setAllEach (lendInScope inScope) distinct sameLength i inside

theorem enterOthers {name} (other : name ∉ params) : (m.enter site params args).get? name = m.get? name := by
  have same : (m.lend.setAll (params.zip args)).get? name = m.lend.get? name := by
    rcases setAllGet (lendInScope inScope) (params.zip args) name with ⟨v,given,_⟩ | ⟨_,same⟩
    · exact absurd (List.of_mem_zip given).1 other
    · exact same
  refine Eq.trans same ?_
  simp only [get?,Environment.get?,lendBindings inScope]

end Machine

namespace Context

variable {ctx : Context} {m n : Machine}

theorem exprsLength {es : List Expr} {vs} (result : ctx.exprs es m = .ok vs n) : vs.length = es.length := by
  induction es generalizing m n vs with
  | nil =>
    cases result
    rfl
  | cons e es ih =>
    simp only [exprs,bind,EStateM.bind] at result
    cases first : ctx.expr e m with
    | error halt n => simp [first] at result
    | ok v m' =>
      cases second : ctx.exprs es m' with
      | error halt n => simp [first,second] at result
      | ok vs' n' =>
        simp only [first,second] at result
        cases result
        simp [ih second]

theorem exprsInScope (calls : ctx.CallsBorrow) {es : List Expr} {vs} (inScope : m.InScope)
    (result : ctx.exprs es m = .ok vs n) : n.InScope := by
  have kept := borrowsExprs calls es m inScope
  rw [result] at kept
  unfold Machine.InScope
  rw [show n.scope = m.scope from kept.scope,show n.tables.live = m.tables.live from kept.shelf]
  exact inScope

end Context

/-- However a function with some parameters is called by name, with as many arguments: its body runs on a machine
where each parameter has the value of its own argument, and any other name has the value it has for the caller. -/
def Matched (params : List String) : Prop :=
  ∀ (host : Host) (depth : Nat) (source : Text) (span : Span) (name : String) (args : List Expr) (m n : Machine)
    (id : Nat) (f : Function) (values : List Value),
    let caller : Context := ⟨host,source,invoke host (depth + 1)⟩
    let entered : Machine := n.enter ⟨name,span,source⟩ params values
    m.InScope → m.get? name = some (.fn id) → m.heap.functions[id]? = some f → f.params = params →
    args.length = params.length → caller.exprs args m = .ok values n →
    caller.expr (.call span name args) m =
      Run.leaving n.scope (Context.answerOf ⟨host,f.source,invoke host depth⟩ f.body) entered ∧
    values.length = params.length ∧ (∀ i (inside : i < params.length), entered.get? params[i] = values[i]?) ∧
    ∀ other ∉ params, entered.get? other = n.get? other

theorem matchedDistinct {params : List String} (distinct : params.Nodup) : Matched params := by
  intro host depth source span name args m n id f values caller entered inScope found there same arity evaluated
  have calls : caller.CallsBorrow := borrowsInvoke host (depth + 1)
  have inScope' : n.InScope := Context.exprsInScope calls inScope evaluated
  have sameLength : values.length = params.length := (Context.exprsLength evaluated).trans arity
  refine ⟨?_,sameLength,Machine.enterEach inScope' _ distinct sameLength,fun other => Machine.enterOthers inScope' _⟩
  have called : caller.expr (.call span name args) m = caller.invoke ⟨name,span,source⟩ f values n := by
    simp only [Context.expr,bind,EStateM.bind,Run.lookup,found,Run.functionAt,there,same,arity,ne_eq,not_true,if_false,evaluated]
    rfl
  rw [called]
  subst same
  rfl

theorem parametersStandForTheirArguments (recover : Bool) (t : Text) :
    ∀ s ∈ (Parse.ofNormal recover (Text.normalize t)).program.body, (Tree.stmt s).All fun n =>
      ∀ span params body, n = .expr (.fn span params body) →
        params.Nodup ∧ (∀ p ∈ params, (Parse.strict (ofString p)).ShowsVariable p) ∧ Matched params := by
  refine fun s inside => (Parse.programAll referableGrants recover _ s inside).imp ?_
  rintro n referable span params body rfl
  exact ⟨referable.1,referable.2,matchedDistinct referable.1⟩

def pairing : Text := ofString "f = 入力 x, 回数 に対し \x7b \x7d"

def bindsPair : List Stmt → Bool
  | [.assign _ _ (.fn _ params _)] => params = ["x","回数"]
  | _ => false

theorem countIsAParameter : ∃ outer place span body,
    (Parse.ofNormal false (Text.normalize pairing)).program.body = [.assign outer place (.fn span ["x","回数"] body)] ∧
    (Parse.strict (ofString "回数")).ShowsVariable "回数" ∧ Matched ["x","回数"] := by
  have binds : bindsPair (Parse.ofNormal false (Text.normalize pairing)).program.body := by decide +kernel
  have usable := parametersStandForTheirArguments false pairing
  generalize (Parse.ofNormal false (Text.normalize pairing)).program.body = parsed at binds usable
  unfold bindsPair at binds
  split at binds
  · rename_i outer place span params body
    obtain rfl : params = ["x","回数"] := of_decide_eq_true binds
    have function := ((usable _ (List.mem_singleton_self _)).under _ (List.mem_cons_of_mem _ (List.mem_singleton_self _))).here
    obtain ⟨_,alone,matched⟩ := function span ["x","回数"] body rfl
    exact ⟨outer,place,span,body,rfl,alone "回数" (by simp),matched⟩
  · contradiction

end Terakoya
