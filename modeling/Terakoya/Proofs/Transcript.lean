import Terakoya.Proofs.Alternatives
import Terakoya.Proofs.BracedWords
import Terakoya.Proofs.Clearing
import Terakoya.Proofs.Copies

/-! What a session has been told, written out. The fragments that could be read are kept and read once more as one
text, in which statements stand at other places than in the fragments. Writing them does not depend on places, and
the dialect of braces writes one statement after the other, so that the whole is written as the fragments are; unless
a fragment begins with an alternative right behind a condition that has none. -/
namespace Terakoya

namespace Emit.Braced

/-! Places are not written -/

theorem literalBare (e : Expr) : isLiteral e.bare = isLiteral e := by cases e <;> rfl

theorem plainBare (e : Expr) : Indented.isPlain e.bare = Indented.isPlain e := by cases e <;> rfl

theorem emptyBare (es : List Expr) : (allBare es).isEmpty = es.isEmpty := by cases es <;> rfl

mutual

theorem exprBare (level depth : Nat) (e : Expr) : expr level depth e.bare = expr level depth e := by
  cases e with
  | int span n => rfl
  | null span => rfl
  | text span s index => cases index <;> rfl
  | seq span es => rw [Expr.bare,expr,expr,exprsBare level depth es]
  | var p => rw [Expr.bare,expr,expr,placeBare level depth p]
  | fn span params body => rw [Expr.bare,expr,expr,blockBare (level + 1) depth body]
  | call span name es => rw [Expr.bare,expr,expr,exprsBare level depth es]
  | neg span e => rw [Expr.bare,expr,expr,exprBare level depth e]
  | len span e => rw [Expr.bare,expr,expr,exprBare level depth e]

theorem exprsBare (level depth : Nat) (es : List Expr) : exprs level depth (allBare es) = exprs level depth es := by
  cases es with
  | nil => rfl
  | cons e es => rw [allBare,exprs,exprs,exprBare level depth e,exprsBare level depth es]

theorem placeBare (level depth : Nat) (p : Place) : place level depth p.bare = place level depth p := by
  obtain ⟨span,name,es⟩ := p
  rw [Place.bare,place,place,indexedBare level depth [.words name] es]

theorem indexedBare (level depth : Nat) (p : Page) (es : List Expr) :
    indexed level depth p (allBare es) = indexed level depth p es := by
  cases es with
  | nil => rfl
  | cons e es => rw [allBare,indexedCons,indexedCons,Expr.nullBare,exprBare level depth e,indexedBare level depth _ es]

theorem targetBare (level depth : Nat) (p : Page) (es : List Expr) :
    target level depth p (allBare es) = target level depth p es := by
  cases es with
  | nil => rfl
  | cons e es =>
    rw [allBare,targetCons,targetCons,Expr.nullBare,emptyBare,exprBare level depth e,targetBare level depth _ es]

theorem stmtBare (level depth : Nat) (s : Stmt) : stmt level depth s.bare = stmt level depth s := by
  cases s with
  | assign span t value =>
    obtain ⟨place,name,es⟩ := t
    cases direct : es.isEmpty && !Indented.isPlain value with
    | true =>
      obtain ⟨rfl,literal⟩ : es = [] ∧ Indented.isPlain value = false := by simpa using direct
      cases value with
      | fn span params body =>
        rw [Stmt.bare,Place.bare,Expr.bare,allBare,stmt,stmt,blockBare (level + 1) depth body]
      | _ => contradiction
    | false =>
      have direct' : ((allBare es).isEmpty && !Indented.isPlain value.bare) = false := by rw [emptyBare,plainBare,direct]
      rw [Stmt.bare,Place.bare,assignOther direct',assignOther direct,targetBare level depth _ es,
        exprBare level depth value]
  | append span t value => rw [Stmt.bare,stmt,stmt,placeBare level depth t,exprBare level depth value]
  | increment span t => rw [Stmt.bare,stmt,stmt,placeBare level depth t]
  | decrement span t => rw [Stmt.bare,stmt,stmt,placeBare level depth t]
  | cond span a b comparator yes no =>
    cases no with
    | none =>
      rw [Stmt.bare,otherwiseBare,stmt,stmt,exprBare level depth a,exprBare level depth b,
        blockBare (level + 1) depth yes]
    | some no =>
      rw [Stmt.bare,otherwiseBare,stmt,stmt,exprBare level depth a,exprBare level depth b,
        blockBare (level + 1) depth yes,blockBare (level + 1) depth no]
  | loop span n body =>
    rw [Stmt.bare,stmt,stmt,Expr.nullBare,literalBare,exprBare level depth n,blockBare (level + 1) (depth + 1) body]
  | leave span => rfl
  | answer span e => rw [Stmt.bare,stmt,stmt,exprBare level depth e]
  | observe span e => rw [Stmt.bare,stmt,stmt,exprBare level depth e]
  | doctest span e expected => rw [Stmt.bare,stmt,stmt,exprBare level depth e,exprBare level depth expected]

theorem blockBare (level depth : Nat) (b : Block) : block level depth b.bare = block level depth b := by
  obtain ⟨span,body⟩ := b
  rw [Block.bare,block,block,stmtsBare level depth body]

theorem stmtsBare (level depth : Nat) (body : List Stmt) :
    stmts level depth (bodyBare body) = stmts level depth body := by
  cases body with
  | nil => rfl
  | cons s body => rw [bodyBare,stmts,stmts,stmtBare level depth s,stmtsBare level depth body]

end

theorem emitMoved (indent : Nat) (f : Nat → Nat) (body : List Stmt) :
    emit indent (body.map (Stmt.moved f)) = emit indent body := by
  rw [emit,emit,← stmtsBare 0 0 (body.map _),← bodyMovedMap,bodyBareMoved,stmtsBare]

theorem stmtsAppend (level depth : Nat) (first second : List Stmt) :
    stmts level depth (first ++ second) = stmts level depth first ++ stmts level depth second := by
  induction first with
  | nil => rfl
  | cons s first ih => rw [List.cons_append,stmts,stmts,ih,List.append_assoc]

theorem emitAppend (indent : Nat) (first second : List Stmt) :
    emit indent (first ++ second) = emit indent first ++ emit indent second := by
  rw [emit,emit,emit,stmtsAppend,render,render,render,List.map_append,String.join_append]

end Emit.Braced

/-! Which fragments are kept -/

theorem SyntaxFault.parseKind (f : SyntaxFault) (data : Option Data) : (Diagnostic.ofCode f.code data).isParse := by
  cases f <;> rfl

theorem RuntimeFault.otherKind (f : RuntimeFault) : f.diagnostic.isParse = false := by
  cases f with
  | undefinedName name known =>
    rw [diagnostic,Diagnostic.undefinedName]
    split <;> rfl
  | undefinedFunction name known =>
    rw [diagnostic,Diagnostic.undefinedName]
    split <;> rfl
  | notInteger use got => cases use <;> rfl
  | _ => rfl

def Ending.wasRead : Ending → Bool
  | .failed d => !d.isParse
  | _ => true

theorem Interpreter.evaluateRead (host : Host) (name : String) (source : Text) (body : List Stmt) (m : Machine) :
    (evaluate host name source body m).2.wasRead := by
  rw [evaluate]
  split
  · rfl
  · rename_i e n _
    have other : (e.diagnostic name).isParse = false := e.fault.otherKind
    rw [Ending.wasRead,other]
    rfl
  · rfl
  · rfl

theorem Interpreter.runRead (host : Host) (name : String) (t : Text) (m : Machine) :
    (run host name t m).2.wasRead = (Parse.strict t).errors.isEmpty := by
  rw [run,Parse.diagnostics]
  cases (Parse.strict t).errors with
  | cons e rest =>
    have parse : (e.diagnostic (Parse.strict t).source).isParse := SyntaxFault.parseKind e.fault e.fault.data
    exact congrArg not parse
  | nil => exact evaluateRead _ name _ _ _

namespace Session

def Step.enter (ts : List Text) : Step → List Text
  | .eval t => if (Parse.strict t).errors.isEmpty then ts ++ [t] else ts
  | .command c =>
    match Command.ofString c with
    | .clear => []
    | _ => ts

def entered (steps : List Step) : List Text := steps.foldl Step.enter []

theorem takeEnters {s : Session} (good : s.seed.badName? = none) (step : Step) :
    (s.take step).1.sources = step.enter s.sources := by
  cases step with
  | eval t =>
    have read := Interpreter.runRead s.host "" t s.machine.restart.clearShown
    rw [Step.enter,← read]
    rfl
  | command c =>
    rw [take,Step.enter]
    cases Command.ofString c with
    | clear => rw [perform,resetGood good,cleared]
    | _ => rfl

theorem throughEnters {s : Session} (good : s.seed.badName? = none) (steps : List Step) :
    (s.through steps).sources = steps.foldl Step.enter s.sources := by
  induction steps generalizing s with
  | nil => rfl
  | cons step rest ih =>
    have good' : (s.take step).1.seed.badName? = none := by rw [(takeKeeps s step).1,good]
    rw [through,ih good',takeEnters good,List.foldl_cons]

theorem startEnters {host : Host} {seed s₀} (begun : start host seed = .ok s₀) (steps : List Step) :
    (s₀.through steps).sources = entered steps := by
  obtain ⟨good,rfl⟩ := startGood begun
  exact throughEnters (s := (planted host seed).cleared) good steps

theorem enterRead {ts} (read : ∀ t ∈ ts, (Parse.strict t).errors = []) (step : Step) :
    ∀ t ∈ step.enter ts, (Parse.strict t).errors = [] := by
  cases step with
  | eval u =>
    rw [Step.enter]
    split
    · rename_i fine
      intro t there
      rcases List.mem_append.mp there with old | new
      · exact read t old
      · obtain rfl := List.mem_singleton.mp new
        exact List.isEmpty_iff.mp fine
    · exact read
  | command c =>
    rw [Step.enter]
    split
    · exact fun t there => absurd there List.not_mem_nil
    · exact read

theorem enteredRead (steps : List Step) : ∀ t ∈ entered steps, (Parse.strict t).errors = [] := by
  induction steps using List.reverseRecOn with
  | nil => exact fun t there => absurd there List.not_mem_nil
  | append_singleton steps step ih =>
    rw [entered,List.foldl_append,List.foldl_cons,List.foldl_nil]
    exact enterRead ih step

end Session

/-! Writing fragments -/

theorem emitParts (indent : Nat) {ts bodies} (parts : Parts ts bodies) : Emit.Braced.emit indent bodies.flatten =
      String.join (ts.map fun t => Emit.Braced.emit indent (Parse.strict t).program.body) := by
  induction parts with
  | nil => rfl
  | cons first _ ih =>
    obtain ⟨f,rfl⟩ := first
    rw [List.flatten_cons,Emit.Braced.emitAppend,Emit.Braced.emitMoved,ih,List.map_cons,String.join_cons]

namespace Dialect

theorem translateRead (d : Dialect) (indent : Nat) {t} (read : (Parse.strict t).errors = []) :
    d.translate indent t = .ok (d.emit indent (Parse.strict t).program.body) :=
  translateFine d indent (by rw [Parse.diagnostics,read]; rfl)

theorem translateFaulty (d : Dialect) (indent : Nat) {t} (faulty : (Parse.strict t).errors ≠ []) :
    ∃ e, d.translate indent t = .error e ∧ e.isParse := by
  obtain ⟨e,rest,errors⟩ := List.exists_cons_of_ne_nil faulty
  refine ⟨_,by simp only [translate,Parse.diagnostics,errors,List.map_cons]; rfl,?_⟩
  exact SyntaxFault.parseKind e.fault e.fault.data

theorem translateAll (d : Dialect) (indent : Nat) {ts : List Text} (read : ∀ t ∈ ts, (Parse.strict t).errors = []) :
    ts.mapM (d.translate indent) = .ok (ts.map fun t => d.emit indent (Parse.strict t).program.body) := by
  induction ts with
  | nil => rfl
  | cons t ts ih =>
    obtain ⟨first,rest⟩ := List.forall_mem_cons.mp read
    rw [List.mapM_cons,translateRead d indent first,ih rest]
    rfl

end Dialect

theorem sessionsWriteTheirFragments (host : Host) (seed : Seed) (s₀ : Session)
    (begun : Session.start host seed = .ok s₀)
    (steps : List Session.Step) :
    ∃ outs, (Session.entered steps).mapM (Dialect.translate .braced 0) = .ok outs ∧
      (Settled (Session.entered steps) → ((s₀.through steps).take (.command ":emit js")).2 = String.join outs) ∧
      (¬ Settled (Session.entered steps) →
        ∃ e : Diagnostic, e.isParse ∧
          ((s₀.through steps).take (.command ":emit js")).2 = "Error: " ++ e.render ++ "\n") := by
  have read := Session.enteredRead steps
  have answer : ((s₀.through steps).take (.command ":emit js")).2 = (s₀.through steps).emitted "js" := by
    have words : Text.words ":emit js" = [":emit","js"] := by decide +kernel
    simp [Session.take,Session.Command.ofString,words,Session.perform]
  have source : (s₀.through steps).source = List.intercalate [.newline] (Session.entered steps) := by
    rw [Session.source,Session.startEnters begun]
  have named : Dialect.ofName? "js" = some .braced := by decide +kernel
  refine ⟨_,Dialect.translateAll .braced 0 read,fun settled => ?_,fun unsettled => ?_⟩
  · obtain ⟨joined,bodies,parts,body⟩ := partsJoined read settled
    simp only [answer,Session.emitted,named,source,Dialect.translateRead .braced 0 joined]
    rw [body]
    exact emitParts 0 parts
  · obtain ⟨e,refused,parse⟩ := Dialect.translateFaulty .braced 0 (unsettledRefused read unsettled)
    refine ⟨e,parse,?_⟩
    simp only [answer,Session.emitted,named,source,refused]

def Session.blank : Session := (planted {} []).cleared

theorem Session.blankBegins : start {} [] = .ok blank := resetGood (by decide +kernel)

theorem mixedFragmentsAreWritten :
    let steps : List Session.Step := [.eval (Text.ofString "x = 1"),.command ":clear",
      .eval (Text.ofString "もし 1 が 1 ならば \x7b\n\x7d"),.eval (Text.ofString "y"),.eval (Text.ofString "1 + 1"),
      .eval (Text.ofString "そうでなければ = 2")]
    Session.start {} [] = .ok Session.blank ∧ Settled (Session.entered steps) ∧
      ((Session.blank.through steps).take (.command ":emit js")).2 =
        "if (1 === 1) \x7b\n\x7d\nconsole.log(y);\nそうでなければ = 2;\n" := by
  intro steps
  have settled : Settled (Session.entered steps) := by decide +kernel
  have texts : ((Session.entered steps).mapM (Dialect.translate .braced 0)).toOption =
      some ["if (1 === 1) \x7b\n\x7d\n","console.log(y);\n","そうでなければ = 2;\n"] := by decide +kernel
  obtain ⟨outs,translated,written,_⟩ := sessionsWriteTheirFragments {} [] Session.blank Session.blankBegins steps
  rw [translated] at texts
  cases texts
  exact ⟨Session.blankBegins,settled,written settled⟩

theorem alternativeAfterConditionIsAnError :
    let steps : List Session.Step := [.eval (Text.ofString "もし 1 が 1 ならば \x7b\n\x7d"),
      .eval (Text.ofString "そうでなければ = 2")]
    Session.start {} [] = .ok Session.blank ∧
      (Session.blank.sights (steps ++ [.command ":emit js"])).map Session.Sight.answer =
        ["","","Error: line 3, column 9: expected '\x7b', got '= 2'\n"] ∧
      ((Session.entered steps).mapM (Dialect.translate .braced 0)).toOption =
        some ["if (1 === 1) \x7b\n\x7d\n","そうでなければ = 2;\n"] := by
  exact ⟨Session.blankBegins,by decide +kernel,by decide +kernel⟩

end Terakoya
