import Terakoya.Proofs.Passage
import Terakoya.Proofs.Trees

/-! Two texts read side by side. Their cursors may differ in what a relation allows: it has to be kept
by what readers do to a cursor, and words, names, numbers and quoted texts have to be the same under it.
Then every phrase ends in the same way on both sides and gives the same tree, apart from spans. What
is known of the leaves of a tree when they are read is carried along. -/
namespace Terakoya

open Text (ofString)

variable {α β : Type} {B : Cursor → Cursor → Prop}

namespace Reading

inductive Alike (B : Cursor → Cursor → Prop) (S : α → α → Prop) : Reading α → Reading α → Prop where
  | found {a a' d d'} (same : S a a') (near : B d d') : Alike B S (.found a d) (.found a' d')
  | absent {d d'} : Alike B S (.absent d) (.absent d')
  | refused {e e'} : Alike B S (.refused e) (.refused e')
  | unfinished {x} : Alike B S .unfinished x

theorem Alike.imp {S T : α → α → Prop} {x x' : Reading α} (both : x.Alike B S x')
    (weaker : ∀ a a' d, x = .found a d → S a a' → T a a') : x.Alike B T x' := by
  cases both with
  | found same near => exact .found (weaker _ _ _ rfl same) near
  | absent => exact .absent
  | refused => exact .refused
  | unfinished => exact .unfinished

end Reading

def unbroken (w : String) : Bool := !w.toList.isEmpty && w.toList.all fun c => c ≠ '\n' && c ≠ '\r'

structure Lockstep (B : Cursor → Cursor → Prop) : Prop where
  spaces {c c'} : B c c' → B c.skipSpaces c'.skipSpaces
  blank {c c'} : B c c' → B c.skipBlank c'.skipBlank
  word {c c' w} : unbroken w → B c c' → Option.Rel B (c.consume? w) (c'.consume? w)
  newline {c c'} : B c c' → Option.Rel B (c.skipSpaces.consume? "\n") (c'.skipSpaces.consume? "\n")
  peek {c c'} : B c c' → c'.peek = c.peek ∨ c.peek = '\n' ∧ c'.peek = '\r'
  advance {c c'} : B c c' → c.peek ≠ '\n' → B c.advance c'.advance
  digits {c c'} : B c c' → c'.readDigits.1 = c.readDigits.1 ∧ B c.readDigits.2 c'.readDigits.2
  identifier {c c'} : B c c' → c'.readIdentifier.1 = c.readIdentifier.1 ∧ B c.readIdentifier.2 c'.readIdentifier.2
  name {c c'} : B c c' → c'.readName.1 = c.readName.1 ∧ B c.readName.2 c'.readName.2
  text {c c'} : B c c' → c.peek ≠ '\n' → c'.readText.closed = c.readText.closed ∧
    (c.readText.closed → c'.readText.content = c.readText.content ∧ B c.readText.next c'.readText.next)
  ended {c c'} : B c c' → c'.atStatementEnd = c.atStatementEnd
  atEnd {c c'} : B c c' → c'.atEnd = c.atEnd
  length {c c'} : B c c' → c.rest.length ≤ c'.rest.length

namespace Reader

def InStep (B : Cursor → Cursor → Prop) (S : α → α → Prop) (r r' : Reader α) : Prop :=
  ∀ c c', B c c' → (r c).Alike B S (r' c')

section Combinators

variable {S : α → α → Prop} {T : β → β → Prop} {r r' s s' : Reader α} {f f' : α → Reader β}

theorem alikeBind {c c'} (first : (r c).Alike B S (r' c')) (next : ∀ a a', S a a' → InStep B T (f a) (f' a')) :
    ((r >>= f) c).Alike B T ((r' >>= f') c') := by
  simp only [Bind.bind,Reader.bind]
  generalize r c = x at first
  generalize r' c' = x' at first
  cases first with
  | found same near => exact next _ _ same _ _ near
  | absent => exact .absent
  | refused => exact .refused
  | unfinished => exact .unfinished

theorem stepBind (first : InStep B S r r') (next : ∀ a a', S a a' → InStep B T (f a) (f' a')) :
    InStep B T (r >>= f) (r' >>= f') := fun c c' near => alikeBind (first c c' near) next

theorem stepSame (first : InStep B Eq r r') (next : ∀ a, InStep B T (f a) (f' a)) : InStep B T (r >>= f) (r' >>= f') :=
  stepBind first fun a _ same => same ▸ next a

theorem stepIf {asks asks' : Reader Bool} (first : InStep B Eq asks asks') (yes : InStep B S r r') (no : InStep B S s s') :
    InStep B S (asks >>= fun there => if there then r else s) (asks' >>= fun there => if there then r' else s') := by
  refine stepSame first fun there => ?_
  cases there with
  | true => exact yes
  | false => exact no

theorem stepHere {f f' : Nat → Reader β} (next : ∀ n n', InStep B T (f n) (f' n')) :
    InStep B T (here >>= f) (here >>= f') := fun c c' near => next c.pos c'.pos c c' near

theorem stepPure {a a'} (same : S a a') : InStep B S (pure a) (pure a') := fun _ _ near => .found same near

theorem stepOrElse (first : InStep B S r r') (second : InStep B S s s') : InStep B S (orElse r s) (orElse r' s') := by
  intro c c' near
  have both := first c c' near
  simp only [orElse]
  generalize r c = x at both
  generalize r' c' = x' at both
  cases both with
  | found same near => exact .found same near
  | absent => exact second c c' near
  | refused => exact .refused
  | unfinished => exact .unfinished

theorem stepRequire (what : Expectation) (first : InStep B S r r') : InStep B S (require what r) (require what r') := by
  intro c c' near
  have both := first c c' near
  simp only [require]
  generalize r c = x at both
  generalize r' c' = x' at both
  cases both with
  | found same near => exact .found same near
  | absent => exact .refused
  | refused => exact .refused
  | unfinished => exact .unfinished

theorem stepAbsent : InStep B S absent absent := fun _ _ _ => .absent

theorem stepRefuse (n n' : Nat) (fault fault' : SyntaxFault) : InStep B S (refuse n fault) (refuse n' fault') :=
  fun _ _ _ => .refused

theorem stepExpecting (what what' : Expectation) : InStep B S (expecting what) (expecting what') :=
  fun _ _ _ => .refused

theorem stepUnfinished : InStep B S unfinished r := fun _ _ _ => .unfinished

theorem stepFound (step : InStep B S r r') : InStep B (fun a a' => S a a' ∧ ∃ c d, r c = .found a d) r r' :=
  fun c c' near => (step c c' near).imp fun _ _ d found same => ⟨same,c,d,found⟩

end Combinators

section Scanners

variable (lock : Lockstep B) {T : β → β → Prop}

include lock

theorem stepSpaces : InStep B Eq spaces spaces := fun _ _ near => .found rfl (lock.spaces near)

theorem stepBlank : InStep B Eq blank blank := fun _ _ near => .found rfl (lock.blank near)

theorem stepWord {w} (plain : unbroken w) : InStep B Eq (word w) (word w) := by
  intro c c' near
  have both := lock.word plain near
  simp only [word]
  generalize c.consume? w = x at both
  generalize c'.consume? w = x' at both
  cases both with
  | some near => exact .found rfl near
  | none => exact .absent

theorem stepTry {w} (plain : unbroken w) : InStep B Eq (tryWord w) (tryWord w) := by
  intro c c' near
  have both := lock.word plain near
  simp only [tryWord]
  generalize c.consume? w = x at both
  generalize c'.consume? w = x' at both
  cases both with
  | some near => exact .found rfl near
  | none => exact .found rfl near

theorem stepTryAny {ws} (plain : ws.all unbroken) : InStep B Eq (tryWords ws) (tryWords ws) := by
  intro c c' near
  induction ws with
  | nil => exact .found rfl near
  | cons w ws ih =>
    obtain ⟨first,rest⟩ := Bool.and_eq_true_iff.mp plain
    have both := lock.word first near
    have later := ih rest
    simp only [tryWords,Cursor.consumeAny?] at later ⊢
    generalize c.consume? w = x at both
    generalize c'.consume? w = x' at both
    cases both with
    | some near => exact .found rfl near
    | none => exact later

theorem stepPeek {k} (plain : k ≠ '\n' ∧ k ≠ '\r') {r r' s s' : Reader β} (first : InStep B T r r')
    (second : InStep B T s s') : InStep B T (peek >>= fun a => if a = k then r else s)
      (peek >>= fun a => if a = k then r' else s') := by
  intro c c' near
  change ((if c.peek = k then r else s) c).Alike B T ((if c'.peek = k then r' else s') c')
  have same : c'.peek = k ↔ c.peek = k := by
    rcases lock.peek near with same | ⟨newline,return'⟩
    · rw [same]
    · rw [newline,return']
      exact ⟨fun other => absurd other.symm plain.2,fun other => absurd other.symm plain.1⟩
  by_cases here : c.peek = k
  · rw [if_pos here,if_pos (same.mpr here)]
    exact first c c' near
  · rw [if_neg here,if_neg (mt same.mp here)]
    exact second c c' near

theorem alikeAdvance {f f' : Nat → Reader β} (next : ∀ n n', InStep B T (f n) (f' n')) {c c'} (near : B c c')
    (solid : c.peek ≠ '\n') : ((here >>= fun n => advance >>= fun _ => f n) c).Alike B T
      ((here >>= fun n => advance >>= fun _ => f' n) c') :=
  next c.pos c'.pos c.advance c'.advance (lock.advance near solid)

theorem stepDigits : InStep B Eq (fun c => .found c.readDigits.1 c.readDigits.2) fun c => .found c.readDigits.1 c.readDigits.2 :=
  fun _ _ near => .found (lock.digits near).1.symm (lock.digits near).2

theorem stepName : InStep B Eq (fun c => .found c.readName.1 c.readName.2) fun c => .found c.readName.1 c.readName.2 :=
  fun _ _ near => .found (lock.name near).1.symm (lock.name near).2

theorem stepAtEnd : InStep B Eq (fun c => .found c.atEnd c) fun c => .found c.atEnd c :=
  fun _ _ near => .found (lock.atEnd near).symm near

theorem stepLooksAt {w} (plain : unbroken w) : InStep B Eq (fun c => .found (c.looksAt w) c) fun c => .found (c.looksAt w) c := by
  intro c c' near
  refine .found ?_ near
  have both := lock.word plain near
  simp only [Cursor.consume?,Cursor.looksAt] at both ⊢
  generalize Cursor.dropWord w.toList c.rest = x at both
  generalize Cursor.dropWord w.toList c'.rest = x' at both
  cases x <;> cases x' <;> cases both <;> rfl

theorem stepEnd : InStep B Eq statementEnd statementEnd := by
  intro c c' near
  simp only [statementEnd,lock.ended near]
  split
  · exact .found rfl near
  · exact .refused

theorem stepLine (what : Expectation) {f f' : Unit → Reader β} (next : InStep B T (f ()) (f' ())) :
    InStep B T (spaces >>= fun _ => require what (word "\n") >>= f) (spaces >>= fun _ => require what (word "\n") >>= f') := by
  intro c c' near
  have both := lock.newline near
  have line : (require what (word "\n") c.skipSpaces).Alike B Eq (require what (word "\n") c'.skipSpaces) := by
    simp only [require,word]
    generalize c.skipSpaces.consume? "\n" = x at both
    generalize c'.skipSpaces.consume? "\n" = x' at both
    cases both with
    | some near => exact .found rfl near
    | none => exact .refused
  show ((require what (word "\n") >>= f) c.skipSpaces).Alike B T ((require what (word "\n") >>= f') c'.skipSpaces)
  exact alikeBind line fun _ _ _ => next

theorem stepLoop {S : α → α → Prop} {loop loop' : Nat → Reader α} (none : loop 0 = unfinished)
    (round : ∀ n n', InStep B S (loop n) (loop' n') → InStep B S (loop (n + 1)) (loop' (n' + 1))) :
    InStep B S (fuelled loop) (fuelled loop') := by
  have rounds (n n' : Nat) (more : n ≤ n') : InStep B S (loop n) (loop' n') := by
    induction n generalizing n' with
    | zero => exact none ▸ stepUnfinished
    | succ n ih =>
      obtain ⟨k,rfl⟩ := Nat.exists_eq_add_of_le' more
      exact round n (k + n) (ih _ (Nat.le_add_left n k))
  exact fun c c' near => rounds _ _ (Nat.add_le_add_right (lock.length near) 1) c c' near

end Scanners

end Reader

/-! Trees that are the same apart from their spans, with a property of the nodes of the first -/

section Kin

variable (P : Tree → Prop)

def Expr.Kin (e e' : Expr) : Prop := e'.bare = e.bare ∧ (Tree.expr e).All P

def allKin (es es' : List Expr) : Prop := allBare es' = allBare es ∧ ∀ m ∈ es.map Tree.expr, m.All P

def Place.Kin (p p' : Place) : Prop := p'.bare = p.bare ∧ (Tree.expr (.var p)).All P

def Stmt.Kin (s s' : Stmt) : Prop := s'.bare = s.bare ∧ (Tree.stmt s).All P

def bodyKin (body body' : List Stmt) : Prop := bodyBare body' = bodyBare body ∧ ∀ m ∈ body.map Tree.stmt, m.All P

def Block.Kin (b b' : Block) : Prop := b'.bare = b.bare ∧ (Tree.block b).All P

def otherwiseKin (no no' : Option Block) : Prop :=
  otherwiseBare no' = otherwiseBare no ∧ ∀ m ∈ no.toList.map Tree.block, m.All P

variable {P}

theorem kinNone : allKin P [] [] := ⟨rfl,by simp⟩

theorem kinCons {e e' es es'} (first : e.Kin P e') (rest : allKin P es es') : allKin P (e :: es) (e' :: es') :=
  ⟨by rw [allBare,allBare,first.1,rest.1],List.forall_mem_cons.mpr ⟨first.2,rest.2⟩⟩

end Kin

def Tree.isPlain : Tree → Bool
  | expr (.text _ _ _) => false
  | expr (.var _) => false
  | expr (.fn _ _ _) => false
  | expr (.call _ _ _) => false
  | _ => true

namespace Phrases

open Reader

structure Grants (P : Tree → Prop) : Prop where
  plain : ∀ n, n.isPlain → P n
  reference : ∀ {c name d}, identifier c = .found name d → ∀ span is, P (.expr (.var (.mk span name is)))
  call : ∀ {c name d}, identifier c = .found name d → ∀ span args, P (.expr (.call span name args))
  quoted : ∀ {c span s index d}, quotedText c = .found (.text span s index) d → P (.expr (.text span s index))
  function : ∀ {c ps d}, header c = .found ps d → Proper (ps.map Prod.snd) →
    ∀ span body, P (.expr (.fn span (ps.map fun p => Text.toString p.2) body))

structure Paired (B : Cursor → Cursor → Prop) (P : Tree → Prop) (nested nested' : Phrases) : Prop where
  primary : InStep B (Expr.Kin P) nested.primary nested'.primary
  statement : InStep B (Stmt.Kin P) nested.statement nested'.statement

section Walk

variable {P : Tree → Prop} {nested nested' : Phrases} (lock : Lockstep B) (grants : Grants P)
  (paired : Paired B P nested nested')

section Plain

include lock

theorem pauseStep : InStep B Eq pause pause :=
  stepSame (stepSpaces lock) fun _ => stepIf (stepTry lock (by decide)) (stepSpaces lock) (stepPure rfl)

theorem comparatorStep {ws : List (String × Comparator)} (plain : ws.all fun w => unbroken w.1) :
    InStep B Eq (comparator ws) (comparator ws) := by
  induction ws with
  | nil => exact stepPure rfl
  | cons w ws ih =>
    obtain ⟨first,rest⟩ := Bool.and_eq_true_iff.mp plain
    exact stepIf (stepTry lock first) (stepSame (stepSpaces lock) fun _ => stepPure rfl) (ih rest)

theorem identifierStep : InStep B Eq identifier identifier := by
  intro c c' near
  obtain ⟨same,near'⟩ := lock.identifier near
  unfold identifier
  cases reading : c.readIdentifier with
  | mk name next =>
    cases reading' : c'.readIdentifier with
    | mk name' next' =>
      rw [reading,reading'] at same near'
      obtain rfl : name' = name := same
      by_cases none : name' = ""
      · subst none
        exact .absent
      · simp only
        exact .found rfl near'

theorem textIndexStep : InStep B (fun x x' => x'.2 = x.2) textIndex textIndex := by
  refine stepSame (stepWord lock (by decide)) fun _ => stepSame (stepSpaces lock) fun _ => stepHere fun _ _ =>
    stepSame (stepDigits lock) fun digits => stepSame (stepSpaces lock) fun _ => ?_
  split
  · exact stepAbsent
  · exact stepSame (stepWord lock (by decide)) fun _ => stepPure rfl

theorem quotedStep {c c'} (near : B c c') (solid : c.peek ≠ '\n') :
    (quotedText c).Alike B (fun e e' => ∃ span span' s index, e = .text span s index ∧ e' = .text span' s index) (quotedText c') := by
  obtain ⟨ends,inside⟩ := lock.text near solid
  unfold quotedText
  change Reading.Alike B _ ((if !c.readText.closed then _ else _ : Reader Expr) c.readText.next)
    ((if !c'.readText.closed then _ else _ : Reader Expr) c'.readText.next)
  rw [ends]
  by_cases closed : c.readText.closed
  · obtain ⟨content,near'⟩ := inside closed
    rw [content]
    simp only [closed]
    have picks : InStep B (fun x x' => x'.map Prod.snd = x.map Prod.snd) (orElse (some <$> textIndex) (return none))
        (orElse (some <$> textIndex) (return none)) :=
      stepOrElse (stepBind (textIndexStep lock) fun _ _ same => stepPure (congrArg some same)) (stepPure rfl)
    refine alikeBind (picks _ _ near') fun index index' same => ?_
    rcases index with _ | ⟨start,digits⟩ <;> rcases index' with _ | ⟨start',digits'⟩
    · exact stepHere fun _ _ => stepPure ⟨_,_,_,_,rfl,rfl⟩
    · contradiction
    · contradiction
    · obtain rfl : digits' = digits := Option.some.inj same
      dsimp only
      split
      · exact stepHere fun _ _ => stepPure ⟨_,_,_,_,rfl,rfl⟩
      · exact stepRefuse _ _ _ _
  · simp only [closed]
    exact .refused

theorem headerStep : InStep B (fun ps ps' => ps'.map Prod.snd = ps.map Prod.snd) header header := by
  have listed : InStep B (fun ps ps' => ps'.map Prod.snd = ps.map Prod.snd) (fuelled parameters) (fuelled parameters) := by
    refine stepLoop lock rfl fun n n' ih => stepHere fun _ _ => stepSame (stepName lock) fun name => ?_
    split
    · exact stepAbsent
    · refine stepSame (stepSpaces lock) fun _ => stepIf (stepTryAny lock (by decide)) ?_ (stepPure rfl)
      exact stepSame (stepSpaces lock) fun _ => stepBind ih fun _ _ same => stepPure (congrArg (name :: ·) same)
  refine stepSame (stepWord lock (by decide)) fun _ => stepSame (stepSpaces lock) fun _ =>
    stepSame (stepLooksAt lock (by decide)) fun empty => ?_
  have ending {ps ps' : List (Nat × Text)} (same : ps'.map Prod.snd = ps.map Prod.snd) :
      InStep B (fun ps ps' => ps'.map Prod.snd = ps.map Prod.snd) (word "に対し" >>= fun _ => Pure.pure ps)
        (word "に対し" >>= fun _ => Pure.pure ps') := stepSame (stepWord lock (by decide)) fun _ => stepPure same
  cases empty with
  | true => exact ending rfl
  | false => exact stepBind listed fun _ _ same => ending same

omit lock in
theorem checkStep {ps ps' : List (Nat × Text)} (same : ps'.map Prod.snd = ps.map Prod.snd) :
    InStep B (fun _ _ => Proper (ps.map Prod.snd)) (checkParameters ps) (checkParameters ps') := by
  intro c c' near
  rcases checkedProper ps c with ⟨proper,found⟩ | ⟨improper,e,refused⟩
  · obtain ⟨_,found'⟩ := (checkedProper ps' c').resolve_right fun other => other.1 (same ▸ proper)
    rw [found,found']
    exact .found proper near
  · obtain ⟨_,e',refused'⟩ := (checkedProper ps' c').resolve_left fun other => improper (same ▸ other.1)
    rw [refused,refused']
    exact .refused

theorem integerStep (plain : ∀ n, n.isPlain → P n) : InStep B (Expr.Kin P) integer integer :=
  stepHere fun _ _ => stepSame (stepDigits lock) fun _ => stepPeek lock (by decide) (stepRefuse _ _ _ _) <|
    stepHere fun _ _ => stepPure ⟨rfl,.intro (plain _ rfl) (by simp [Tree.children])⟩

theorem leaveStep (plain : ∀ n, n.isPlain → P n) : InStep B (Stmt.Kin P) leave leave :=
  stepHere fun _ _ => stepSame (stepOrElse (stepWord lock (by decide)) (stepWord lock (by decide))) fun _ =>
    stepHere fun _ _ => stepPure ⟨rfl,.intro (plain _ rfl) (by simp [Tree.children])⟩

end Plain

include lock paired

theorem expressionStep : InStep B (Expr.Kin P) nested.expression nested'.expression := by
  refine stepBind paired.primary fun e e' same c c' near => ?_
  have operator : Cursor.isInfixOperator c'.skipSpaces.peek = Cursor.isInfixOperator c.skipSpaces.peek := by
    rcases lock.peek (lock.spaces near) with same | ⟨newline,back⟩
    · rw [same]
    · rw [newline,back]
      rfl
  dsimp only
  rw [operator]
  split
  · exact .refused
  · exact .found same near

theorem requiredStep (what : Expectation) :
    InStep B (Expr.Kin P) (require what nested.expression) (require what nested'.expression) :=
  stepRequire what (expressionStep lock paired)

include grants

theorem blockStep : InStep B (Block.Kin P) nested.block nested'.block := by
  refine stepHere fun start start' => stepSame (stepRequire _ (stepWord lock (by decide))) fun _ =>
    stepBind (S := bodyKin P) (stepLoop lock rfl fun n n' ih => ?_) fun _ _ body => stepHere fun _ _ =>
      stepPure ⟨congrArg (Block.mk nowhere) body.1,.intro (grants.plain _ rfl) body.2⟩
  exact stepSame (stepBlank lock) fun _ => stepIf (stepTry lock (by decide)) (stepPure ⟨rfl,by simp⟩) <|
    stepIf (stepAtEnd lock) (stepRefuse _ _ _ _) <| stepBind paired.statement fun _ _ first => stepBind ih fun _ _ rest =>
    stepPure ⟨by rw [bodyBare,bodyBare,first.1,rest.1],List.forall_mem_cons.mpr ⟨first.2,rest.2⟩⟩

theorem alternativeStep : InStep B (otherwiseKin P) nested.alternative nested'.alternative := by
  refine stepOrElse ?_ (stepPure ⟨rfl,by simp⟩)
  exact stepSame (stepBlank lock) fun _ => stepSame (stepWord lock (by decide)) fun _ => stepSame (pauseStep lock) fun _ =>
    stepBind (blockStep lock grants paired) fun _ _ no => stepPure ⟨congrArg some no.1,by simpa using no.2⟩

omit grants in
theorem indicesStep : InStep B (allKin P) (fuelled nested.indices) (fuelled nested'.indices) := by
  refine stepLoop lock rfl fun n n' ih => stepIf (stepTry lock (by decide)) ?_ (stepPure kinNone)
  exact stepSame (stepSpaces lock) fun _ => stepBind (requiredStep lock paired _) fun _ _ first =>
    stepSame (stepSpaces lock) fun _ => stepSame (stepRequire _ (stepWord lock (by decide))) fun _ =>
    stepBind ih fun _ _ rest => stepPure (kinCons first rest)

omit grants in
theorem itemsStep {close} (plain : unbroken close) : InStep B (allKin P) (nested.itemsUpTo close) (nested'.itemsUpTo close) := by
  refine stepSame (stepBlank lock) fun _ => stepIf (stepTry lock plain) (stepPure kinNone) <| stepLoop lock rfl fun n n' ih =>
    stepBind (requiredStep lock paired _) fun _ _ first => stepSame (stepBlank lock) fun _ =>
    stepIf (stepTryAny lock (by decide)) ?_ ?_
  · exact stepSame (stepBlank lock) fun _ => stepBind ih fun _ _ rest => stepPure (kinCons first rest)
  · exact stepIf (stepTry lock plain) (stepPure (kinCons first kinNone)) (stepExpecting _ _)

theorem conditionalStep : InStep B (Stmt.Kin P) nested.conditional nested'.conditional := by
  have operand := expressionStep lock paired
  refine stepHere fun _ _ => stepSame (stepWord lock (by decide)) fun _ => stepSame (stepSpaces lock) fun _ =>
    stepBind operand fun _ _ left => stepSame (stepSpaces lock) fun _ => stepSame (stepWord lock (by decide)) fun _ =>
    stepSame (stepSpaces lock) fun _ => stepBind operand fun _ _ right => stepSame (stepSpaces lock) fun _ =>
    stepSame (comparatorStep lock (by decide)) fun _ => stepSame (stepWord lock (by decide)) fun _ =>
    stepSame (pauseStep lock) fun _ => stepBind (blockStep lock grants paired) fun _ _ yes =>
    stepBind (alternativeStep lock grants paired) fun _ _ no => stepHere fun _ _ =>
    stepPure ⟨?_,.intro (grants.plain _ rfl) ?_⟩
  · simp only [Stmt.bare,left.1,right.1,yes.1,no.1]
  · simpa [Tree.children] using ⟨left.2,right.2,yes.2,by simpa using no.2⟩

theorem loopStep : InStep B (Stmt.Kin P) nested.loop nested'.loop := by
  refine stepHere fun _ _ => stepBind (expressionStep lock paired) fun _ _ count => stepSame (stepSpaces lock) fun _ =>
    stepSame (stepWord lock (by decide)) fun _ => stepSame (stepSpaces lock) fun _ =>
    stepSame (stepOrElse (stepWord lock (by decide)) (stepWord lock (by decide))) fun _ => stepSame (pauseStep lock) fun _ =>
    stepBind (blockStep lock grants paired) fun _ _ body => stepHere fun _ _ =>
    stepPure ⟨?_,.intro (grants.plain _ rfl) ?_⟩
  · simp only [Stmt.bare,count.1,body.1]
  · simpa [Tree.children] using ⟨count.2,body.2⟩

theorem doctestStep : InStep B (Stmt.Kin P) nested.doctest nested'.doctest := by
  refine stepHere fun _ _ => stepSame (stepWord lock (by decide)) fun _ => stepSame (stepSpaces lock) fun _ =>
    stepBind (requiredStep lock paired _) fun _ _ value => stepSame (stepEnd lock) fun _ => stepLine lock _ <|
    stepSame (stepSpaces lock) fun _ => stepBind (requiredStep lock paired _) fun _ _ expected => stepHere fun _ _ =>
    stepPure ⟨?_,.intro (grants.plain _ rfl) ?_⟩
  · simp only [Stmt.bare,value.1,expected.1]
  · simpa [Tree.children] using ⟨value.2,expected.2⟩

theorem answerStep : InStep B (Stmt.Kin P) nested.answer nested'.answer := by
  refine stepHere fun _ _ => stepBind (expressionStep lock paired) fun _ _ value => stepSame (stepSpaces lock) fun _ =>
    stepSame (stepWord lock (by decide)) fun _ => stepHere fun _ _ => stepPure ⟨?_,.intro (grants.plain _ rfl) ?_⟩
  · simp only [Stmt.bare,value.1]
  · simpa [Tree.children] using value.2

theorem observeStep : InStep B (Stmt.Kin P) nested.observe nested'.observe := by
  refine stepHere fun _ _ => stepBind (expressionStep lock paired) fun _ _ value => stepHere fun _ _ =>
    stepPure ⟨?_,.intro (grants.plain _ rfl) ?_⟩
  · simp only [Stmt.bare,value.1]
  · simpa [Tree.children] using value.2

theorem targetStep : InStep B (Place.Kin P) nested.target nested'.target := by
  refine stepHere fun _ _ => stepBind (stepFound (identifierStep lock)) fun name name' ⟨same,_,_,found⟩ => ?_
  subst same
  exact stepPeek lock (by decide) stepAbsent <| stepBind (indicesStep lock paired) fun _ _ indices => stepHere fun _ _ =>
    stepPure ⟨congrArg (Place.mk nowhere name) indices.1,.intro (grants.reference found _ _) indices.2⟩

theorem onTargetStep : InStep B (Stmt.Kin P) nested.onTarget nested'.onTarget := by
  have stepped {p p' : Place} (target : p.Kin P p') (span span' : Span) :
      (Stmt.increment span p).Kin P (.increment span' p') ∧ (Stmt.decrement span p).Kin P (.decrement span' p') := by
    refine ⟨⟨?_,.intro (grants.plain _ rfl) ?_⟩,?_,.intro (grants.plain _ rfl) ?_⟩
    · simp only [Stmt.bare,target.1]
    · simpa [Tree.children] using target.2
    · simp only [Stmt.bare,target.1]
    · simpa [Tree.children] using target.2
  have given {p p' : Place} {e e' : Expr} (target : p.Kin P p') (value : e.Kin P e') (span span' : Span) :
      (Stmt.append span p e).Kin P (.append span' p' e') ∧ (Stmt.assign span p e).Kin P (.assign span' p' e') := by
    refine ⟨⟨?_,.intro (grants.plain _ rfl) ?_⟩,?_,.intro (grants.plain _ rfl) ?_⟩
    · simp only [Stmt.bare,target.1,value.1]
    · simpa [Tree.children] using ⟨target.2,value.2⟩
    · simp only [Stmt.bare,target.1,value.1]
    · simpa [Tree.children] using ⟨target.2,value.2⟩
  refine stepHere fun _ _ => stepBind (targetStep lock grants paired) fun _ _ target => stepSame (stepSpaces lock) fun _ =>
    stepIf (stepTry lock (by decide)) (stepHere fun _ _ => stepPure (stepped target _ _).1) <|
    stepIf (stepTry lock (by decide)) (stepHere fun _ _ => stepPure (stepped target _ _).2) <|
    stepIf (stepTry lock (by decide)) ?_ <| stepIf (stepTry lock (by decide)) ?_ ?_
  · exact stepSame (stepSpaces lock) fun _ => stepBind (requiredStep lock paired _) fun _ _ value =>
      stepSame (stepSpaces lock) fun _ => stepSame (stepRequire _ (stepWord lock (by decide))) fun _ =>
      stepHere fun _ _ => stepPure (given target value _ _).1
  · exact stepSame (stepSpaces lock) fun _ => stepBind (requiredStep lock paired _) fun _ _ value =>
      stepHere fun _ _ => stepPure (given target value _ _).2
  · exact stepSame (stepWord lock (by decide)) fun _ => stepSame (stepSpaces lock) fun _ =>
      stepBind (expressionStep lock paired) fun _ _ value => stepSame (stepSpaces lock) fun _ =>
      stepSame (stepWord lock (by decide)) fun _ => stepHere fun _ _ => stepPure (given target value _ _).2

theorem oneStatementStep : InStep B (Stmt.Kin P) nested.oneStatement nested'.oneStatement := by
  refine stepHere fun _ _ => stepBind (stepOrElse ?_ (stepRefuse _ _ _ _)) fun _ _ same =>
    stepSame (stepEnd lock) fun _ => stepPure same
  exact stepOrElse (conditionalStep lock grants paired) <| stepOrElse (loopStep lock grants paired) <|
    stepOrElse (doctestStep lock grants paired) <| stepOrElse (onTargetStep lock grants paired) <|
    stepOrElse (answerStep lock grants paired) <| stepOrElse (leaveStep lock grants.plain) <|
    stepOrElse (observeStep lock grants paired) stepAbsent

theorem functionStep : InStep B (Expr.Kin P) nested.function nested'.function := by
  rw [functionSplit,functionSplit]
  refine stepHere fun _ _ => stepBind (stepFound (headerStep lock)) fun ps ps' ⟨same,_,_,found⟩ =>
    stepBind (checkStep same) fun _ _ proper => stepSame (stepTry lock (by decide)) fun _ =>
    stepSame (pauseStep lock) fun _ => stepBind (blockStep lock grants paired) fun _ _ body => stepHere fun _ _ =>
    stepPure ⟨?_,.intro (grants.function found proper _ _) ?_⟩
  · have params : (ps'.map fun p => Text.toString p.2) = ps.map fun p => Text.toString p.2 := by
      simpa [Function.comp_def] using congrArg (List.map Text.toString) same
    rw [Expr.bare,Expr.bare,params,body.1]
  · simpa [Tree.children] using body.2

theorem namedStep : InStep B (Expr.Kin P) nested.named nested'.named := by
  refine stepHere fun _ _ => stepBind (stepFound (identifierStep lock)) fun name name' ⟨same,_,_,found⟩ => ?_
  subst same
  refine stepIf (stepTry lock (by decide)) ?_ ?_
  · exact stepBind (itemsStep lock paired (by decide)) fun _ _ args => stepHere fun _ _ =>
      stepPure ⟨congrArg (Expr.call nowhere name) args.1,.intro (grants.call found _ _) args.2⟩
  · exact stepBind (indicesStep lock paired) fun _ _ indices => stepHere fun _ _ =>
      stepPure ⟨congrArg (fun is => Expr.var (.mk nowhere name is)) indices.1,.intro (grants.reference found _ _) indices.2⟩

theorem signedStep {c c'} (near : B c c') (solid : c.peek ≠ '\n') :
    (nested.length c).Alike B (Expr.Kin P) (nested'.length c') ∧
    (nested.negation c).Alike B (Expr.Kin P) (nested'.negation c') ∧
    (nested.sequence c).Alike B (Expr.Kin P) (nested'.sequence c') ∧ (nullMark c).Alike B (Expr.Kin P) (nullMark c') := by
  refine ⟨?_,?_,?_,?_⟩
  · refine alikeAdvance lock (fun _ _ => stepSame (stepSpaces lock) fun _ => stepBind (requiredStep lock paired _)
      fun _ _ operand => stepSame (stepSpaces lock) fun _ => stepSame (stepRequire _ (stepWord lock (by decide))) fun _ =>
      stepHere fun _ _ => stepPure ⟨?_,.intro (grants.plain _ rfl) ?_⟩) near solid
    · rw [Expr.bare,Expr.bare,operand.1]
    · simpa [Tree.children] using operand.2
  · refine alikeAdvance lock (fun _ _ => stepSame (stepSpaces lock) fun _ => stepBind paired.primary
      fun _ _ operand => stepHere fun _ _ => stepPure ⟨?_,.intro (grants.plain _ rfl) ?_⟩) near solid
    · rw [Expr.bare,Expr.bare,operand.1]
    · simpa [Tree.children] using operand.2
  · exact alikeAdvance lock (fun _ _ => stepBind (itemsStep lock paired (by decide)) fun _ _ items =>
      stepHere fun _ _ => stepPure ⟨congrArg (Expr.seq nowhere) items.1,.intro (grants.plain _ rfl) items.2⟩) near solid
  · exact alikeAdvance lock (fun _ _ => stepHere fun _ _ =>
      stepPure ⟨rfl,.intro (grants.plain _ rfl) (by simp [Tree.children])⟩) near solid

theorem onePrimaryStep : InStep B (Expr.Kin P) nested.onePrimary nested'.onePrimary := by
  intro c c' near
  have names := stepOrElse (functionStep lock grants paired) (namedStep lock grants paired) c c' near
  unfold onePrimary
  change Reading.Alike B _ ((if '0' ≤ c.peek && c.peek ≤ '9' then _ else _ : Reader Expr) c)
    ((if '0' ≤ c'.peek && c'.peek ≤ '9' then _ else _ : Reader Expr) c')
  rcases lock.peek near with same | ⟨newline,back⟩
  · rw [same]
    by_cases line : c.peek = '\n'
    · rw [line]
      exact names
    · obtain ⟨length,negation,sequence,null⟩ := signedStep lock grants paired near line
      split_ifs
      · exact integerStep lock grants.plain c c' near
      · refine (quotedStep lock near line).imp fun e e' _ found ⟨span,span',s,index,text,text'⟩ => ?_
        subst text text'
        exact ⟨rfl,.intro (grants.quoted found) (by simp [Tree.children])⟩
      · exact length
      · exact negation
      · exact sequence
      · exact null
      · exact names
  · rw [newline,back]
    exact names

omit paired in
theorem pairedUpTo {n n'} (more : n ≤ n') : Paired B P (upTo n) (upTo n') := by
  induction n generalizing n' with
  | zero => exact ⟨stepUnfinished,stepUnfinished⟩
  | succ n ih =>
    obtain ⟨k,rfl⟩ := Nat.exists_eq_add_of_le' more
    have inner := ih (Nat.le_add_left n k)
    exact ⟨onePrimaryStep lock grants inner,oneStatementStep lock grants inner⟩

end Walk
end Phrases

namespace Parse

open Phrases

variable {P : Tree → Prop}

theorem runStep {phrases phrases' : Phrases} (lock : Lockstep B) (paired : Paired B P phrases phrases') (source source' : Text)
    {n n' c c'} (more : n ≤ n') (near : B c c') (finished : (run phrases false source n c).finished) :
    ((run phrases' false source' n' c').errors = [] ↔ (run phrases false source n c).errors = []) ∧
      bodyBare (run phrases' false source' n' c').body = bodyBare (run phrases false source n c).body := by
  induction n generalizing n' c c' with
  | zero => simp [run] at finished
  | succ n ih =>
    obtain ⟨k,rfl⟩ := Nat.exists_eq_add_of_le' more
    have both := paired.statement _ _ (lock.blank near)
    rw [← Nat.add_assoc]
    simp only [run,lock.atEnd (lock.blank near)] at finished ⊢
    by_cases ended : c.skipBlank.atEnd
    · simp [ended]
    · simp only [ended] at finished ⊢
      generalize phrases.statement c.skipBlank = x at both finished
      generalize phrases'.statement c'.skipBlank = x' at both
      cases both with
      | found same near =>
        obtain ⟨errors,bodies⟩ := ih (Nat.le_add_left n k) near finished
        refine ⟨errors,?_⟩
        show _ :: _ = _ :: _
        rw [same.1,bodies]
      | absent => exact ⟨Iff.rfl,rfl⟩
      | refused => simp
      | unfinished => simp at finished

theorem relSame {β : Type} (x : Option β) : Option.Rel Eq x x := by
  cases x with
  | none => exact .none
  | some b => exact .some rfl

theorem lockstepSame : Lockstep Eq where
  spaces same := same ▸ rfl
  blank same := same ▸ rfl
  word _ same := same ▸ relSame _
  newline same := same ▸ relSame _
  peek same := .inl (same ▸ rfl)
  advance same _ := same ▸ rfl
  digits same := same ▸ ⟨rfl,rfl⟩
  identifier same := same ▸ ⟨rfl,rfl⟩
  name same := same ▸ ⟨rfl,rfl⟩
  text same _ := same ▸ ⟨rfl,fun _ => ⟨rfl,rfl⟩⟩
  ended same := same ▸ rfl
  atEnd same := same ▸ rfl
  length same := same ▸ Nat.le_refl _

theorem statementAll (grants : Grants P) {depth c s d} (found : (upTo depth).statement c = .found s d) : (Tree.stmt s).All P := by
  have both := (pairedUpTo lockstepSame grants (Nat.le_refl depth)).statement c c rfl
  rw [found] at both
  cases both with
  | found same _ => exact same.2

theorem runAll (grants : Grants P) (depth : Nat) (recover : Bool) (source : Text) (n : Nat) (c : Cursor) :
    ∀ s ∈ (run (upTo depth) recover source n c).body, (Tree.stmt s).All P := by
  induction n generalizing c with
  | zero => exact List.forall_mem_nil _
  | succ n ih =>
    simp only [run]
    split
    · exact List.forall_mem_nil _
    · split
      · rename_i s next found
        exact List.forall_mem_cons.mpr ⟨statementAll grants found,ih next⟩
      · split
        · exact ih _
        · exact List.forall_mem_nil _
      · exact List.forall_mem_nil _
      · exact List.forall_mem_nil _

theorem programAll (grants : Grants P) (recover : Bool) (source : Text) :
    ∀ s ∈ (ofNormal recover source).program.body, (Tree.stmt s).All P := runAll grants _ recover source _ _

end Parse

end Terakoya
