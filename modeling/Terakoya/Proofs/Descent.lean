import Terakoya.Proofs.Recovery
import Terakoya.Proofs.Splice

/-! Why reading ends. A phrase calls for the phrases in it, and a loop for its next round. What is read in one
place depends on such calls only further on in the text, except that a statement may begin with an expression
of its own. So the bounds on nesting and on rounds can be dropped: the phrases that are read without any bound
are those that the grammar asks for, and they always come to an end. -/
namespace Terakoya

open Reader

variable {α β : Type}

namespace Cursor

def Later (c d : Cursor) : Prop := ∃ u, u ≠ [] ∧ c.Over u d

variable {c d e : Cursor}

theorem laterAhead (later : c.Later d) : c.Ahead d := later.imp fun _ => And.right

theorem laterOfShorter (ahead : c.Ahead d) (shorter : d.rest.length < c.rest.length) : c.Later d := by
  obtain ⟨u,across⟩ := ahead
  refine ⟨u,?_,across⟩
  rintro rfl
  rw [across.rest] at shorter
  exact absurd shorter (Nat.lt_irrefl _)

theorem laterShorter (later : c.Later d) : d.rest.length < c.rest.length := by
  obtain ⟨u,some,across⟩ := later
  rw [across.rest,List.length_append]
  have long := List.length_pos_iff.mpr some
  omega

theorem laterPos (later : c.Later d) : c.pos < d.pos := by
  obtain ⟨u,some,across⟩ := later
  obtain ⟨g,u,rfl⟩ := List.exists_cons_of_ne_nil some
  rw [across.pos,Text.width]
  have wide := g.widthPos
  omega

theorem laterTrans (later : c.Later d) (ahead : d.Ahead e) : c.Later e :=
  laterOfShorter (aheadTrans (laterAhead later) ahead) (Nat.lt_of_le_of_lt (aheadLength ahead) (laterShorter later))

theorem aheadLater (ahead : c.Ahead d) (later : d.Later e) : c.Later e :=
  laterOfShorter (aheadTrans ahead (laterAhead later)) (Nat.lt_of_lt_of_le (laterShorter later) (aheadLength ahead))

end Cursor

structure Region where
  holds : Cursor → Prop
  onward : ∀ {c d}, holds c → c.Ahead d → holds d

namespace Region

def beyond (P : Region) : Region where
  holds c := ∀ d, c.Later d → P.holds d
  onward inside ahead e later := inside e (Cursor.aheadLater ahead later)

def both (P Q : Region) : Region where
  holds c := P.holds c ∧ Q.holds c
  onward inside ahead := ⟨P.onward inside.1 ahead,Q.onward inside.2 ahead⟩

def from' (c : Cursor) : Region := ⟨c.Ahead,Cursor.aheadTrans⟩

def after (c : Cursor) : Region := ⟨c.Later,Cursor.laterTrans⟩

def deep (extra depth : Nat) : Region where
  holds c := 2 * c.rest.length + extra < depth
  onward short ahead := by
    have atMost := Cursor.aheadLength ahead
    omega

end Region

def Reading.isFinished : Reading α → Bool
  | unfinished => false
  | _ => true

namespace Reader

def Agrees (P : Region) (r r' : Reader α) : Prop := ∀ c, P.holds c → r c = r' c

variable {P Q K : Region} {r r' s s' : Reader α} {f f' : α → Reader β} {c d : Cursor}

theorem agreesMono (less : ∀ c, K.holds c → P.holds c) (agrees : Agrees P r r') : Agrees K r r' :=
  fun c inside => agrees c (less c inside)

theorem agreesBind (moves : ∀ {base}, Moves base 0 r) (first : Agrees P r r') (next : ∀ a, Agrees P (f a) (f' a)) :
    Agrees P (r >>= f) (r' >>= f') := by
  intro c inside
  simp only [Bind.bind,Reader.bind]
  rw [← first c inside]
  cases result : r c with
  | found a d => exact next a d (P.onward inside (movesFound moves (Cursor.aheadRefl c) result))
  | _ => rfl

theorem agreesFirst (first : Agrees P r r') (f : α → Reader β) : Agrees P (r >>= f) (r' >>= f) := by
  intro c inside
  simp only [Bind.bind,Reader.bind]
  rw [← first c inside]

theorem agreesThen (moves : ∀ {base}, Moves base 0 r) (next : ∀ a, Agrees P (f a) (f' a)) :
    Agrees P (r >>= f) (r >>= f') := agreesBind moves (fun _ _ => rfl) next

theorem agreesSame : Agrees P r r := fun _ _ => rfl

theorem agreesIf {asks : Reader Bool} (moves : ∀ {base}, Moves base 0 asks) (yes : Agrees P r r') (no : Agrees P s s') :
    Agrees P (asks >>= fun there => if there then r else s) (asks >>= fun there => if there then r' else s') := by
  refine agreesThen moves fun there => ?_
  cases there with
  | true => exact yes
  | false => exact no

theorem agreesHere {f f' : Nat → Reader β} (next : ∀ n, Agrees P (f n) (f' n)) : Agrees P (here >>= f) (here >>= f') :=
  agreesThen (fun c _ => Cursor.aheadRefl c) next

theorem agreesBehind (eats : ∀ {base}, Eats base 0 r) (first : Agrees P r r') (next : ∀ a, Agrees Q (f a) (f' a)) :
    Agrees (P.both Q.beyond) (r >>= f) (r' >>= f') := by
  intro c inside
  simp only [Bind.bind,Reader.bind]
  rw [← first c inside.1]
  cases result : r c with
  | found a d =>
    have eats : Eats c 0 r := eats
    have ahead := movesFound eats.1 (Cursor.aheadRefl c) result
    have shorter := eats.2 c (Cursor.aheadRefl c) a d result
    exact next a d (inside.2 d (Cursor.laterOfShorter ahead shorter))
  | _ => rfl

theorem agreesAfter (eats : ∀ {base}, Eats base 0 r) (next : ∀ a, Agrees P (f a) (f' a)) :
    Agrees P.beyond (r >>= f) (r >>= f') :=
  fun c inside => agreesBehind (P := P.beyond) eats (fun _ _ => rfl) next c ⟨inside,inside⟩

theorem agreesOrElse (first : Agrees P r r') (second : Agrees P s s') : Agrees P (orElse r s) (orElse r' s') := by
  intro c inside
  simp only [orElse]
  rw [← first c inside,← second c inside]

theorem agreesRequire (what : Expectation) (agrees : Agrees P r r') : Agrees P (require what r) (require what r') := by
  intro c inside
  simp only [require]
  rw [← agrees c inside]

theorem agreesFuelled {loop loop' : Nat → Reader α} (rounds : ∀ n, Agrees P (loop n) (loop' n)) :
    Agrees P (fuelled loop) (fuelled loop') := fun c inside => rounds (c.rest.length + 1) c inside

def barred (r : Reader α) (d : Cursor) : Reader α := fun c => if c = d then .unfinished else r c

/-- What is read in one place calls for what is read in another one: it ends, but not without the other. -/
def Calls (F : Reader α → Reader β) (r : Reader α) (c d : Cursor) : Prop :=
  (F r c).isFinished = true ∧ (F (r.barred d) c).isFinished = false

theorem callsWithin {F : Reader α → Reader β} (guarded : ∀ r', Agrees P r r' → F r c = F r' c) (calls : Calls F r c d) :
    P.holds d := by
  by_contra outside
  have same : F r c = F (r.barred d) c := guarded _ fun e inside => by
    have other : e ≠ d := fun same => outside (same ▸ inside)
    exact (if_neg other).symm
  exact absurd (calls.1.symm.trans ((congrArg _ same).trans calls.2)) (by decide)

structure Loops (round : Reader α → Reader α) (loop : Reader α) : Prop where
  again : loop = round loop
  ends : ∀ c, loop c ≠ .unfinished
  onward : ∀ c d, Calls round loop c d → c.Later d

section Loop

variable {round : Reader α → Reader α} {loop : Nat → Reader α} (unroll : ∀ n, loop (n + 1) = round (loop n))
  (guarded : ∀ c r r', Agrees (.after c) r r' → round r c = round r' c)

include unroll guarded

theorem roundsEnough (n m : Nat) (c : Cursor) (enough : c.rest.length < n) (enough' : c.rest.length < m) :
    loop n c = loop m c := by
  induction n generalizing m c with
  | zero => omega
  | succ n ih =>
    cases m with
    | zero => omega
    | succ m =>
      rw [unroll,unroll]
      refine guarded c _ _ fun d later => ih m d ?_ ?_
      · have shorter := Cursor.laterShorter later
        omega
      · have shorter := Cursor.laterShorter later
        omega

theorem loopsFuelled (ends : ∀ c, fuelled loop c ≠ .unfinished) : Loops round (fuelled loop) := by
  refine ⟨funext fun c => ?_,ends,fun c d calls => callsWithin (P := .after c) (fun r' agrees => guarded c _ _ agrees) calls⟩
  show loop (c.rest.length + 1) c = _
  rw [unroll]
  refine guarded c _ _ fun d later => roundsEnough unroll guarded _ _ d ?_ (Nat.lt_succ_self _)
  exact Cursor.laterShorter later

end Loop

end Reader

namespace Phrases

structure Agree (P S : Region) (nested nested' : Phrases) : Prop where
  sized : nested.Sized 0 0
  primary : Agrees P nested.primary nested'.primary
  statement : Agrees S nested.statement nested'.statement

def blockRound (nested : Phrases) (start : Nat) (again : Reader (List Stmt)) : Reader (List Stmt) := do
  blank
  nested.round start again

def listRound (nested : Phrases) (close : String) (again : Reader (List Expr)) : Reader (List Expr) := do
  let e ← require .expression nested.expression
  blank
  if ← tryWords [",","、"] then
    blank
    let rest ← again
    return e :: rest
  else if ← tryWord close then return [e]
  else expecting (.commaOr close)

def indexRound (nested : Phrases) (again : Reader (List Expr)) : Reader (List Expr) := do
  if ← tryWord "[" then
    spaces
    let i ← require .expression nested.expression
    spaces
    require .closeBracket (word "]")
    let rest ← again
    return i :: rest
  else return []

def parameterRound (again : Reader (List (Nat × Text))) : Reader (List (Nat × Text)) := do
  let start ← here
  let name ← parameterName
  spaces
  if ← tryWords [",","、"] then
    spaces
    let rest ← again
    return (start,name) :: rest
  else return [(start,name)]

theorem agreesParameterRound {T : Region} {again again'}
    (further : Agrees T again again') : Agrees T.beyond (parameterRound again) (parameterRound again') := by
  exact agreesHere fun _ => agreesAfter eatsParameterName fun _ => agreesThen movesSpaces fun _ =>
    agreesIf (movesTryAny _) (agreesThen movesSpaces fun _ => agreesFirst further _) agreesSame

section Agree

variable {P S T K : Region} {nested nested' : Phrases} (agree : nested.Agree P S nested')

include agree

theorem agreesExpression : Agrees P nested.expression nested'.expression :=
  agreesBind (agree.sized.primary _).1 agree.primary fun _ _ _ => rfl

theorem agreesRequired (what : Expectation) :
    Agrees P (require what nested.expression) (require what nested'.expression) :=
  agreesRequire what (agreesExpression agree)

theorem agreesBlockRound {again again'} (start : Nat) (further : Agrees T again again') :
    Agrees (S.both T.beyond) (nested.blockRound start again) (nested'.blockRound start again') := by
  refine agreesThen movesBlank fun _ => agreesIf (movesTry _) agreesSame <|
    agreesIf (fun c _ => Cursor.aheadRefl c) agreesSame ?_
  exact agreesBehind (agree.sized.statement _) agree.statement fun _ => agreesFirst further _

theorem agreesListRound {again again'} (close : String) (further : Agrees T again again') :
    Agrees (P.both T.beyond) (nested.listRound close again) (nested'.listRound close again') := by
  exact agreesBehind (eatsRequired agree.sized _) (agreesRequired agree _) fun _ => agreesThen movesBlank fun _ =>
    agreesIf (movesTryAny _) (agreesThen movesBlank fun _ => agreesFirst further _) agreesSame

theorem agreesIndexRound {again again'} (further : Agrees T again again') :
    Agrees (P.both T.beyond) (nested.indexRound again) (nested'.indexRound again') := by
  refine agreesIf (movesTry _) ?_ agreesSame
  exact agreesThen movesSpaces fun _ => agreesBehind (eatsRequired agree.sized _) (agreesRequired agree _) fun _ =>
    agreesThen movesSpaces fun _ => agreesThen (movesRequire _ (movesWord _)) fun _ => agreesFirst further _

omit agree in
theorem beyondOnward (P : Region) (c : Cursor) (inside : P.holds c) : (P.both P.beyond).holds c :=
  ⟨inside,fun _ later => P.onward inside (Cursor.laterAhead later)⟩

theorem agreesStatements (start n : Nat) : Agrees S (nested.statements start n) (nested'.statements start n) := by
  induction n with
  | zero => exact agreesSame
  | succ n ih => exact agreesMono (beyondOnward S) (agreesBlockRound agree start ih)

theorem agreesItems (close : String) (n : Nat) : Agrees P (nested.items close n) (nested'.items close n) := by
  induction n with
  | zero => exact agreesSame
  | succ n ih => exact agreesMono (beyondOnward P) (agreesListRound agree close ih)

theorem agreesIndices (n : Nat) : Agrees P (nested.indices n) (nested'.indices n) := by
  induction n with
  | zero => exact agreesSame
  | succ n ih => exact agreesMono (beyondOnward P) (agreesIndexRound agree ih)

theorem agreesBlock : Agrees S.beyond nested.block nested'.block := by
  refine agreesHere fun start => agreesAfter (eatsRequire _ (eatsWord (by decide))) fun _ => ?_
  exact agreesFirst (agreesFuelled (agreesStatements agree start)) _

theorem agreesAlternative : Agrees S.beyond nested.alternative nested'.alternative := by
  refine agreesOrElse ?_ fun _ _ => rfl
  exact agreesThen movesBlank fun _ => agreesThen (movesWord _) fun _ => agreesThen movesPause fun _ =>
    agreesFirst (agreesBlock agree) _

theorem agreesItemsUpTo (close : String) : Agrees P (nested.itemsUpTo close) (nested'.itemsUpTo close) :=
  agreesThen movesBlank fun _ => agreesIf (movesTry _) agreesSame (agreesFuelled (agreesItems agree close))

/-! Statements -/

section Statement

variable (expressions : ∀ c, K.holds c → P.holds c) (blocks : ∀ c, K.holds c → S.beyond.holds c)

include expressions

theorem agreesValue : Agrees K nested.expression nested'.expression := agreesMono expressions (agreesExpression agree)

theorem agreesRequiredValue (what : Expectation) :
    Agrees K (require what nested.expression) (require what nested'.expression) :=
  agreesRequire what (agreesValue agree expressions)

theorem agreesTarget : Agrees K nested.target nested'.target := by
  refine agreesHere fun _ => agreesThen eatsIdentifier.1 fun _ => agreesThen movesPeek fun next => ?_
  split
  · exact agreesSame
  · exact agreesFirst (agreesMono expressions (agreesFuelled (agreesIndices agree))) _

theorem agreesDoctest : Agrees K nested.doctest nested'.doctest :=
  agreesHere fun _ => agreesThen (movesWord _) fun _ => agreesThen movesSpaces fun _ =>
    agreesBind (eatsRequired agree.sized _).1 (agreesRequiredValue agree expressions _) fun _ =>
    agreesThen movesStatementEnd fun _ => agreesThen movesSpaces fun _ =>
    agreesThen (movesRequire _ (movesWord _)) fun _ => agreesThen movesSpaces fun _ =>
    agreesFirst (agreesRequiredValue agree expressions _) _

theorem agreesOnTarget : Agrees K nested.onTarget nested'.onTarget := by
  refine agreesHere fun _ => agreesBind (eatsTarget agree.sized (Nat.le_refl 0)).1 (agreesTarget agree expressions) fun t =>
    agreesThen movesSpaces fun _ => agreesIf (movesTry _) agreesSame <| agreesIf (movesTry _) agreesSame <|
    agreesIf (movesTry _) ?_ <| agreesIf (movesTry _) ?_ ?_
  · exact agreesThen movesSpaces fun _ => agreesFirst (agreesRequiredValue agree expressions _) _
  · exact agreesThen movesSpaces fun _ => agreesFirst (agreesRequiredValue agree expressions _) _
  · exact agreesThen (movesWord _) fun _ => agreesThen movesSpaces fun _ => agreesFirst (agreesValue agree expressions) _

theorem agreesAnswer : Agrees K nested.answer nested'.answer :=
  agreesHere fun _ => agreesFirst (agreesValue agree expressions) _

theorem agreesObserve : Agrees K nested.observe nested'.observe :=
  agreesHere fun _ => agreesFirst (agreesValue agree expressions) _

include blocks

theorem agreesConditional : Agrees K nested.conditional nested'.conditional :=
  agreesHere fun _ => agreesThen (movesWord _) fun _ => agreesThen movesSpaces fun _ =>
    agreesBind (eatsExpression agree.sized).1 (agreesValue agree expressions) fun _ => agreesThen movesSpaces fun _ =>
    agreesThen (movesWord _) fun _ => agreesThen movesSpaces fun _ =>
    agreesBind (eatsExpression agree.sized).1 (agreesValue agree expressions) fun _ => agreesThen movesSpaces fun _ =>
    agreesThen (movesComparator _) fun _ => agreesThen (movesWord _) fun _ => agreesThen movesPause fun _ =>
    agreesBind (movesMono (Nat.zero_le _) (eatsBlock agree.sized).1) (agreesMono blocks (agreesBlock agree)) fun _ =>
    agreesFirst (agreesMono blocks (agreesAlternative agree)) _

theorem agreesLoop : Agrees K nested.loop nested'.loop :=
  agreesHere fun _ => agreesBind (eatsExpression agree.sized).1 (agreesValue agree expressions) fun _ =>
    agreesThen movesSpaces fun _ => agreesThen (movesWord _) fun _ => agreesThen movesSpaces fun _ =>
    agreesThen (movesOrElse (movesWord _) (movesWord _)) fun _ => agreesThen movesPause fun _ =>
    agreesFirst (agreesMono blocks (agreesBlock agree)) _

theorem agreesOneStatement : Agrees K nested.oneStatement nested'.oneStatement := by
  refine agreesHere fun _ => agreesFirst (agreesOrElse ?_ fun _ _ => rfl) _
  exact agreesOrElse (agreesConditional agree expressions blocks) <| agreesOrElse (agreesLoop agree expressions blocks) <|
    agreesOrElse (agreesDoctest agree expressions) <| agreesOrElse (agreesOnTarget agree expressions) <|
    agreesOrElse (agreesAnswer agree expressions) <| agreesOrElse (fun _ _ => rfl) <|
    agreesOrElse (agreesObserve agree expressions) fun _ _ => rfl

end Statement

/-! Expressions -/

section Primary

variable (expressions : ∀ c, K.holds c → P.beyond.holds c) (blocks : ∀ c, K.holds c → S.beyond.holds c)

omit agree in
theorem agreesChecked {r r' : Reader α} (ps : List (Nat × Text)) (next : Agrees K r r') :
    Agrees K (checkParameters ps >>= fun _ => r) (checkParameters ps >>= fun _ => r') := by
  unfold checkParameters
  split
  · exact agreesSame
  · exact agreesSame
  · exact next

include blocks in
theorem agreesFunction : Agrees K nested.function nested'.function := by
  rw [functionSplit,functionSplit]
  exact agreesHere fun _ => agreesThen eatsHeader.1 fun ps => agreesChecked ps <| agreesThen (movesTry _) fun _ =>
    agreesThen movesPause fun _ => agreesFirst (agreesMono blocks (agreesBlock agree)) _

include expressions in
theorem agreesNamed : Agrees K nested.named nested'.named := by
  refine agreesMono expressions (agreesHere fun _ => agreesAfter eatsIdentifier fun _ => agreesIf (movesTry _) ?_ ?_)
  · exact agreesFirst (agreesItemsUpTo agree _) _
  · exact agreesFirst (agreesFuelled (agreesIndices agree)) _

omit agree in
theorem agreesSign {f f' : Nat → Reader Expr} {c} (inside : P.beyond.holds c) (some : c.rest ≠ [])
    (next : ∀ start, Agrees P (f start) (f' start)) :
    (do let start ← here; advance; f start) c = (do let start ← here; advance; f' start) c :=
  next c.pos c.advance (inside _ (Cursor.laterOfShorter (Cursor.aheadAdvance c) (Cursor.advanceShorter some)))

include expressions blocks in
theorem agreesOnePrimary : Agrees K nested.onePrimary nested'.onePrimary := by
  intro c inside
  simp only [onePrimary,Bind.bind,Reader.bind,peek]
  split_ifs with digit quote bar minus bracket mark
  · rfl
  · rfl
  · exact agreesSign (expressions c inside) (Cursor.peekSome bar (by decide)) fun _ => agreesThen movesSpaces fun _ =>
      agreesFirst (agreesRequired agree _) _
  · exact agreesSign (expressions c inside) (Cursor.peekSome minus (by decide)) fun _ => agreesThen movesSpaces fun _ =>
      agreesFirst agree.primary _
  · exact agreesSign (expressions c inside) (Cursor.peekSome bracket (by decide)) fun _ => agreesFirst (agreesItemsUpTo agree _) _
  · rfl
  · exact agreesOrElse (agreesFunction agree blocks) (agreesNamed agree expressions) c inside

end Primary

end Agree

/-! Phrases without a bound -/

theorem sizedAny (n : Nat) : (upTo n).Sized 0 0 :=
  ⟨fun base => eatsMono (Nat.zero_le _) ((sizedUpTo n).primary base),
    fun base => eatsMono (Nat.zero_le _) ((sizedUpTo n).statement base)⟩

theorem agreesDeeper {k} {nested nested' : Phrases} (agree : nested.Agree (.deep 0 k) (.deep 1 k) nested') :
    Agrees (.deep 0 (k + 1)) nested.onePrimary nested'.onePrimary ∧
      Agrees (.deep 1 (k + 1)) nested.oneStatement nested'.oneStatement := by
  refine ⟨agreesOnePrimary agree (fun c short d later => ?_) fun c short d later => ?_,
    agreesOneStatement agree (fun c short => ?_) fun c short d later => ?_⟩ <;> simp only [Region.deep] at short ⊢
  · have shorter := Cursor.laterShorter later
    omega
  · have shorter := Cursor.laterShorter later
    omega
  · omega
  · have shorter := Cursor.laterShorter later
    omega

theorem agreesUpTo {k n m} (enough : k ≤ n) (enough' : k ≤ m) : (upTo n).Agree (.deep 0 k) (.deep 1 k) (upTo m) := by
  induction k generalizing n m with
  | zero => exact ⟨sizedAny n,fun c short => absurd short (Nat.not_lt_zero _),fun c short => absurd short (Nat.not_lt_zero _)⟩
  | succ k ih =>
    cases n with
    | zero => omega
    | succ n =>
      cases m with
      | zero => omega
      | succ m =>
        have deeper := agreesDeeper (ih (Nat.le_of_succ_le_succ enough) (Nat.le_of_succ_le_succ enough'))
        exact ⟨sizedAny (n + 1),deeper.1,deeper.2⟩

def whole : Phrases where
  primary c := (upTo (depthFor c.rest.length)).primary c
  statement c := (upTo (depthFor c.rest.length)).statement c

theorem agreesWhole (n : Nat) : (upTo n).Agree (.deep 0 n) (.deep 1 n) whole := by
  refine ⟨sizedAny n,fun c short => ?_,fun c short => ?_⟩
  · have enough : 2 * c.rest.length + 1 ≤ depthFor c.rest.length := Nat.le_succ _
    exact (agreesUpTo short enough).primary c (Nat.lt_succ_self _)
  · have enough : 2 * c.rest.length + 2 ≤ depthFor c.rest.length := Nat.le_refl _
    exact (agreesUpTo short enough).statement c (Nat.lt_succ_self _)

theorem wholePrimary : whole.primary = whole.onePrimary :=
  funext fun c => (agreesDeeper (agreesWhole (2 * c.rest.length + 1))).1 c (by simp only [Region.deep]; omega)

theorem wholeStatement : whole.statement = whole.oneStatement :=
  funext fun c => (agreesDeeper (agreesWhole (2 * c.rest.length + 1))).2 c (by simp only [Region.deep]; omega)

theorem sizedWhole (n : Nat) : whole.Sized n n := by
  have same (c : Cursor) : whole.primary c = (upTo (depthFor (c.rest.length + n))).primary c ∧
      whole.statement c = (upTo (depthFor (c.rest.length + n))).statement c := by
    have agree := agreesWhole (depthFor (c.rest.length + n))
    refine ⟨(agree.primary c ?_).symm,(agree.statement c ?_).symm⟩ <;> simp only [Region.deep,depthFor] <;> omega
  have sized (c : Cursor) := sizedDepth (c.rest.length + n)
  refine ⟨fun base => ⟨fun c from' => ?_,fun c from' a d found => ?_⟩,
    fun base => ⟨fun c from' => ?_,fun c from' a d found => ?_⟩⟩
  · rw [(same c).1]
    exact movesMono (by omega) ((sized c).primary base).1 c from'
  · exact ((sized c).primary base).2 c from' a d ((same c).1 ▸ found)
  · rw [(same c).2]
    exact movesMono (by omega) ((sized c).statement base).1 c from'
  · exact ((sized c).statement base).2 c from' a d ((same c).2 ▸ found)

theorem wholeEnds (c : Cursor) : whole.primary c ≠ .unfinished ∧ whole.statement c ≠ .unfinished := by
  have sized := sizedWhole (c.rest.length + 1)
  refine ⟨fun unfinished => ?_,fun unfinished => ?_⟩
  · have outcome := (sized.primary c).1 c (Cursor.aheadRefl c)
    rw [unfinished] at outcome
    exact absurd outcome (Nat.not_succ_le_self _)
  · have outcome := (sized.statement c).1 c (Cursor.aheadRefl c)
    rw [unfinished] at outcome
    exact absurd outcome (Nat.not_succ_le_self _)

inductive Nesting where
  | expression
  | statement

def Nesting.rank : Nesting → Nat
  | expression => 0
  | statement => 1

def ends (nested : Phrases) : Nesting → Cursor → Bool
  | .expression,c => (nested.onePrimary c).isFinished
  | .statement,c => (nested.oneStatement c).isFinished

def barred (nested : Phrases) : Nesting → Cursor → Phrases
  | .expression,d => { nested with primary := nested.primary.barred d }
  | .statement,d => { nested with statement := nested.statement.barred d }

def CallsFor (nested : Phrases) (x y : Nesting × Cursor) : Prop :=
  nested.ends x.1 x.2 = true ∧ (nested.barred y.1 y.2).ends x.1 x.2 = false

instance (nested : Phrases) (x y : Nesting × Cursor) : Decidable (nested.CallsFor x y) :=
  inferInstanceAs (Decidable (_ ∧ _))

section Calls

variable {nested : Phrases} (sized : nested.Sized 0 0)

include sized

theorem agreeItself (P S : Region) : nested.Agree P S nested := ⟨sized,fun _ _ => rfl,fun _ _ => rfl⟩

theorem callsDescend {x y : Nesting × Cursor} (calls : nested.CallsFor x y) :
    x.2.Later y.2 ∨ x.1 = .statement ∧ y.1 = .expression ∧ x.2.Ahead y.2 := by
  obtain ⟨primary,statement⟩ := nested
  obtain ⟨k,c⟩ := x
  obtain ⟨l,d⟩ := y
  have further (e : Cursor) (ahead : (Region.from' c).holds e) : (Region.after c).beyond.holds e :=
    fun d later => Cursor.aheadLater ahead later
  cases k with
  | expression =>
    refine .inl ?_
    cases l with
    | expression =>
      refine callsWithin (P := .after c) (F := fun r => onePrimary ⟨r,statement⟩) (fun r' agrees => ?_) calls
      have agree : Agree (.after c) (.after c) ⟨primary,statement⟩ ⟨r',statement⟩ := ⟨sized,agrees,fun _ _ => rfl⟩
      exact agreesOnePrimary agree further further c (Cursor.aheadRefl c)
    | statement =>
      refine callsWithin (P := .after c) (F := fun r => onePrimary ⟨primary,r⟩) (fun r' agrees => ?_) calls
      have agree : Agree (.after c) (.after c) ⟨primary,statement⟩ ⟨primary,r'⟩ := ⟨sized,fun _ _ => rfl,agrees⟩
      exact agreesOnePrimary agree further further c (Cursor.aheadRefl c)
  | statement =>
    cases l with
    | expression =>
      refine .inr ⟨rfl,rfl,?_⟩
      refine callsWithin (P := .from' c) (F := fun r => oneStatement ⟨r,statement⟩) (fun r' agrees => ?_) calls
      have agree : Agree (.from' c) (.after c) ⟨primary,statement⟩ ⟨r',statement⟩ := ⟨sized,agrees,fun _ _ => rfl⟩
      exact agreesOneStatement agree (fun _ ahead => ahead) further c (Cursor.aheadRefl c)
    | statement =>
      refine .inl ?_
      refine callsWithin (P := .after c) (F := fun r => oneStatement ⟨primary,r⟩) (fun r' agrees => ?_) calls
      have agree : Agree (.from' c) (.after c) ⟨primary,statement⟩ ⟨primary,r'⟩ := ⟨sized,fun _ _ => rfl,agrees⟩
      exact agreesOneStatement agree (fun _ ahead => ahead) further c (Cursor.aheadRefl c)

theorem callsWellFounded : WellFounded fun y x => nested.CallsFor x y := by
  refine Subrelation.wf (fun {y x} calls => ?_) (measure fun x : Nesting × Cursor => 2 * x.2.rest.length + x.1.rank).wf
  show 2 * y.2.rest.length + y.1.rank < 2 * x.2.rest.length + x.1.rank
  have low (k : Nesting) : k.rank ≤ 1 := by cases k <;> decide
  have top := low y.1
  rcases callsDescend sized calls with later | ⟨outer,inner,ahead⟩
  · have shorter := Cursor.laterShorter later
    omega
  · have atMost := Cursor.aheadLength ahead
    rw [outer,inner]
    simp only [Nesting.rank]
    omega

end Calls

/-! Loops without a bound -/

theorem movesEnds {r : Reader α} (moves : ∀ base size, Moves base size r) (c : Cursor) : r c ≠ .unfinished := by
  intro unfinished
  have outcome := moves c (c.rest.length + 1) c (Cursor.aheadRefl c)
  rw [unfinished] at outcome
  exact absurd outcome (Nat.not_succ_le_self _)

theorem statementsEnd (start n : Nat) (c : Cursor) (enough : c.rest.length < n) :
    whole.statements start n c ≠ .unfinished := by
  induction n generalizing c with
  | zero => omega
  | succ n ih =>
    show whole.round start (whole.statements start n) c.skipBlank ≠ .unfinished
    have atMost := Cursor.aheadLength (Cursor.aheadBlank c)
    cases closed : c.skipBlank.consume? "\x7d" with
    | some d =>
      rw [roundClosed closed]
      exact fun same => by cases same
    | none =>
      cases ended : c.skipBlank.atEnd with
      | true =>
        rw [roundEnded closed ended]
        exact fun same => by cases same
      | false =>
        rw [roundGoing closed ended]
        simp only [Bind.bind,Reader.bind]
        cases result : whole.statement c.skipBlank with
        | found s d =>
          have shorter := ((sizedWhole 0).statement _).2 _ (Cursor.aheadRefl _) s d result
          have rest := ih d (by omega)
          dsimp only
          cases after : whole.statements start n d with
          | unfinished => exact absurd after rest
          | _ => exact fun same => by cases same
        | unfinished => exact absurd result (wholeEnds _).2
        | _ => exact fun same => by cases same

theorem beyondHere (c : Cursor) : ((Region.from' c).both (Region.after c).beyond).holds c :=
  ⟨Cursor.aheadRefl c,fun _ later => later⟩

theorem loopsBlock (start : Nat) : Loops (whole.blockRound start) (fuelled (whole.statements start)) := by
  refine loopsFuelled (fun _ => rfl) (fun c r r' agrees => ?_) fun c => statementsEnd start _ c (Nat.lt_succ_self _)
  exact agreesBlockRound (agreeItself (sizedWhole 0) (.from' c) (.from' c)) start agrees c (beyondHere c)

theorem loopsList (close : String) : Loops (whole.listRound close) (fuelled (whole.items close)) := by
  refine loopsFuelled (fun _ => rfl) (fun c r r' agrees => ?_) (movesEnds fun base size =>
    movesFuelled fun n => (eatsItems (sizedWhole size) close n).1)
  exact agreesListRound (agreeItself (sizedWhole 0) (.from' c) (.from' c)) close agrees c (beyondHere c)

theorem loopsIndices : Loops whole.indexRound (fuelled whole.indices) := by
  refine loopsFuelled (fun _ => rfl) (fun c r r' agrees => ?_) (movesEnds fun base size =>
    movesFuelled (movesIndices (sizedWhole size)))
  exact agreesIndexRound (agreeItself (sizedWhole 0) (.from' c) (.from' c)) agrees c (beyondHere c)

theorem loopsParameters : Loops parameterRound (fuelled parameters) := by
  refine loopsFuelled parametersRound (fun c r r' agrees => ?_) (movesEnds fun base size =>
    movesFuelled (movesParameters size))
  exact agreesParameterRound agrees c fun _ later => later

end Phrases

namespace Parse

open Phrases

theorem certainWhole : Certain whole.statement := fun c d => (shelteredUpTo (depthFor c.rest.length)).certain c d

theorem runWhole {source phrases} (complete : Complete source phrases)
    (agrees : Agrees (.from' (.start source)) phrases.statement whole.statement) (recover : Bool) (n m : Nat) {c}
    (from' : (Cursor.start source).Ahead c) (enough : c.rest.length < n) (enough' : c.rest.length < m) :
    run phrases recover source n c = run whole recover source m c := by
  induction n generalizing m c with
  | zero => omega
  | succ n ih =>
    cases m with
    | zero => omega
    | succ m =>
      have ahead := Cursor.aheadTrans from' (Cursor.aheadBlank c)
      have atMost := Cursor.aheadLength (Cursor.aheadBlank c)
      unfold run
      dsimp only
      split
      · rfl
      · rename_i more
        have left := leftBehind complete ahead (by simpa [Cursor.atEnd] using more)
        rw [← agrees _ ahead]
        cases result : phrases.statement c.skipBlank with
        | found s next =>
          rw [result] at left
          simp only [ih m (Cursor.aheadTrans ahead left.1) (by omega) (by omega)]
        | refused e =>
          rw [result] at left
          obtain ⟨d,reach,_,after,shorter,_⟩ := left
          simp only [ih m (Cursor.aheadTrans ahead (Cursor.aheadTrans reach after)) (by omega) (by omega)]
        | absent d => rfl
        | unfinished => rfl

theorem ofNormalWhole (recover : Bool) (source : Text) (rounds : Nat) (enough : source.length < rounds) :
    ofNormal recover source =
      let p := run whole recover source rounds (.start source)
      ⟨source,⟨p.body,p.stop⟩,p.errors,p.finished⟩ := by
  have agrees : Agrees (.from' (.start source)) (upTo (depthFor source.length)).statement whole.statement := by
    refine agreesMono (fun c ahead => ?_) (agreesWhole (depthFor source.length)).statement
    have atMost : c.rest.length ≤ source.length := Cursor.aheadLength ahead
    simp only [Region.deep,depthFor]
    omega
  have same := runWhole (completeDepth source) agrees recover (source.length + 1) rounds (Cursor.aheadRefl _)
    (Nat.lt_succ_self _) enough
  unfold ofNormal
  dsimp only
  rw [same]

theorem roundsAdvance {source c} (from' : (Cursor.start source).Ahead c) (more : c.rest ≠ []) :
    (∃ s d, whole.statement c = .found s d ∧ c.Later d) ∨
      ∃ e, whole.statement c = .refused e ∧ c.Later (Cursor.lineAfter source e.offset) := by
  have left := leftBehind (fun base => (sizedWhole (source.length + 1)).statement base) from' more
  cases result : whole.statement c with
  | found s d =>
    rw [result] at left
    exact .inl ⟨s,d,rfl,Cursor.laterOfShorter left.1 left.2⟩
  | refused e =>
    rw [result] at left
    obtain ⟨d,reach,_,after,shorter,_⟩ := left
    exact .inr ⟨e,rfl,Cursor.laterOfShorter (Cursor.aheadTrans reach after) shorter⟩
  | absent d => exact absurd result (certainWhole c d)
  | unfinished => exact absurd result (wholeEnds c).2

theorem readingAlwaysEnds :
    whole.primary = whole.onePrimary ∧ whole.statement = whole.oneStatement ∧
    (∀ c, whole.primary c ≠ .unfinished ∧ whole.statement c ≠ .unfinished) ∧
    (∀ x y, whole.CallsFor x y → x.2.pos < y.2.pos ∨ x.1 = .statement ∧ y.1 = .expression ∧ x.2.pos ≤ y.2.pos) ∧
    (WellFounded fun y x => whole.CallsFor x y) ∧
    (∀ start, Loops (whole.blockRound start) (fuelled (whole.statements start))) ∧
    (∀ close, Loops (whole.listRound close) (fuelled (whole.items close))) ∧
    Loops whole.indexRound (fuelled whole.indices) ∧ Loops parameterRound (fuelled parameters) ∧
    ∀ (bytes : List UInt8) (recover : Bool), let source := Text.normalize (Text.decode bytes)
      (ofNormal recover source).finished ∧
      (∀ rounds, source.length < rounds → ofNormal recover source =
        let p := run whole recover source rounds (.start source)
        ⟨source,⟨p.body,p.stop⟩,p.errors,p.finished⟩) ∧
      ∀ c, (Cursor.start source).Ahead c → c.skipBlank.rest ≠ [] →
        (∃ s d, whole.statement c.skipBlank = .found s d ∧ c.skipBlank.pos < d.pos) ∨
          ∃ e, whole.statement c.skipBlank = .refused e ∧ c.skipBlank.pos < (Cursor.lineAfter source e.offset).pos := by
  refine ⟨wholePrimary,wholeStatement,wholeEnds,fun x y calls => ?_,callsWellFounded (sizedWhole 0),loopsBlock,loopsList,
    loopsIndices,loopsParameters,fun bytes recover => ⟨ofNormalFinished recover _,ofNormalWhole recover _,fun c from' more => ?_⟩⟩
  · exact (callsDescend (sizedWhole 0) calls).imp Cursor.laterPos fun smaller =>
      ⟨smaller.1,smaller.2.1,Cursor.aheadPos smaller.2.2⟩
  · rcases roundsAdvance (Cursor.aheadTrans from' (Cursor.aheadBlank c)) more with ⟨s,d,found,later⟩ | ⟨e,refused,later⟩
    · exact .inl ⟨s,d,found,Cursor.laterPos later⟩
    · exact .inr ⟨e,refused,Cursor.laterPos later⟩

def nestedCalls : List ((Nesting × Cursor) × (Nesting × Cursor)) :=
  let c := Cursor.start (Text.ofString "|-x|")
  [((.statement,c),(.expression,c)),((.expression,c),(.expression,c.advance)),
    ((.expression,c.advance),(.expression,c.advance.advance))]

theorem nestedCallsDescend : ∀ call ∈ nestedCalls, whole.CallsFor call.1 call.2 ∧
    (call.1.2.pos < call.2.2.pos ∨ call.1.1 = .statement ∧ call.2.1 = .expression ∧ call.1.2.pos ≤ call.2.2.pos) := by
  have called : nestedCalls.all fun call => whole.CallsFor call.1 call.2 := by decide +kernel
  intro call listed
  have calls : whole.CallsFor call.1 call.2 := of_decide_eq_true (List.all_eq_true.mp called call listed)
  exact ⟨calls,readingAlwaysEnds.2.2.2.1 _ _ calls⟩

end Parse
end Terakoya
