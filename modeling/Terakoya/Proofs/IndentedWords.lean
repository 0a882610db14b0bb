import Terakoya.Proofs.EmittedWords

/-! The words of a program in the dialect of indented blocks. Beside the words of a piece of text there are those of
the lines that have to stand above it, and the number of functions that were given a name. -/
namespace Terakoya.Emit.Indented

open Word (fixed names)

variable {α β γ δ : Type}

structure Noted (α : Type) where
  value : α
  above : List (Word .indented)
  /-- How many functions were given a name. -/
  next : Nat

def Ledger (α : Type) := Nat → Noted α

instance : Monad Ledger where
  pure a := fun n => ⟨a,[],n⟩
  bind r f := fun n => ⟨(f (r n).value (r n).next).value,(r n).above ++ (f (r n).value (r n).next).above,
    (f (r n).value (r n).next).next⟩

theorem bindNone (r : Ledger α) : r >>= pure = r := by
  funext n
  have above : (r n).above ++ [] = (r n).above := List.append_nil _
  exact congrArg (Noted.mk _ · _) above

theorem bindTwice (r : Ledger α) (f : α → Ledger β) (g : β → Ledger γ) : r >>= f >>= g = r >>= fun a => f a >>= g := by
  funext n
  have above := List.append_assoc (r n).above (f (r n).value (r n).next).above
    (g (f (r n).value (r n).next).value (f (r n).value (r n).next).next).above
  exact congrArg (Noted.mk _ · _) above

instance : LawfulMonad Ledger := .mk' Ledger bindNone (fun _ _ => rfl) bindTwice

def note (ws : List (Word .indented)) : Ledger Unit := fun n => ⟨(),ws,n⟩

def count : Ledger Nat := fun n => ⟨n + 1,[],n + 1⟩

def pickedWords (assigned : Bool) (base : List (Word .indented)) : List (Word .indented) :=
  if assigned then base ++ (fixed ["random","randrange","len"] ++ base) else fixed ["random","choice"] ++ base

mutual

def exprWords : Expr → Ledger (List (Word .indented))
  | .int _ n => return [.number n]
  | .null _ => return fixed ["None"]
  | .text _ s none => return [.leaf (.text s none)]
  | .text _ s (some i) => return fixed ["ord"] ++ ([.leaf (.text s (some i))] ++ [.number i])
  | .seq _ items => exprsWords items
  | .var p => placeWords false p
  | .fn _ params (.mk _ [.answer _ value]) =>
    if isPlain value then do return fixed ["lambda"] ++ (names params ++ (← exprWords value))
    else do
      let n ← count
      note (fixed ["def"] ++ ([.coined (.hoisted n)] ++ names params))
      note (fixed ["return"] ++ (← exprWords value))
      return [.coined (.hoisted n)]
  | .fn _ params body => do
    let n ← count
    note (fixed ["def"] ++ ([.coined (.hoisted n)] ++ names params))
    blockWords body
    return [.coined (.hoisted n)]
  | .call _ name args => do return [.leaf (.call name)] ++ (← exprsWords args)
  | .neg _ e => exprWords e
  | .len _ e => do return fixed ["len"] ++ (← exprWords e)

def exprsWords : List Expr → Ledger (List (Word .indented))
  | [] => return []
  | e :: rest => do
    let first ← exprWords e
    return first ++ (← exprsWords rest)

def placeWords (assigned : Bool) : Place → Ledger (List (Word .indented))
  | .mk _ name indices => indexedWords assigned [.leaf (.name name)] indices

def indexedWords (assigned : Bool) (base : List (Word .indented)) : List Expr → Ledger (List (Word .indented))
  | [] => return base
  | e :: rest =>
    if e.isNull then indexedWords assigned (pickedWords (assigned && rest.isEmpty) base) rest
    else do
      let index ← exprWords e
      indexedWords assigned (base ++ index) rest

def stmtWords : Stmt → Ledger Unit
  | .assign _ (.mk _ name []) (.fn _ params body) => do
    note (fixed ["def"] ++ ([.leaf (.name name)] ++ names params))
    blockWords body
  | .assign _ (.mk span name indices) value => do
    let base ← targetWords [.leaf (.name name)] indices
    let text ← exprWords value
    note (base ++ ((if (Place.mk span name indices).appends then fixed ["append"] else []) ++ text))
  | .append _ target value => do
    let base ← placeWords false target
    let text ← exprWords value
    note (base ++ (fixed ["append"] ++ text))
  | .increment _ target => do note ((← placeWords true target) ++ fixed ["1"])
  | .decrement _ target => do note ((← placeWords true target) ++ fixed ["1"])
  | .cond _ left right _ yes no => do
    let l ← exprWords left
    let r ← exprWords right
    note (fixed ["if"] ++ (l ++ r))
    blockWords yes
    otherwiseWords no
  | .loop _ times body => do
    if times.isNull then note (fixed ["while","True"])
    else
      let text ← exprWords times
      note (fixed ["for"] ++ ([.coined .ignored] ++ (fixed ["in","range"] ++ text)))
    blockWords body
  | .leave _ => note (fixed ["break"])
  | .answer _ value => do note (fixed ["return"] ++ (← exprWords value))
  | .observe _ value => do note (fixed ["print"] ++ (← exprWords value))
  | .doctest _ value expected => do
    let actual ← exprWords value
    let wanted ← exprWords expected
    note (fixed ["assert"] ++ (actual ++ wanted))

def targetWords (base : List (Word .indented)) : List Expr → Ledger (List (Word .indented))
  | [] => return base
  | e :: rest =>
    if e.isNull then
      if rest.isEmpty then return base else targetWords (pickedWords false base) rest
    else do
      let index ← exprWords e
      targetWords (base ++ index) rest

def otherwiseWords : Option Block → Ledger Unit
  | none => return ()
  | some b => do
    note (fixed ["else"])
    blockWords b

def blockWords : Block → Ledger Unit
  | .mk _ [] => note (fixed ["pass"])
  | .mk _ body => stmtsWords body

def stmtsWords : List Stmt → Ledger Unit
  | [] => return ()
  | s :: rest => do
    stmtWords s
    stmtsWords rest

end

/-! Sheets as characters -/

def inked (base : Nat) (s : Sheet) : List Char := s.lines.toList.flatMap fun l => (renderLine base l).toList

def Draws (Q : α → β → Prop) (r : Draft α) (r' : Ledger β) : Prop :=
  ∀ s : Sheet, Q (r s).1 (r' s.lambdas).value ∧ (r s).2.lambdas = (r' s.lambdas).next ∧
    ∀ base ws, Lines ws (inked base s) → Lines (ws ++ (r' s.lambdas).above) (inked base (r s).2)

section Draws

variable {Q : α → β → Prop} {R : γ → δ → Prop}

theorem drawsPure {a b} (holds : Q a b) : Draws Q (pure a) (pure b) := by
  exact fun _ => ⟨holds,rfl,fun _ ws lines => (List.append_nil ws).symm ▸ lines⟩

theorem drawsBind {r r'} {f : α → Draft γ} {f' : β → Ledger δ} (first : Draws Q r r')
    (next : ∀ a b, Q a b → Draws R (f a) (f' b)) : Draws R (r >>= f) (r' >>= f') := by
  intro s
  obtain ⟨holds,same,lines⟩ := first s
  obtain ⟨holds',same',lines'⟩ := next _ _ holds (r s).2
  rw [same] at holds' same' lines'
  refine ⟨holds',same',fun base ws before => ?_⟩
  have all := lines' base _ (lines base ws before)
  rw [List.append_assoc] at all
  exact all

theorem drawsMap {Q' : γ → β → Prop} {r r'} {f : α → γ} (draws : Draws Q r r')
    (same : ∀ a b, Q a b → Q' (f a) b) : Draws Q' (r >>= fun a => pure (f a)) r' :=
  fun s => ⟨same _ _ (draws s).1,(draws s).2⟩

theorem drawsWrite (level : Nat) {text ws} (spells : Spells ws text.toList) :
    Draws (fun _ _ => True) (write level text) (note ws) := by
  refine fun s => ⟨trivial,rfl,fun base vs before => ?_⟩
  have shape : inked base (write level text s).2 = inked base s ++
      ((indentation (base + level)).toList ++ (text.toList ++ "\n".toList)) := by
    have pushed : (write level text s).2.lines = s.lines.push ⟨level,text⟩ := rfl
    simp only [inked,pushed,Array.toList_push,List.flatMap_append,List.flatMap_singleton,renderLine,String.toList_append,
      List.append_assoc]
  rw [shape]
  exact linesAppend before (linesOne (blankIndentation _) spells)

theorem drawsFresh : Draws (fun name n => name = "_lambda" ++ toString n) freshName count :=
  fun _ => ⟨rfl,rfl,fun _ ws before => (List.append_nil ws).symm ▸ before⟩

theorem drawsRandom {r r'} (draws : Draws Q r r') : Draws Q (noteRandom >>= fun _ => r) r' :=
  fun s => draws { s with usesRandom := true }

end Draws

/-! What the writers do, without the order of their cases -/

theorem indexedCons (level : Nat) (assigned : Bool) (base : String) (e : Expr) (rest : List Expr) :
    indexed level assigned base (e :: rest) =
      if e.isNull then noteRandom >>= fun _ => indexed level assigned (randomPick (assigned && rest.isEmpty) base) rest
      else expr level e >>= fun index => indexed level assigned (base ++ "[" ++ index ++ "]") rest := by
  cases e <;> rfl

theorem targetCons (level : Nat) (base : String) (e : Expr) (rest : List Expr) : target level base (e :: rest) =
    if e.isNull then
      if rest.isEmpty then pure (base,true) else noteRandom >>= fun _ => target level (randomPick false base) rest
    else expr level e >>= fun index => target level (base ++ "[" ++ index ++ "]") rest := by
  cases e <;> cases rest <;> rfl

section Spelled

variable {level : Nat} {vs ws : List (Word .indented)}

theorem spellsPicked (assigned : Bool) {base} (spells : Spells ws base.toList) :
    Spells (pickedWords assigned ws) (randomPick assigned base).toList := by
  cases assigned with
  | true =>
    have shape : (randomPick true base).toList = base.toList ++ ("[random.randrange(len(".toList ++ (base.toList ++ "))]".toList)) := by
      simp only [randomPick,if_true,String.toList_append,List.append_assoc]
    rw [shape,pickedWords,if_pos rfl]
    exact spellsNext spells (spellsOwn (spellsAfter spells))
  | false =>
    have shape : (randomPick false base).toList = "random.choice(".toList ++ (base.toList ++ ")".toList) := by
      simp only [randomPick,Bool.false_eq_true,if_false,String.toList_append,List.append_assoc]
    rw [shape,pickedWords,if_neg Bool.false_ne_true]
    exact spellsOwn (spellsAfter spells)

theorem spellsIndex {base index} (spells : Spells vs base.toList) (inner : Spells ws index.toList) :
    Spells (vs ++ ws) (base ++ "[" ++ index ++ "]").toList := by
  simp only [String.toList_append,List.append_assoc]
  exact spellsBetween spells (spellsAfter inner)

theorem spellsDefinition {name} (params : List String) (spells : Spells ws name.toList) :
    Spells (fixed ["def"] ++ (ws ++ names params)) (definition name params).toList := by
  simp only [definition,String.toList_append,List.append_assoc]
  exact spellsOwn (spellsBetween spells (spellsAfter (spellsParameters params)))

theorem spellsKey {s text : String} {ss known}
    (rest : Spells ws text.toList) (same : wordsOf s.toList = ss.map String.toList := by decide +kernel)
    (closes : Closes s.toList := by decide +kernel) : Spells (fixed ss known ++ ws) (s ++ text).toList := by
  rw [String.toList_append]
  exact spellsOwn rest same closes

theorem spellsEnd {s text : String} (first : Spells ws text.toList) (blank : Blank s.toList := by decide +kernel) :
    Spells ws (text ++ s).toList := by
  rw [String.toList_append]
  exact spellsAfter first blank

theorem spellsMark {s text : String} (rest : Spells ws text.toList) (blank : Blank s.toList := by decide +kernel) :
    Spells ws (s ++ text).toList := by
  rw [String.toList_append]
  exact spellsBefore rest blank

theorem spellsLambda (params : List String) {text : String} (spells : Spells ws text.toList) :
    Spells (fixed ["lambda"] ++ (names params ++ ws)) (lambdaHead params ++ text).toList := by
  cases params with
  | nil => exact spellsKey spells
  | cons param params =>
    have shape : (lambdaHead (param :: params) ++ text).toList = "lambda ".toList ++ ((parameters (param :: params)).toList ++
        (": ".toList ++ text.toList)) := by
      simp only [lambdaHead,List.isEmpty_cons,Bool.false_eq_true,if_false,String.toList_append,List.append_assoc]
    rw [shape]
    exact spellsOwn (spellsBetween (spellsParameters _) spells)

theorem spellsPush {base text} (spells : Spells vs base.toList) (value : Spells ws text.toList) :
    Spells (vs ++ (fixed ["append"] ++ ws)) (base ++ ".append(" ++ text ++ ")").toList := by
  simp only [String.toList_append,List.append_assoc]
  exact spellsNext spells (spellsOwn (spellsAfter value))

theorem spellsStep {s base : String} (spells : Spells ws base.toList)
    (same : wordsOf s.toList = ["1"].map String.toList := by decide +kernel) (opens : Opens s.toList := by decide +kernel) :
    Spells (ws ++ fixed ["1"]) (base ++ s).toList := by
  rw [String.toList_append]
  exact spellsAppend spells (spellsFixed _ same) (.inr opens)

theorem spellsListed {text texts} (first : Spells vs text.toList)
    (rest : Spells ws (", ".intercalate texts).toList) : Spells (vs ++ ws) (", ".intercalate (text :: texts)).toList := by
  rw [String.toList_intercalate] at rest ⊢
  exact spellsCons first rest

end Spelled

def Spelled (text : String) (ws : List (Word .indented)) : Prop := Spells ws text.toList

def SpelledList (texts : List String) (ws : List (Word .indented)) : Prop := Spells ws (", ".intercalate texts).toList

mutual

theorem drawsExpr (level : Nat) (e : Expr) : Draws Spelled (expr level e) (exprWords e) := by
  cases e with
  | int span n => exact drawsPure (spellsWord (.number n))
  | null span => exact drawsPure (spellsFixed _)
  | text span s index =>
    cases index with
    | none => exact drawsPure (spellsWord (.leaf (.text s none)))
    | some i =>
      refine drawsPure ?_
      have shape : ("ord(" ++ quote s ++ "[" ++ toString i ++ "])").toList = "ord(".toList ++ ((quote s).toList ++
          ("[".toList ++ ((toString i).toList ++ "])".toList))) := by
        simp only [String.toList_append,List.append_assoc]
      rw [Spelled,shape]
      exact spellsOwn (spellsBetween (spellsWord (.leaf (.text s (some i)))) (spellsAfter (spellsWord (.number i))))
  | seq span items =>
    exact drawsMap (drawsExprs level items) fun texts ws spelled =>
      spellsEnd (spellsMark spelled)
  | var p => exact drawsPlace level false p
  | fn span params body =>
    have hoisted : Draws Spelled
        (do
          let name ← freshName
          write level (definition name params)
          block (level + 1) body
          return name)
        (do
          let n ← count
          note (fixed ["def"] ++ ([.coined (.hoisted n)] ++ names params))
          blockWords body
          return [.coined (.hoisted n)]) := by
      refine drawsBind drawsFresh fun name n same => ?_
      have coined : Spells [.coined (d := .indented) (.hoisted n)] name.toList := same ▸ spellsWord (.coined (.hoisted n))
      exact drawsBind (drawsWrite level (spellsDefinition params coined)) fun _ _ _ =>
        drawsBind (drawsBlock (level + 1) body) fun _ _ _ => drawsPure coined
    obtain ⟨place,body⟩ := body
    rcases body with _ | ⟨s,_ | ⟨s',rest⟩⟩
    · exact hoisted
    · cases s with
      | answer span value =>
        simp only [expr,exprWords]
        split
        · exact drawsBind (drawsExpr level value) fun text ws spelled => drawsPure (spellsLambda params spelled)
        · refine drawsBind drawsFresh fun name n same => ?_
          have coined : Spells [.coined (d := .indented) (.hoisted n)] name.toList := same ▸ spellsWord (.coined (.hoisted n))
          exact drawsBind (drawsWrite level (spellsDefinition params coined)) fun _ _ _ =>
            drawsBind (drawsExpr (level + 1) value) fun text ws spelled =>
            drawsBind (drawsWrite (level + 1) (spellsKey spelled)) fun _ _ _ =>
            drawsPure coined
      | _ => exact hoisted
    · cases s <;> exact hoisted
  | call span name args =>
    refine drawsBind (drawsExprs level args) fun texts ws spelled => drawsPure ?_
    simp only [Spelled,String.toList_append,List.append_assoc]
    exact spellsBetween (spellsWord (.leaf (.call name))) (spellsAfter spelled)
  | neg span e =>
    refine drawsMap (drawsExpr level e) fun operand ws spelled => ?_
    split
    · exact spellsEnd (spellsMark spelled)
    · exact spellsMark spelled
  | len span e =>
    exact drawsBind (drawsExpr level e) fun text ws spelled =>
      drawsPure (spellsEnd (spellsKey spelled))

theorem drawsExprs (level : Nat) (es : List Expr) : Draws SpelledList (exprs level es) (exprsWords es) := by
  cases es with
  | nil => exact drawsPure spellsNothing
  | cons e rest =>
    exact drawsBind (drawsExpr level e) fun text ws spelled => drawsBind (drawsExprs level rest) fun texts vs later =>
      drawsPure (spellsListed spelled later)

theorem drawsPlace (level : Nat) (assigned : Bool) (p : Place) : Draws Spelled (place level assigned p) (placeWords assigned p) := by
  cases p with
  | mk span name indices => exact drawsIndexed level assigned name _ (spellsWord (.leaf (.name name))) indices

theorem drawsIndexed (level : Nat) (assigned : Bool) (base : String) (ws : List (Word .indented)) (spells : Spells ws base.toList)
    (indices : List Expr) : Draws Spelled (indexed level assigned base indices) (indexedWords assigned ws indices) := by
  cases indices with
  | nil => exact drawsPure spells
  | cons e rest =>
    rw [indexedCons,indexedWords]
    split
    · exact drawsRandom (drawsIndexed level assigned _ _ (spellsPicked _ spells) rest)
    · exact drawsBind (drawsExpr level e) fun index inner indexed =>
        drawsIndexed level assigned _ _ (spellsIndex spells indexed) rest

theorem drawsTarget (level : Nat) (base : String) (ws : List (Word .indented)) (spells : Spells ws base.toList)
    (span : Span) (name : String) (indices : List Expr) :
    Draws (fun pair ws => Spelled pair.1 ws ∧ pair.2 = (Place.mk span name indices).appends) (target level base indices)
      (targetWords ws indices) := by
  cases indices with
  | nil => exact drawsPure ⟨spells,rfl⟩
  | cons e rest =>
    have further (more : e.isNull = true → rest.isEmpty = false) :
        (Place.mk span name rest).appends = (Place.mk span name (e :: rest)).appends := by
      cases rest with
      | nil =>
        cases null : e.isNull with
        | true => exact absurd (more null) (by decide)
        | false => simp only [Place.appends,Place.indices,List.getLast?_nil,List.getLast?_singleton,null]
      | cons e' rest => rfl
    rw [targetCons,targetWords]
    split
    · rename_i null
      split
      · rename_i last
        obtain rfl : rest = [] := by simpa using last
        refine drawsPure ⟨spells,?_⟩
        simp only [Place.appends,Place.indices,List.getLast?_singleton,null]
      · rename_i more
        rw [← further fun _ => by simpa using more]
        exact drawsRandom (drawsTarget level _ _ (spellsPicked false spells) span name rest)
    · rename_i other
      rw [← further fun null => absurd null other]
      exact drawsBind (drawsExpr level e) fun index inner indexed =>
        drawsTarget level _ _ (spellsIndex spells indexed) span name rest

theorem drawsStmt (level : Nat) (s : Stmt) : Draws (fun _ _ => True) (stmt level s) (stmtWords s) := by
  cases s with
  | assign span target value =>
    obtain ⟨place,name,indices⟩ := target
    -- anything but a function that is given to a bare name
    have general : Draws (fun _ _ => True)
        (do
          let (base,appends) ← target level name indices
          let text ← expr level value
          if appends then write level (base ++ ".append(" ++ text ++ ")") else write level (base ++ " = " ++ text))
        (do
          let base ← targetWords [.leaf (.name name)] indices
          let text ← exprWords value
          note (base ++ ((if (Place.mk place name indices).appends then fixed ["append"] else []) ++ text))) := by
      refine drawsBind (drawsTarget level name _ (spellsWord (.leaf (.name name))) place name indices) fun pair ws known => ?_
      obtain ⟨base,appends⟩ := pair
      obtain ⟨spelled,same⟩ := known
      refine drawsBind (drawsExpr level value) fun text vs written => ?_
      rw [← same]
      cases appends with
      | true => exact drawsWrite level (spellsPush spelled written)
      | false =>
        refine drawsWrite level ?_
        simp only [String.toList_append,List.append_assoc]
        exact spellsBetween spelled written
    cases indices with
    | cons e rest => exact general
    | nil =>
      cases value with
      | fn span params body =>
        exact drawsBind (drawsWrite level (spellsDefinition params (spellsWord (.leaf (.name name))))) fun _ _ _ =>
          drawsBlock (level + 1) body
      | _ => exact general
  | append span target value =>
    exact drawsBind (drawsPlace level false target) fun base ws spelled => drawsBind (drawsExpr level value) fun text vs written =>
      drawsWrite level (spellsPush spelled written)
  | increment span target =>
    exact drawsBind (drawsPlace level true target) fun base ws spelled => drawsWrite level (spellsStep spelled)
  | decrement span target =>
    exact drawsBind (drawsPlace level true target) fun base ws spelled => drawsWrite level (spellsStep spelled)
  | cond span left right cmp yes no =>
    have symbol : Blank (" " ++ comparator cmp ++ " ").toList := by cases cmp <;> decide +kernel
    have head {l r : String} {vs ws : List (Word .indented)} (spelled : Spelled l vs) (spelled' : Spelled r ws) :
        Spells (fixed ["if"] ++ (vs ++ ws)) ("if " ++ l ++ " " ++ comparator cmp ++ " " ++ r ++ ":").toList := by
      have shape : ("if " ++ l ++ " " ++ comparator cmp ++ " " ++ r ++ ":").toList = "if ".toList ++ (l.toList ++
          ((" " ++ comparator cmp ++ " ").toList ++ (r.toList ++ ":".toList))) := by
        simp only [String.toList_append,List.append_assoc]
      rw [shape]
      exact spellsOwn (spellsBetween spelled (spellsAfter spelled') symbol (by cases cmp <;> decide))
    have branch {other : Draft Unit} {other' : Ledger Unit} (otherwise : Draws (fun _ _ => True) other other') :
        Draws (fun _ _ => True)
          (do
            let l ← expr level left
            let r ← expr level right
            write level ("if " ++ l ++ " " ++ comparator cmp ++ " " ++ r ++ ":")
            block (level + 1) yes
            other)
          (do
            let l ← exprWords left
            let r ← exprWords right
            note (fixed ["if"] ++ (l ++ r))
            blockWords yes
            other') :=
      drawsBind (drawsExpr level left) fun _ _ spelled => drawsBind (drawsExpr level right) fun _ _ spelled' =>
        drawsBind (drawsWrite level (head spelled spelled')) fun _ _ _ => drawsBind (drawsBlock (level + 1) yes) fun _ _ _ =>
        otherwise
    cases no with
    | none => exact branch (drawsPure trivial)
    | some b =>
      exact branch (drawsBind (drawsWrite level (spellsFixed _)) fun _ _ _ => drawsBlock (level + 1) b)
  | loop span times body =>
    have counted : Draws (fun _ _ => True)
        (do
          let text ← expr level times
          write level ("for _ in range(" ++ text ++ "):")
          block (level + 1) body)
        (do
          let text ← exprWords times
          note (fixed ["for"] ++ ([.coined .ignored] ++ (fixed ["in","range"] ++ text)))
          blockWords body) := by
      refine drawsBind (drawsExpr level times) fun text ws spelled => drawsBind (drawsWrite level ?_) fun _ _ _ =>
        drawsBlock (level + 1) body
      have shape : ("for _ in range(" ++ text ++ "):").toList = "for ".toList ++ ((Coined.ignored).name.toList ++
          (" in range(".toList ++ (text.toList ++ "):".toList))) := by
        have head : "for _ in range(".toList = "for ".toList ++ ((Coined.ignored).name.toList ++ " in range(".toList) := by
          decide +kernel
        simp only [String.toList_append,head,List.append_assoc]
      rw [shape]
      exact spellsOwn (spellsNext (spellsWord (.coined .ignored)) (spellsOwn (spellsAfter spelled)))
    cases times with
    | null span =>
      exact drawsBind (drawsWrite level (spellsFixed _)) fun _ _ _ => drawsBlock (level + 1) body
    | _ => exact counted
  | leave span => exact drawsWrite level (spellsFixed _)
  | answer span value =>
    exact drawsBind (drawsExpr level value) fun text ws spelled =>
      drawsWrite level (spellsKey spelled)
  | observe span value =>
    exact drawsBind (drawsExpr level value) fun text ws spelled =>
      drawsWrite level (spellsEnd (spellsKey spelled))
  | doctest span value expected =>
    refine drawsBind (drawsExpr level value) fun actual ws spelled => drawsBind (drawsExpr level expected) fun wanted vs spelled' =>
      drawsWrite level ?_
    simp only [String.toList_append,List.append_assoc]
    exact spellsOwn (spellsBetween spelled spelled')

theorem drawsBlock (level : Nat) (b : Block) : Draws (fun _ _ => True) (block level b) (blockWords b) := by
  obtain ⟨span,body⟩ := b
  cases body with
  | nil => exact drawsWrite level (spellsFixed _)
  | cons s rest => exact drawsStmts level (s :: rest)

theorem drawsStmts (level : Nat) (body : List Stmt) : Draws (fun _ _ => True) (stmts level body) (stmtsWords body) := by
  cases body with
  | nil => exact drawsPure trivial
  | cons s rest => exact drawsBind (drawsStmt level s) fun _ _ _ => drawsStmts level rest

end

def programWords (body : List Stmt) : List (Word .indented) :=
  (if (sheet body).usesRandom then fixed ["import","random"] else []) ++ (stmtsWords body 0).above

theorem linesHeader (indent : Nat) (body : List Stmt) : Lines (fixed (d := .indented) ["import","random"]) (header indent body).toList := by
  have first : Lines (fixed (d := .indented) ["import","random"])
      ((indentation indent).toList ++ ("import random".toList ++ "\n".toList)) :=
    linesOne (blankIndentation indent) (spellsFixed _)
  have rest : Lines ([] : List (Word .indented)) (if body.isEmpty then "" else "\n").toList := by
    cases body.isEmpty with
    | true => exact linesNone
    | false => exact linesOne (p := []) rfl spellsNothing
  have all := linesAppend first rest
  have line : "import random\n".toList = "import random".toList ++ "\n".toList := by decide +kernel
  simp only [header,String.toList_append,line]
  rwa [List.append_nil] at all

theorem emitSpells (indent : Nat) (body : List Stmt) : Spells (programWords body) (emit indent body).toList := by
  obtain ⟨_,_,lines⟩ := drawsStmts 0 body {}
  have written : Lines (stmtsWords body 0).above (inked indent (sheet body)) := lines indent [] linesNone
  have joined : (String.join ((sheet body).lines.toList.map (renderLine indent))).toList = inked indent (sheet body) := by
    rw [String.toList_join,List.flatMap_map,inked]
  have head : Lines (if (sheet body).usesRandom then fixed (d := .indented) ["import","random"] else [])
      (if (sheet body).usesRandom then header indent body else "").toList := by
    cases (sheet body).usesRandom with
    | true => exact linesHeader indent body
    | false => exact linesNone
  rw [emit,String.toList_append,joined]
  exact (linesAppend head written).1

end Terakoya.Emit.Indented
