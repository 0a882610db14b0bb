import Terakoya.Proofs.EmittedWords

/-! The words of a program in the dialect of braces. -/
namespace Terakoya.Emit.Braced

open Word (fixed names)

def doubled (base : List (Word .braced)) : List (Word .braced) :=
  base ++ (fixed ["Math","floor","Math","random"] ++ (base ++ fixed ["length"]))

def headWords (depth : Nat) (literal : Bool) (count : List (Word .braced)) : List (Word .braced) :=
  let v := [.coined (.counter depth)]
  let last := [.coined (.bound depth)]
  if literal then fixed ["for","let"] ++ (v ++ (fixed ["0"] ++ (v ++ (count ++ v))))
  else fixed ["for","let"] ++ (v ++ (fixed ["0"] ++ (last ++ (count ++ (v ++ (last ++ v))))))

mutual

def exprWords (depth : Nat) : Expr → List (Word .braced)
  | .int _ n => [.number n]
  | .null _ => fixed ["null"]
  | .text _ s none => [.leaf (.text s none)]
  | .text _ s (some i) => [.leaf (.text s (some i))] ++ ([.number i] ++ fixed ["codePointAt","0"])
  | .seq _ items => exprsWords depth items
  | .var p => placeWords depth p
  | .fn _ params body => names params ++ blockWords depth body
  | .call _ name args => [.leaf (.call name)] ++ exprsWords depth args
  | .neg _ e => exprWords depth e
  | .len _ e => exprWords depth e ++ fixed ["length"]

def exprsWords (depth : Nat) : List Expr → List (Word .braced)
  | [] => []
  | e :: rest => exprWords depth e ++ exprsWords depth rest

def placeWords (depth : Nat) : Place → List (Word .braced)
  | .mk _ name indices => indexedWords depth [.leaf (.name name)] indices

def indexedWords (depth : Nat) (base : List (Word .braced)) : List Expr → List (Word .braced)
  | [] => base
  | e :: rest => indexedWords depth (if e.isNull then doubled base else base ++ exprWords depth e) rest

def stmtWords (depth : Nat) : Stmt → List (Word .braced)
  | .assign _ (.mk span name indices) value =>
    (if indices.isEmpty && !Indented.isPlain value then fixed ["function"] else []) ++
      (targetWords depth [.leaf (.name name)] indices ++
      ((if (Place.mk span name indices).appends then fixed ["push"] else []) ++ exprWords depth value))
  | .append _ target value => placeWords depth target ++ (fixed ["push"] ++ exprWords depth value)
  | .increment _ target => placeWords depth target ++ fixed ["1"]
  | .decrement _ target => placeWords depth target ++ fixed ["1"]
  | .cond _ left right _ yes no =>
    fixed ["if"] ++ exprWords depth left ++ exprWords depth right ++ blockWords depth yes ++ otherwiseWords depth no
  | .loop _ count body =>
    (if count.isNull then fixed ["while","true"] else headWords depth (isLiteral count) (exprWords depth count)) ++
      blockWords (depth + 1) body
  | .leave _ => fixed ["break"]
  | .answer _ value => fixed ["return"] ++ exprWords depth value
  | .observe _ value => fixed ["console","log"] ++ exprWords depth value
  | .doctest _ value expected =>
    fixed ["console","assert","JSON","stringify"] ++ exprWords depth value ++
      (fixed ["JSON","stringify"] ++ exprWords depth expected)

def targetWords (depth : Nat) (base : List (Word .braced)) : List Expr → List (Word .braced)
  | [] => base
  | e :: rest =>
    if e.isNull && rest.isEmpty then base
    else targetWords depth (if e.isNull then doubled base else base ++ exprWords depth e) rest

def otherwiseWords (depth : Nat) : Option Block → List (Word .braced)
  | none => []
  | some b => fixed ["else"] ++ blockWords depth b

def blockWords (depth : Nat) : Block → List (Word .braced)
  | .mk _ body => stmtsWords depth body

def stmtsWords (depth : Nat) : List Stmt → List (Word .braced)
  | [] => []
  | s :: rest => stmtWords depth s ++ stmtsWords depth rest

end

/-! Pages as characters -/

def inked (base : Nat) (p : Page) : List Char := p.flatMap fun i => (i.render base).toList

section Inked

variable {base : Nat}

theorem renderInked (p : Page) : (render base p).toList = inked base p := by
  rw [render,String.toList_join,List.flatMap_map,inked]

theorem inkedAppend (p q : Page) : inked base (p ++ q) = inked base p ++ inked base q := List.flatMap_append

theorem inkedCons (i : Ink) (p : Page) : inked base (i :: p) = (i.render base).toList ++ inked base p := rfl

theorem inkedNil : inked base [] = [] := rfl

theorem inkedCommas (ps : List Page) : inked base (commas ps) = ", ".toList.intercalate (ps.map (inked base)) := by
  induction ps with
  | nil => rfl
  | cons p ps ih =>
    cases ps with
    | nil => rw [commas,List.map_singleton,List.intercalate_singleton]
    | cons q ps =>
      have both : commas (p :: q :: ps) = p ++ .words ", " :: commas (q :: ps) := rfl
      rw [both,inkedAppend,inkedCons,ih]
      simp only [List.map_cons,List.intercalate_cons_cons,List.append_assoc]
      rfl

end Inked

/-! What the writers do, without the order of their cases -/

def picked (p : Page) : Page := p ++ .words "[Math.floor(Math.random() * " :: p ++ [.words ".length)]"]

theorem indexedCons (level depth : Nat) (p : Page) (e : Expr) (rest : List Expr) : indexed level depth p (e :: rest) =
    indexed level depth (if e.isNull then picked p else p ++ .words "[" :: expr level depth e ++ [.words "]"]) rest := by
  cases e <;> rfl

theorem targetCons (level depth : Nat) (p : Page) (e : Expr) (rest : List Expr) : target level depth p (e :: rest) =
    if e.isNull && rest.isEmpty then (p,true)
    else target level depth (if e.isNull then picked p else p ++ .words "[" :: expr level depth e ++ [.words "]"]) rest := by
  cases e <;> cases rest <;> rfl

theorem assignOther {level depth span place name indices value}
    (other : (indices.isEmpty && !Indented.isPlain value) = false) :
    stmt level depth (.assign span (.mk place name indices) value) =
      match target level depth [.words name] indices with
      | (base,true) => statementLine level (base ++ .words ".push(" :: expr level depth value ++ [.words ")"])
      | (base,false) => statementLine level (base ++ .words " = " :: expr level depth value) := by
  cases indices with
  | nil => cases value <;> first | rfl | contradiction
  | cons e rest => rfl

theorem targetAppends (level depth : Nat) (p : Page) (span : Span) (name : String) (indices : List Expr) :
    (target level depth p indices).2 = (Place.mk span name indices).appends := by
  induction indices generalizing p with
  | nil => rfl
  | cons e rest ih =>
    rw [targetCons]
    cases rest with
    | nil => cases e <;> rfl
    | cons e' rest =>
      rw [List.isEmpty_cons,Bool.and_false,if_neg Bool.false_ne_true,ih]
      rfl

/-! The words are those of the pages -/

section Spelled

variable {base depth : Nat} {p q : Page} {vs ws : List (Word .braced)}

theorem linesLine (level : Nat) (spells : Spells ws (inked base p)) : Lines ws (inked base (line level p)) := by
  have shape : inked base (line level p) = (indentation (base + level)).toList ++ (inked base p ++ "\n".toList) := by
    simp only [line,inkedCons,inkedAppend,inkedNil,List.append_nil,List.cons_append]
    rfl
  rw [shape]
  exact linesOne (blankIndentation _) spells

theorem linesThen (first : Lines vs (inked base p)) (rest : Lines ws (inked base q)) : Lines (vs ++ ws) (inked base (p ++ q)) := by
  rw [inkedAppend]
  exact linesAppend first rest

theorem spellsKey {s ss known}
    (rest : Spells ws (inked base p)) (same : wordsOf s.toList = ss.map String.toList := by decide +kernel)
    (closes : Closes s.toList := by decide +kernel) :
    Spells (fixed ss known ++ ws) (inked base (.words s :: p)) := spellsOwn rest same closes

theorem spellsMark {s} (rest : Spells ws (inked base p)) (blank : Blank s.toList := by decide +kernel) :
    Spells ws (inked base (.words s :: p)) := spellsBefore rest blank

theorem spellsEnd {s} (first : Spells ws (inked base p)) (blank : Blank s.toList := by decide +kernel) :
    Spells ws (inked base (p ++ [.words s])) := by
  rw [inkedAppend,inkedCons,inkedNil,List.append_nil]
  exact spellsAfter first blank

theorem spellsThen {s} (first : Spells vs (inked base p)) (rest : Spells ws (inked base (.words s :: q)))
    (opens : Opens s.toList := by decide +kernel) (some : s.toList ≠ [] := by decide) :
    Spells (vs ++ ws) (inked base (p ++ .words s :: q)) := by
  rw [inkedAppend]
  exact spellsNext first rest opens some

theorem spellsLast {s ss} {known : ∀ t ∈ ss, t ∈ Dialect.vocabulary .braced}
    (same : wordsOf s.toList = ss.map String.toList := by decide +kernel) : Spells (fixed ss known) (inked base [.words s]) := by
  rw [inkedCons,inkedNil,List.append_nil]
  exact spellsFixed known same

theorem spellsBare (w : Word .braced) {s} (same : w.written = s.toList) : Spells [w] (inked base [.words s]) := by
  rw [inkedCons,inkedNil,List.append_nil,Ink.render,← same]
  exact spellsWord w

theorem linesShut (level : Nat) (first : Lines ws (inked base p)) : Lines ws (inked base (p ++ wordLine level "\x7d")) := by
  have shut : Lines ([] : List (Word .braced)) (inked base (wordLine level "\x7d")) :=
    linesLine _ (spellsMark spellsNothing)
  have all := linesThen first shut
  rwa [List.append_nil] at all

theorem spellsPicked (spells : Spells ws (inked base p)) : Spells (doubled ws) (inked base (picked p)) := by
  have length : Spells (fixed (d := .braced) ["length"]) (inked base [.words ".length)]"]) := spellsLast
  have index : Spells (fixed (d := .braced) ["Math","floor","Math","random"] ++ (ws ++ fixed ["length"]))
      (inked base (.words "[Math.floor(Math.random() * " :: (p ++ [.words ".length)]"]))) :=
    spellsKey (spellsThen spells length)
  have page : picked p = p ++ .words "[Math.floor(Math.random() * " :: (p ++ [.words ".length)]"]) := by
    rw [picked,List.append_assoc,List.cons_append]
  rw [page]
  exact spellsThen spells index

theorem spellsIndex (spells : Spells vs (inked base p)) (index : Spells ws (inked base q)) :
    Spells (vs ++ ws) (inked base (p ++ .words "[" :: q ++ [.words "]"])) :=
  spellsEnd (spellsThen spells (spellsMark index))

theorem spellsPush (spells : Spells vs (inked base p)) (value : Spells ws (inked base q)) :
    Spells (vs ++ (fixed ["push"] ++ ws)) (inked base (p ++ .words ".push(" :: q ++ [.words ")"] ++ [.words ";"])) :=
  spellsEnd (spellsEnd (spellsThen spells (spellsKey value)))

theorem spellsHead (literal : Bool) (spells : Spells ws (inked base p)) :
    Spells (headWords depth literal ws) (inked base (loopHead (counter depth) literal p)) := by
  have counted : Spells [.coined (d := .braced) (.counter depth)] (counter depth).toList := spellsWord (.coined (.counter depth))
  have bound : Spells [.coined (d := .braced) (.bound depth)] ((counter depth).toList ++ "End".toList) := by
    rw [← String.toList_append]
    exact spellsWord (.coined (.bound depth))
  cases literal with
  | true =>
    have shape : inked base (loopHead (counter depth) true p) = "for (let ".toList ++ ((counter depth).toList ++
        (" = 0; ".toList ++ ((counter depth).toList ++ (" < ".toList ++ (inked base p ++
        ("; ".toList ++ ((counter depth).toList ++ "++) \x7b".toList))))))) := by
      simp only [loopHead,if_true,inkedCons,inkedAppend,inkedNil,List.append_nil,Ink.render,String.toList_append,
        List.append_assoc,List.cons_append]
    rw [shape]
    refine spellsOwn (spellsNext counted (spellsOwn ?_))
    exact spellsBetween counted (spellsBetween spells (spellsAfter counted))
  | false =>
    have shape : inked base (loopHead (counter depth) false p) = "for (let ".toList ++ ((counter depth).toList ++
        (" = 0, ".toList ++ (((counter depth).toList ++ "End".toList) ++ (" = ".toList ++ (inked base p ++
        ("; ".toList ++ ((counter depth).toList ++ (" < ".toList ++ (((counter depth).toList ++ "End".toList) ++
        ("; ".toList ++ ((counter depth).toList ++ "++) \x7b".toList))))))))))) := by
      have ends : "End = ".toList = "End".toList ++ " = ".toList := by decide +kernel
      have ends' : "End; ".toList = "End".toList ++ "; ".toList := by decide +kernel
      simp only [loopHead,Bool.false_eq_true,if_false,inkedCons,inkedAppend,inkedNil,List.append_nil,Ink.render,
        String.toList_append,List.append_assoc,List.cons_append,ends,ends']
    rw [shape]
    refine spellsOwn (spellsNext counted (spellsOwn ?_))
    exact spellsBetween bound (spellsBetween spells (spellsBetween counted (spellsBetween bound (spellsAfter counted))))

mutual

theorem spellsExpr (base level depth : Nat) (e : Expr) : Spells (exprWords depth e) (inked base (expr level depth e)) := by
  cases e with
  | int span n => exact spellsBare (.number n) rfl
  | null span => exact spellsLast
  | text span s index =>
    cases index with
    | none => exact spellsBare (.leaf (.text s none)) rfl
    | some i =>
      have shape : inked base (expr level depth (.text span s (some i))) = "[...".toList ++ ((quote s).toList ++
          ("][".toList ++ ((toString i).toList ++ "].codePointAt(0)".toList))) := by
        simp only [expr,inkedCons,inkedNil,List.append_nil,Ink.render,String.toList_append,List.append_assoc]
      rw [shape]
      exact spellsBefore (spellsBetween (spellsWord (.leaf (.text s (some i))))
        (spellsAppend (spellsWord (.number i)) (spellsFixed _) (.inr (by decide +kernel))))
  | seq span items =>
    exact spellsEnd (spellsMark (spellsExprs base level depth items))
  | var p => exact spellsPlace base level depth p
  | fn span params body =>
    have shape : inked base (expr level depth (.fn span params body)) = "(".toList ++ ((parameters params).toList ++
        ((") => \x7b".toList ++ "\n".toList) ++ (inked base (block (level + 1) depth body) ++
        ((indentation (base + level)).toList ++ "\x7d".toList)))) := by
      simp only [expr,inkedCons,inkedAppend,inkedNil,List.append_nil,Ink.render,String.toList_append,List.append_assoc,
        List.cons_append,List.nil_append]
    rw [shape]
    have shut : Blank ((indentation (base + level)).toList ++ "\x7d".toList) := by
      rw [Blank,List.all_append,Bool.and_eq_true]
      exact ⟨blankIndentation _,by decide +kernel⟩
    exact spellsBefore (spellsBetween (spellsParameters params) (spellsAfter (linesBlock base (level + 1) depth body).1 shut))
  | call span name args =>
    have shape : inked base (expr level depth (.call span name args)) = name.toList ++
        ("(".toList ++ (inked base (commas (exprs level depth args)) ++ ")".toList)) := by
      simp only [expr,inkedCons,inkedAppend,inkedNil,List.append_nil,List.cons_append,Ink.render,String.toList_append,List.append_assoc]
    rw [shape]
    exact spellsBetween (spellsWord (.leaf (.call name))) (spellsAfter (spellsExprs base level depth args))
  | neg span e =>
    have operand := spellsExpr base level depth e
    simp only [expr]
    split
    · exact spellsEnd (spellsMark operand)
    · exact spellsMark operand
  | len span e => exact spellsThen (spellsExpr base level depth e) spellsLast

theorem spellsExprs (base level depth : Nat) (es : List Expr) :
    Spells (exprsWords depth es) (inked base (commas (exprs level depth es))) := by
  cases es with
  | nil => exact spellsNothing
  | cons e rest =>
    have later := spellsExprs base level depth rest
    rw [inkedCommas] at later ⊢
    exact spellsCons (spellsExpr base level depth e) later

theorem spellsPlace (base level depth : Nat) (p : Place) : Spells (placeWords depth p) (inked base (place level depth p)) := by
  cases p with
  | mk span name indices =>
    exact spellsIndexed base level depth [.words name] [.leaf (.name name)] (spellsBare (.leaf (.name name)) rfl) indices

theorem spellsIndexed (base level depth : Nat) (p : Page) (ws : List (Word .braced)) (spells : Spells ws (inked base p))
    (indices : List Expr) : Spells (indexedWords depth ws indices) (inked base (indexed level depth p indices)) := by
  cases indices with
  | nil => exact spells
  | cons e rest =>
    rw [indexedCons,indexedWords]
    refine spellsIndexed base level depth _ _ ?_ rest
    cases e.isNull with
    | true => exact spellsPicked spells
    | false => exact spellsIndex spells (spellsExpr base level depth e)

theorem spellsTarget (base level depth : Nat) (p : Page) (ws : List (Word .braced)) (spells : Spells ws (inked base p))
    (indices : List Expr) : Spells (targetWords depth ws indices) (inked base (target level depth p indices).1) := by
  cases indices with
  | nil => exact spells
  | cons e rest =>
    rw [targetCons,targetWords]
    split
    · exact spells
    · refine spellsTarget base level depth _ _ ?_ rest
      cases e.isNull with
      | true => exact spellsPicked spells
      | false => exact spellsIndex spells (spellsExpr base level depth e)

theorem linesStmt (base level depth : Nat) (s : Stmt) : Lines (stmtWords depth s) (inked base (stmt level depth s)) := by
  cases s with
  | assign span target value =>
    obtain ⟨place,name,indices⟩ := target
    have named : Spells [.leaf (d := .braced) (.name name)] (inked base [.words name]) := spellsBare (.leaf (.name name)) rfl
    -- a function that is given to a bare name is written as its definition
    cases direct : indices.isEmpty && !Indented.isPlain value with
    | true =>
      obtain ⟨rfl,literal⟩ : indices = [] ∧ Indented.isPlain value = false := by simpa using direct
      cases value with
      | fn span params body =>
        have shape : inked base [.words ("function " ++ name ++ "(" ++ parameters params ++ ") \x7b")] = "function ".toList ++
            (name.toList ++ ("(".toList ++ ((parameters params).toList ++ ") \x7b".toList))) := by
          simp only [inkedCons,inkedNil,List.append_nil,Ink.render,String.toList_append,List.append_assoc]
        have head : Spells (fixed (d := .braced) ["function"] ++ ([.leaf (.name name)] ++ names params))
            (inked base [.words ("function " ++ name ++ "(" ++ parameters params ++ ") \x7b")]) := by
          rw [shape]
          exact spellsOwn (spellsBetween (spellsWord (.leaf (.name name))) (spellsAfter (spellsParameters params)))
        have all := linesShut level (linesThen (linesLine level head) (linesBlock base (level + 1) depth body))
        rw [List.append_assoc,List.append_assoc] at all
        exact all
      | _ => contradiction
    | false =>
      have written := spellsTarget base level depth [.words name] [.leaf (.name name)] named indices
      have appends := targetAppends level depth [.words name] place name indices
      rw [assignOther direct,stmtWords,direct,← appends,if_neg Bool.false_ne_true,List.nil_append]
      cases result : target level depth [.words name] indices with
      | mk p last =>
        rw [result] at written
        cases last with
        | true => exact linesLine _ (spellsPush written (spellsExpr base level depth value))
        | false =>
          exact linesLine _ (spellsEnd (spellsThen written (spellsMark (spellsExpr base level depth value))))
  | append span target value => exact linesLine _ (spellsPush (spellsPlace base level depth target) (spellsExpr base level depth value))
  | increment span target => exact linesLine _ (spellsEnd (spellsThen (spellsPlace base level depth target) spellsLast))
  | decrement span target => exact linesLine _ (spellsEnd (spellsThen (spellsPlace base level depth target) spellsLast))
  | cond span left right cmp yes no =>
    have symbol : Blank (" " ++ comparator cmp ++ " ").toList := by cases cmp <;> decide +kernel
    have head : Spells (fixed (d := .braced) ["if"] ++ exprWords depth left ++ exprWords depth right)
        (inked base (.words "if (" :: expr level depth left ++ .words (" " ++ comparator cmp ++ " ") :: expr level depth right ++
          [.words ") \x7b"])) :=
      spellsEnd (spellsThen (spellsKey (spellsExpr base level depth left)) (spellsMark (spellsExpr base level depth right) symbol)
        (opensBlank symbol) (by cases cmp <;> decide))
    have first := linesThen (linesLine level head) (linesBlock base (level + 1) depth yes)
    cases no with
    | none => exact linesShut _ (linesThen first linesNone)
    | some b =>
      have other : Lines (fixed (d := .braced) ["else"]) (inked base (wordLine level "\x7d else \x7b")) :=
        linesLine _ spellsLast
      exact linesShut _ (linesThen first (linesThen other (linesBlock base (level + 1) depth b)))
  | loop span count body =>
    have head : Lines (if count.isNull then fixed ["while","true"] else headWords depth (isLiteral count) (exprWords depth count))
        (inked base (if count.isNull then wordLine level "while (true) \x7b"
          else line level (loopHead (counter depth) (isLiteral count) (expr level depth count)))) := by
      cases count.isNull with
      | true => exact linesLine _ spellsLast
      | false => exact linesLine _ (spellsHead (isLiteral count) (spellsExpr base level depth count))
    exact linesShut _ (linesThen head (linesBlock base (level + 1) (depth + 1) body))
  | leave span => exact linesLine _ (spellsEnd spellsLast)
  | answer span value => exact linesLine _ (spellsEnd (spellsKey (spellsExpr base level depth value)))
  | observe span value => exact linesLine _ (spellsEnd (spellsEnd (spellsKey (spellsExpr base level depth value))))
  | doctest span value expected =>
    exact linesLine _ (spellsEnd (spellsEnd (spellsThen (spellsKey (spellsExpr base level depth value))
      (spellsKey (spellsExpr base level depth expected)))))

theorem linesBlock (base level depth : Nat) (b : Block) : Lines (blockWords depth b) (inked base (block level depth b)) := by
  cases b with
  | mk span body => exact linesStmts base level depth body

theorem linesStmts (base level depth : Nat) (body : List Stmt) :
    Lines (stmtsWords depth body) (inked base (stmts level depth body)) := by
  cases body with
  | nil => exact linesNone
  | cons s rest => exact linesThen (linesStmt base level depth s) (linesStmts base level depth rest)

end

end Spelled

theorem emitSpells (indent : Nat) (body : List Stmt) : Spells (stmtsWords 0 body) (emit indent body).toList := by
  rw [emit,renderInked]
  exact (linesStmts indent 0 0 body).1

end Terakoya.Emit.Braced
