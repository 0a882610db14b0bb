import Terakoya.Proofs.OutputText

/-! Pages of the dialect of braces, read from left to right. A line begins with its blank and has words after it, and no
words run over the end of a line. What an expression or a statement opens it closes again. -/
namespace Terakoya.Emit.Braced

open Brackets

inductive Column where
  | start
  | begun (bare : Bool)
  deriving DecidableEq, Repr

inductive Takes : Column → List Char → Column → List Char → Page → Prop where
  | done {x o} : Takes x o x o []
  | words {bare y o o' o'' s p} (some : s.toList ≠ [])
      (reads : Reads o o' s.toList) (rest : Takes (.begun false) o' y o'' p) : Takes (.begun bare) o y o'' (.words s :: p)
  | indent {y o o' level p} (rest : Takes (.begun true) o y o' p) :
      Takes .start o y o' (.indent level :: p)
  | newline {y o o' p} (rest : Takes .start o y o' p) :
      Takes (.begun false) o y o' (.newline :: p)

section Takes

variable {x y z : Column} {o o' o'' : List Char} {p q : Page} {bare : Bool} {level : Nat}

theorem takesAppend {u} (first : Takes x o y u p) (second : Takes y u z o'' q) : Takes x o z o'' (p ++ q) := by
  induction first with
  | done => exact second
  | words some reads rest ih => exact .words some reads (ih second)
  | indent rest ih => exact .indent (ih second)
  | newline rest ih => exact .newline (ih second)

theorem takesUnder (takes : Takes x o y o' p) (w : List Char) : Takes x (o ++ w) y (o' ++ w) p := by
  induction takes with
  | done => exact .done
  | words some reads rest ih =>
    refine .words some ⟨fun waiting => ?_,reads.inline⟩ ih
    simpa only [List.append_assoc] using reads.nests (w ++ waiting)
  | indent rest ih => exact .indent ih
  | newline rest ih => exact .newline ih

theorem takesThen (first : Takes x [] y [] p) (second : Takes y o z o' q) : Takes x o z o' (p ++ q) :=
  takesAppend (takesUnder first o) second

theorem takesOne {s} (some : s.toList ≠ []) (reads : Reads o o' s.toList) :
    Takes (.begun bare) o (.begun false) o' [.words s] := .words some reads .done

def following (o : List Char) (s : String) : List Char := ((scan (.plain,o) s.toList).map Prod.snd).getD []

def isStretch (o : List Char) (s : String) : Bool :=
  scan (.plain,o) s.toList == some (.plain,following o s) && (!s.toList.contains '\n' && !s.toList.isEmpty)

theorem takesWords {s} (rest : Takes (.begun false) (following o s) y o' p)
    (fits : isStretch o s := by decide +kernel) : Takes (.begun bare) o y o' (.words s :: p) := by
  simp only [isStretch,Bool.and_eq_true,beq_iff_eq,Bool.not_eq_true',List.isEmpty_eq_false_iff] at fits
  obtain ⟨scans,inline,some⟩ := fits
  exact .words some (readsFixed scans (by simpa using inline)) rest

theorem takesDone (same : o = o' := by decide +kernel) : Takes x o x o' [] := same ▸ .done

theorem takesLine (inner : Takes (.begun true) o (.begun false) o' p) : Takes .start o .start o' (line level p) :=
  .indent (takesAppend inner (.newline .done))

theorem takesStatement (inner : Takes (.begun true) [] (.begun false) [] p) : Takes .start [] .start [] (statementLine level p) :=
  takesLine (takesAppend inner (takesWords takesDone))

theorem takesScan (takes : Takes x o y o' p) (base : Nat) (waiting : List Char) :
    scan (.plain,o ++ waiting) (inked base p) = some (.plain,o' ++ waiting) := by
  induction takes with
  | done => rfl
  | words some reads rest ih => rw [inkedCons,scanAppend,Ink.render,reads.nests,Option.bind_some,ih]
  | @indent y o o' level p rest ih =>
    rw [inkedCons,scanAppend,Ink.render,(readsUnder (readsIndentation _) o).nests,Option.bind_some,ih]
  | newline rest ih =>
    rw [inkedCons,scanAppend,Ink.render]
    exact ih

end Takes

abbrev Steady (p : Page) : Prop := ∀ bare, Takes (.begun bare) [] (.begun false) [] p

section Steady

variable {o o' : List Char} {p q : Page} {level depth : Nat}

theorem steadyText {s} (some : s.toList ≠ []) (reads : Reads [] [] s.toList) : Steady [.words s] :=
  fun _ => takesOne some reads

theorem steadyName {name} (wordy : Wordlike name) : Steady [.words name] := by
  obtain ⟨c,there,_⟩ := wordy.letter
  exact steadyText (List.ne_nil_of_mem there) (readsWord wordy.chars)

theorem takesWoven {bare s} (ps : List String) (xs : List (List Char)) (each : ∀ x ∈ xs, Reads [] [] x)
    (shape : s.toList = weave ps xs) (opens : opened o ps = some o' := by decide +kernel) (some : s.toList ≠ [] := by simp) :
    Takes (.begun bare) o (.begun false) o' [.words s] := by
  refine takesOne some ?_
  rw [shape]
  exact readsWeave opens each

theorem takesCommas {ps} (each : ∀ p ∈ ps, Steady p) : Takes (.begun false) [] (.begun false) [] (commas ps) := by
  induction ps with
  | nil => exact .done
  | cons p ps ih =>
    obtain ⟨first,rest⟩ := List.forall_mem_cons.mp each
    cases ps with
    | nil => exact first false
    | cons q ps => exact takesThen (first false) (takesWords (ih rest))

theorem steadyPicked (steady : Steady p) : Steady (picked p) := by
  intro bare
  rw [picked,List.append_assoc]
  exact takesThen (steady bare) (takesWords (takesThen (steady false) (takesWords takesDone)))

theorem steadyIndex (steady : Steady p) (index : Steady q) : Steady (p ++ .words "[" :: q ++ [.words "]"]) := by
  intro bare
  rw [List.append_assoc]
  exact takesThen (steady bare) (takesWords (takesThen (index false) (takesWords takesDone)))

theorem steadyPush (steady : Steady p) (value : Steady q) : Steady (p ++ .words ".push(" :: q ++ [.words ")"]) := by
  intro bare
  rw [List.append_assoc]
  exact takesThen (steady bare) (takesWords (takesThen (value false) (takesWords takesDone)))

theorem readsCounter (depth : Nat) : Reads [] [] (counter depth).toList := by
  unfold counter
  split
  · exact readsFixed
  · exact readsFixed
  · exact readsFixed
  · rw [String.toList_append]
    exact readsAppend readsFixed (readsNumber _)

theorem takesHead (literal : Bool) (count : Steady p) :
    Takes (.begun true) [] (.begun false) ['\x7d'] (loopHead (counter depth) literal p) := by
  have each (k : Nat) : ∀ x ∈ List.replicate k (counter depth).toList, Reads [] [] x := fun x there =>
    List.eq_of_mem_replicate there ▸ readsCounter depth
  cases literal with
  | true =>
    refine takesAppend (p := [_]) (u := [')']) (takesWoven ["for (let "," = 0; "," < "] _ (each 2) ?_) (takesThen (count false)
      (takesWoven ["; ","++) \x7b"] _ (each 1) ?_)) <;> simp [weave]
  | false =>
    refine takesAppend (p := [_]) (u := [')']) (takesWoven ["for (let "," = 0, ","End = "] _ (each 2) ?_) (takesThen (count false)
      (takesWoven ["; "," < ","End; ","++) \x7b"] _ (each 3) ?_)) <;> simp [weave]

end Steady

mutual

theorem steadyExpr (level depth : Nat) (e : Expr) (wordy : Bears Leaf.Wordy e.leaves) : Steady (expr level depth e) := by
  intro bare
  cases e with
  | int span n => exact steadyText (by simp) (readsNumber n) bare
  | null span => exact takesWords takesDone
  | text span s index =>
    cases index with
    | none => exact steadyText (by simp [quote]) (readsQuote s) bare
    | some i =>
      refine takesWoven ["[...","][","].codePointAt(0)"] [(quote s).toList,(toString i).toList] ?_ (by simp [weave])
      exact List.forall_mem_cons.mpr ⟨readsQuote s,List.forall_mem_singleton.mpr (readsNumber i)⟩
  | seq span items => exact takesWords (takesThen (takesCommas (steadyExprs level depth items wordy)) (takesWords takesDone))
  | var p => exact steadyPlace level depth p wordy bare
  | fn span params body =>
    have inner := takesBlock (level + 1) depth body (List.forall_mem_append.mp wordy).2
    have head : Takes (.begun bare) [] (.begun false) ['\x7d'] [.words ("(" ++ parameters params ++ ") => \x7b")] := by
      refine takesWoven ["(",") => \x7b"] [(parameters params).toList] ?_ (by simp [weave])
      simpa using readsParameters wordy
    exact takesAppend (takesAppend (takesAppend head (.newline .done)) (takesUnder inner _)) (.indent (takesWords takesDone))
  | call span name args =>
    obtain ⟨wordlike,rest⟩ := List.forall_mem_cons.mp wordy
    have head : Takes (.begun bare) [] (.begun false) [')'] [.words (name ++ "(")] := by
      refine takesWoven ["","("] [name.toList] ?_ (by simp [weave])
      simpa using readsWord wordlike.chars
    exact takesAppend (p := [_]) head (takesThen (takesCommas (steadyExprs level depth args rest)) (takesWords takesDone))
  | neg span e =>
    have operand := steadyExpr level depth e wordy false
    simp only [expr]
    split
    · exact takesWords (takesThen operand (takesWords takesDone))
    · exact takesWords operand
  | len span e => exact takesThen (steadyExpr level depth e wordy bare) (takesWords takesDone)

theorem steadyExprs (level depth : Nat) (es : List Expr) (wordy : Bears Leaf.Wordy (allLeaves es)) :
    ∀ p ∈ exprs level depth es, Steady p := by
  cases es with
  | nil => exact List.forall_mem_nil _
  | cons e rest =>
    obtain ⟨first,later⟩ := List.forall_mem_append.mp wordy
    exact List.forall_mem_cons.mpr ⟨steadyExpr level depth e first,steadyExprs level depth rest later⟩

theorem steadyPlace (level depth : Nat) (p : Place) (wordy : Bears Leaf.Wordy p.leaves) : Steady (place level depth p) := by
  obtain ⟨span,name,indices⟩ := p
  obtain ⟨wordlike,rest⟩ := List.forall_mem_cons.mp wordy
  exact steadyIndexed level depth [.words name] (steadyName wordlike) indices rest

theorem steadyIndexed (level depth : Nat) (p : Page) (steady : Steady p) (indices : List Expr)
    (wordy : Bears Leaf.Wordy (allLeaves indices)) : Steady (indexed level depth p indices) := by
  cases indices with
  | nil => exact steady
  | cons e rest =>
    obtain ⟨first,later⟩ := List.forall_mem_append.mp wordy
    rw [indexedCons]
    refine steadyIndexed level depth _ ?_ rest later
    cases e.isNull with
    | true => exact steadyPicked steady
    | false => exact steadyIndex steady (steadyExpr level depth e first)

theorem steadyTarget (level depth : Nat) (p : Page) (steady : Steady p) (indices : List Expr)
    (wordy : Bears Leaf.Wordy (allLeaves indices)) : Steady (target level depth p indices).1 := by
  cases indices with
  | nil => exact steady
  | cons e rest =>
    obtain ⟨first,later⟩ := List.forall_mem_append.mp wordy
    rw [targetCons]
    split
    · exact steady
    · refine steadyTarget level depth _ ?_ rest later
      cases e.isNull with
      | true => exact steadyPicked steady
      | false => exact steadyIndex steady (steadyExpr level depth e first)

theorem takesStmt (level depth : Nat) (s : Stmt) (wordy : Bears Leaf.Wordy s.leaves) :
    Takes .start [] .start [] (stmt level depth s) := by
  -- a block between the line that opens it and the one that closes it
  have braced {head body rest : Page} (opens : Takes .start [] .start ['\x7d'] head) (inner : Takes .start [] .start [] body)
      (closes : Takes .start ['\x7d'] .start [] rest) : Takes .start [] .start [] (head ++ body ++ rest) :=
    takesAppend (takesAppend opens (takesUnder inner _)) closes
  have shut : Takes .start ['\x7d'] .start [] (wordLine level "\x7d") := takesLine (takesWords takesDone)
  cases s with
  | assign span target value =>
    obtain ⟨place,name,indices⟩ := target
    obtain ⟨there,valued⟩ := List.forall_mem_append.mp wordy
    obtain ⟨wordlike,inner⟩ := List.forall_mem_cons.mp there
    -- a function that is given to a bare name is written as its definition
    cases direct : indices.isEmpty && !Indented.isPlain value with
    | true =>
      obtain ⟨rfl,literal⟩ : indices = [] ∧ Indented.isPlain value = false := by simpa using direct
      cases value with
      | fn span params body =>
        refine braced (takesLine ?_) (takesBlock (level + 1) depth body (List.forall_mem_append.mp valued).2) shut
        refine takesWoven ["function ","(",") \x7b"] [name.toList,(parameters params).toList] ?_ (by simp [weave])
        simpa using ⟨readsWord wordlike.chars,readsParameters valued⟩
      | _ => contradiction
    | false =>
      have aims := steadyTarget level depth [.words name] (steadyName wordlike) indices inner
      have gives := steadyExpr level depth value valued
      rw [assignOther direct]
      cases result : target level depth [.words name] indices with
      | mk p last =>
        rw [result] at aims
        cases last with
        | true => exact takesStatement (steadyPush aims gives true)
        | false => exact takesStatement (takesThen (aims true) (takesWords (gives false)))
  | append span target value =>
    obtain ⟨there,valued⟩ := List.forall_mem_append.mp wordy
    exact takesStatement (steadyPush (steadyPlace level depth target there) (steadyExpr level depth value valued) true)
  | increment span target => exact takesStatement (takesThen (steadyPlace level depth target wordy true) (takesWords takesDone))
  | decrement span target => exact takesStatement (takesThen (steadyPlace level depth target wordy true) (takesWords takesDone))
  | cond span left right cmp yes no =>
    obtain ⟨first,others⟩ := List.forall_mem_append.mp wordy
    obtain ⟨second,branches⟩ := List.forall_mem_append.mp others
    obtain ⟨chosen,otherwise⟩ := List.forall_mem_append.mp branches
    have head : Takes .start [] .start ['\x7d'] (line level (.words "if (" :: expr level depth left ++
        .words (" " ++ comparator cmp ++ " ") :: expr level depth right ++ [.words ") \x7b"])) := by
      refine takesLine ?_
      rw [List.append_assoc]
      refine takesWords (takesThen (steadyExpr level depth left first false) ?_)
      cases cmp <;> exact takesWords (takesThen (steadyExpr level depth right second false) (takesWords takesDone))
    cases no with
    | none =>
      have all := braced head (takesBlock (level + 1) depth yes chosen) shut
      rw [stmt,List.append_nil]
      exact all
    | some b =>
      have other : Takes .start ['\x7d'] .start [] ((wordLine level "\x7d else \x7b" ++ block (level + 1) depth b) ++
          wordLine level "\x7d") :=
        takesAppend (takesAppend (u := ['\x7d']) (takesLine (takesWords takesDone))
          (takesUnder (takesBlock (level + 1) depth b otherwise) _)) shut
      have all := braced head (takesBlock (level + 1) depth yes chosen) other
      rw [stmt,List.append_assoc]
      exact all
  | loop span count body =>
    obtain ⟨first,inner⟩ := List.forall_mem_append.mp wordy
    refine braced ?_ (takesBlock (level + 1) (depth + 1) body inner) shut
    cases count.isNull with
    | true => exact takesLine (takesWords takesDone)
    | false => exact takesLine (takesHead (isLiteral count) (steadyExpr level depth count first))
  | leave span => exact takesStatement (takesWords takesDone)
  | answer span value => exact takesStatement (takesWords (steadyExpr level depth value wordy false))
  | observe span value =>
    exact takesStatement (takesWords (takesThen (steadyExpr level depth value wordy false) (takesWords takesDone)))
  | doctest span value expected =>
    obtain ⟨first,second⟩ := List.forall_mem_append.mp wordy
    refine takesStatement ?_
    rw [List.append_assoc]
    exact takesWords (takesThen (steadyExpr level depth value first false)
      (takesWords (takesThen (steadyExpr level depth expected second false) (takesWords takesDone))))

theorem takesBlock (level depth : Nat) (b : Block) (wordy : Bears Leaf.Wordy b.leaves) :
    Takes .start [] .start [] (block level depth b) := by
  cases b with
  | mk span body => exact takesStmts level depth body wordy

theorem takesStmts (level depth : Nat) (body : List Stmt) (wordy : Bears Leaf.Wordy (bodyLeaves body)) :
    Takes .start [] .start [] (stmts level depth body) := by
  cases body with
  | nil => exact .done
  | cons s rest =>
    obtain ⟨first,later⟩ := List.forall_mem_append.mp wordy
    exact takesAppend (takesStmt level depth s first) (takesStmts level depth rest later)

end

end Terakoya.Emit.Braced
