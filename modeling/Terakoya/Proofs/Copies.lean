import Terakoya.Proofs.BracedWords
import Terakoya.Proofs.IndentedWords

/-! How often a leaf of a program is written. None is left out. One is written more than once exactly if it stands before
a `?` in a chain of indices that the dialect can only write with the chain so far repeated. -/
namespace Terakoya

inductive Use where
  | read
  | assigned
  | stepped
  deriving DecidableEq, Repr

def Dialect.doubles : Dialect → Use → (last : Bool) → Bool
  | .braced,use,last => !(use = .assigned && last)
  | .indented,use,last => use = .stepped && last

mutual

def Expr.inlines (l : Leaf) : Expr → Bool
  | .int _ _ => false
  | .null _ => false
  | .text _ s index => l == .text s index
  | .seq _ items => allInline l items
  | .var (.mk _ name indices) => l == .name name || allInline l indices
  | .fn _ params (.mk _ [.answer _ value]) =>
    Emit.Indented.isPlain value && ((params.map Leaf.name).contains l || value.inlines l)
  | .fn _ _ _ => false
  | .call _ name args => l == .call name || allInline l args
  | .neg _ e => e.inlines l
  | .len _ e => e.inlines l

def allInline (l : Leaf) : List Expr → Bool
  | [] => false
  | e :: rest => e.inlines l || allInline l rest

end

def Dialect.carries (d : Dialect) (l : Leaf) (e : Expr) : Bool :=
  match d with
  | .braced => e.leaves.contains l
  | .indented => e.inlines l

mutual

def Expr.repeats (d : Dialect) (l : Leaf) : Expr → Bool
  | .int _ _ => false
  | .null _ => false
  | .text _ _ _ => false
  | .seq _ items => allRepeat d l items
  | .var p => p.repeats d l .read
  | .fn _ _ body => body.repeats d l
  | .call _ _ args => allRepeat d l args
  | .neg _ e => e.repeats d l
  | .len _ e => e.repeats d l

def allRepeat (d : Dialect) (l : Leaf) : List Expr → Bool
  | [] => false
  | e :: rest => e.repeats d l || allRepeat d l rest

def Place.repeats (d : Dialect) (l : Leaf) (use : Use) : Place → Bool
  | .mk _ name indices => chainRepeats d l use (l == .name name) indices

def chainRepeats (d : Dialect) (l : Leaf) (use : Use) (seen : Bool) : List Expr → Bool
  | [] => false
  | e :: rest =>
    if e.isNull then (seen && d.doubles use rest.isEmpty) || chainRepeats d l use seen rest
    else e.repeats d l || chainRepeats d l use (seen || d.carries l e) rest

def Stmt.repeats (d : Dialect) (l : Leaf) : Stmt → Bool
  | .assign _ target value => target.repeats d l .assigned || value.repeats d l
  | .append _ target value => target.repeats d l .read || value.repeats d l
  | .increment _ target => target.repeats d l .stepped
  | .decrement _ target => target.repeats d l .stepped
  | .cond _ left right _ yes no => left.repeats d l || (right.repeats d l || (yes.repeats d l || otherwiseRepeats d l no))
  | .loop _ count body => count.repeats d l || body.repeats d l
  | .leave _ => false
  | .answer _ value => value.repeats d l
  | .observe _ value => value.repeats d l
  | .doctest _ value expected => value.repeats d l || expected.repeats d l

def otherwiseRepeats (d : Dialect) (l : Leaf) : Option Block → Bool
  | none => false
  | some b => b.repeats d l

def Block.repeats (d : Dialect) (l : Leaf) : Block → Bool
  | .mk _ body => bodyRepeats d l body

def bodyRepeats (d : Dialect) (l : Leaf) : List Stmt → Bool
  | [] => false
  | s :: rest => s.repeats d l || bodyRepeats d l rest

end

/-- A leaf that is there `c` times is written `m` times: at least as often, more often exactly if it is repeated, and
never if it is not there. -/
structure Tallies (c m : Nat) (repeated : Bool) : Prop where
  kept : c ≤ m
  exact : m = c ↔ repeated = false
  absent : c = 0 → m = 0

section Tallies

variable {c m c' m' a b : Nat} {r r' seen : Bool}

theorem talliesSame (n : Nat) : Tallies n n false := ⟨Nat.le_refl n,by simp,id⟩

theorem talliesAdd (first : Tallies c m r) (second : Tallies c' m' r') : Tallies (c + c') (m + m') (r || r') := by
  obtain ⟨kept,exact',absent⟩ := first
  obtain ⟨kept',exact'',absent'⟩ := second
  refine ⟨by omega,?_,by omega⟩
  rw [Bool.or_eq_false_iff,← exact',← exact'']
  omega

theorem talliesTwice (tallies : Tallies c (b + a) r) (known : seen = true ↔ 0 < b) :
    Tallies c (b + (b + a)) (r || seen) := by
  obtain ⟨kept,exact',absent⟩ := tallies
  refine ⟨by omega,?_,by omega⟩
  rw [Bool.or_eq_false_iff,← exact',← Bool.not_eq_true,known]
  omega

end Tallies

namespace Word

variable {d : Dialect}

def isLeaf (l : Leaf) : Word d → Bool
  | .leaf l' => l' == l
  | _ => false

def copies (l : Leaf) (ws : List (Word d)) : Nat := ws.countP (isLeaf l)

variable {l : Leaf}

theorem copiesAppend (vs ws : List (Word d)) : copies l (vs ++ ws) = copies l vs + copies l ws := List.countP_append

theorem copiesFixed {ss} (known : ∀ s ∈ ss, s ∈ d.vocabulary) : copies l (fixed ss known) = 0 := by
  rw [copies,List.countP_eq_zero]
  intro w there
  obtain ⟨s,among,rfl⟩ := List.mem_pmap.mp there
  exact Bool.false_ne_true

theorem copiesNames (params : List String) : copies l (names (d := d) params) = (params.map Leaf.name).count l := by
  rw [copies,names,List.countP_map,List.count,List.countP_map]
  rfl

end Word

def Tallied {d : Dialect} (l : Leaf) (ls : List Leaf) (ws : List (Word d)) (repeated : Bool) : Prop :=
  Tallies (ls.count l) (Word.copies l ws) repeated

section Tallied

open Word (copies copiesAppend copiesFixed copiesNames fixed names)

variable {d : Dialect} {l : Leaf} {ls ms : List Leaf} {vs ws : List (Word d)} {r r' : Bool}

theorem talliedAppend (first : Tallied l ls vs r) (second : Tallied l ms ws r') : Tallied l (ls ++ ms) (vs ++ ws) (r || r') := by
  rw [Tallied,List.count_append,copiesAppend]
  exact talliesAdd first second

theorem talliedNone (none : copies l ws = 0) : Tallied l [] ws false := by
  rw [Tallied,none]
  exact talliesSame 0

theorem talliedFixed {ss} (known : ∀ s ∈ ss, s ∈ d.vocabulary) : Tallied l [] (fixed ss known) false :=
  talliedNone (copiesFixed known)

theorem talliedBefore (none : copies l vs = 0) (rest : Tallied l ls ws r) : Tallied l ls (vs ++ ws) r :=
  talliedAppend (talliedNone none) rest

theorem talliedAfter (none : copies l ws = 0) (first : Tallied l ls vs r) : Tallied l ls (vs ++ ws) r := by
  have all := talliedAppend first (talliedNone none)
  rwa [List.append_nil,Bool.or_false] at all

theorem talliedLeaf (l' : Leaf) : Tallied l [l'] [.leaf (d := d) l'] false := talliesSame _

theorem talliedNames (params : List String) : Tallied l (params.map Leaf.name) (names (d := d) params) false := by
  rw [Tallied,copiesNames]
  exact talliesSame _

theorem talliedSeen (tallied : Tallied l ls ws r) : ls.contains l = true ↔ 0 < copies l ws := by
  rw [List.contains_iff_mem,← List.count_pos_iff]
  obtain ⟨kept,_,absent⟩ := tallied
  omega

end Tallied

theorem inlinesNull {l} {e : Expr} (null : e.isNull = true) : e.inlines l = false := by
  cases e with
  | null span => rfl
  | _ => contradiction

theorem containsOne (l : Leaf) (name : String) : [Leaf.name name].contains l = (l == .name name) := by
  simp only [List.contains_cons,List.contains_nil,Bool.or_false]

theorem leavesNull {e : Expr} (null : e.isNull = true) : e.leaves = [] := by
  cases e with
  | null span => rfl
  | _ => contradiction

/-! In the dialect of braces -/

namespace Emit.Braced

open Word (copies copiesAppend copiesFixed fixed names)

variable {l : Leaf} {ls : List Leaf} {ws : List (Word .braced)} {r : Bool}

def chainWords (use : Use) (depth : Nat) (base : List (Word .braced)) (indices : List Expr) : List (Word .braced) :=
  if use = .assigned then targetWords depth base indices else indexedWords depth base indices

theorem chainNil (use : Use) (depth : Nat) : chainWords use depth ws [] = ws := by cases use <;> rfl

theorem chainCons (use : Use) (depth : Nat) (e : Expr) (rest : List Expr) : chainWords use depth ws (e :: rest) =
    chainWords use depth (if e.isNull then if Dialect.doubles .braced use rest.isEmpty then doubled ws else ws
      else ws ++ exprWords depth e) rest := by
  cases use with
  | assigned =>
    simp only [chainWords,if_true,targetWords,Dialect.doubles]
    cases e.isNull <;> cases rest <;> rfl
  | _ => rfl

theorem talliedDoubled (tallied : Tallied l ls ws r) : Tallied l ls (doubled ws) (r || ls.contains l) := by
  have twice : copies l (doubled ws) = copies l ws + (copies l ws + 0) := by
    simp only [doubled,copiesAppend,copiesFixed,Nat.zero_add]
  rw [Tallied,twice]
  exact talliesTwice tallied (talliedSeen tallied)

theorem talliedHead (depth : Nat) (literal : Bool) (tallied : Tallied l ls ws r) : Tallied l ls (headWords depth literal ws) r := by
  have once : copies l (headWords depth literal ws) = copies l ws := by
    have counter : copies l [.coined (d := .braced) (.counter depth)] = 0 := rfl
    have bound : copies l [.coined (d := .braced) (.bound depth)] = 0 := rfl
    simp only [headWords]
    split <;> simp only [copiesAppend,copiesFixed,counter,bound,Nat.zero_add,Nat.add_zero]
  rw [Tallied,once]
  exact tallied

mutual

theorem talliedExpr (l : Leaf) (depth : Nat) (e : Expr) : Tallied l e.leaves (exprWords depth e) (e.repeats .braced l) := by
  cases e with
  | int span n => exact talliedNone rfl
  | null span => exact talliedFixed _
  | text span s index =>
    cases index with
    | none => exact talliedLeaf _
    | some i => exact talliedAfter (copiesAppend _ _ ▸ copiesFixed _) (talliedLeaf _)
  | seq span items => exact talliedExprs l depth items
  | var p => exact talliedPlace l depth .read (by decide) p
  | fn span params body => exact talliedAppend (talliedNames params) (talliedBlock l depth body)
  | call span name args => exact talliedAppend (talliedLeaf (.call name)) (talliedExprs l depth args)
  | neg span e => exact talliedExpr l depth e
  | len span e => exact talliedAfter (copiesFixed _) (talliedExpr l depth e)

theorem talliedExprs (l : Leaf) (depth : Nat) (es : List Expr) :
    Tallied l (allLeaves es) (exprsWords depth es) (allRepeat .braced l es) := by
  cases es with
  | nil => exact talliedNone rfl
  | cons e rest => exact talliedAppend (talliedExpr l depth e) (talliedExprs l depth rest)

theorem talliedPlace (l : Leaf) (depth : Nat) (use : Use) (kept : use ≠ .assigned) (p : Place) :
    Tallied l p.leaves (placeWords depth p) (p.repeats .braced l use) := by
  cases p with
  | mk span name indices =>
    have chain := talliedChain l depth use [.name name] _ false (talliedLeaf (.name name)) indices
    rw [Bool.false_or,containsOne,chainWords,if_neg kept] at chain
    exact chain

-- the chain so far is threaded through, with the leaves it was made of
theorem talliedChain (l : Leaf) (depth : Nat) (use : Use) (ls : List Leaf) (ws : List (Word .braced)) (r : Bool)
    (tallied : Tallied l ls ws r) (indices : List Expr) : Tallied l (ls ++ allLeaves indices)
      (chainWords use depth ws indices) (r || chainRepeats .braced l use (ls.contains l) indices) := by
  cases indices with
  | nil =>
    rw [allLeaves,List.append_nil,chainRepeats,Bool.or_false,chainNil]
    exact tallied
  | cons e rest =>
    rw [allLeaves,chainCons,chainRepeats]
    cases null : e.isNull with
    | true =>
      simp only [leavesNull null,List.nil_append,if_true]
      cases Dialect.doubles .braced use rest.isEmpty with
      | true =>
        have chain := talliedChain l depth use ls _ _ (talliedDoubled tallied) rest
        rw [Bool.or_assoc] at chain
        rw [Bool.and_true]
        exact chain
      | false =>
        rw [Bool.and_false,Bool.false_or]
        exact talliedChain l depth use ls _ _ tallied rest
    | false =>
      have chain := talliedChain l depth use _ _ _ (talliedAppend tallied (talliedExpr l depth e)) rest
      rw [List.append_assoc,Bool.or_assoc,List.contains_append] at chain
      exact chain

theorem talliedStmt (l : Leaf) (depth : Nat) (s : Stmt) : Tallied l s.leaves (stmtWords depth s) (s.repeats .braced l) := by
  cases s with
  | assign span target value =>
    obtain ⟨place,name,indices⟩ := target
    have chain := talliedChain l depth .assigned [.name name] _ false (talliedLeaf (.name name)) indices
    rw [Bool.false_or,containsOne] at chain
    refine talliedBefore ?_ (talliedAppend chain (talliedBefore ?_ (talliedExpr l depth value)))
    · split
      · exact copiesFixed _
      · rfl
    · split
      · exact copiesFixed _
      · rfl
  | append span target value =>
    exact talliedAppend (talliedPlace l depth .read (by decide) target) (talliedBefore (copiesFixed _) (talliedExpr l depth value))
  | increment span target => exact talliedAfter (copiesFixed _) (talliedPlace l depth .stepped (by decide) target)
  | decrement span target => exact talliedAfter (copiesFixed _) (talliedPlace l depth .stepped (by decide) target)
  | cond span left right cmp yes no =>
    have branch {ls : List Leaf} {ws : List (Word .braced)} {r : Bool} (otherwise : Tallied l ls ws r) :
        Tallied l (left.leaves ++ (right.leaves ++ (yes.leaves ++ ls)))
          (fixed ["if"] ++ exprWords depth left ++ exprWords depth right ++ blockWords depth yes ++ ws)
          (left.repeats .braced l || (right.repeats .braced l || (yes.repeats .braced l || r))) := by
      simp only [List.append_assoc]
      exact talliedBefore (copiesFixed _) (talliedAppend (talliedExpr l depth left) (talliedAppend (talliedExpr l depth right)
        (talliedAppend (talliedBlock l depth yes) otherwise)))
    cases no with
    | none => exact branch (talliedNone rfl)
    | some b => exact branch (talliedBefore (copiesFixed _) (talliedBlock l depth b))
  | loop span count body =>
    refine talliedAppend ?_ (talliedBlock l (depth + 1) body)
    cases null : count.isNull with
    | true =>
      cases count with
      | null span => exact talliedFixed _
      | _ => contradiction
    | false => exact talliedHead depth _ (talliedExpr l depth count)
  | leave span => exact talliedFixed _
  | answer span value => exact talliedBefore (copiesFixed _) (talliedExpr l depth value)
  | observe span value => exact talliedBefore (copiesFixed _) (talliedExpr l depth value)
  | doctest span value expected =>
    exact talliedAppend (talliedBefore (copiesFixed _) (talliedExpr l depth value))
      (talliedBefore (copiesFixed _) (talliedExpr l depth expected))

theorem talliedBlock (l : Leaf) (depth : Nat) (b : Block) : Tallied l b.leaves (blockWords depth b) (b.repeats .braced l) := by
  cases b with
  | mk span body => exact talliedStmts l depth body

theorem talliedStmts (l : Leaf) (depth : Nat) (body : List Stmt) :
    Tallied l (bodyLeaves body) (stmtsWords depth body) (bodyRepeats .braced l body) := by
  cases body with
  | nil => exact talliedNone rfl
  | cons s rest => exact talliedAppend (talliedStmt l depth s) (talliedStmts l depth rest)

end

end Emit.Braced

/-! In the dialect of indented blocks -/

namespace Emit.Indented

open Word (copies copiesAppend copiesFixed copiesNames fixed names)

variable {α β : Type}

def Holds (P : α → List (Word .indented) → Prop) (r : Ledger α) : Prop := ∀ n, P (r n).value (r n).above

section Holds

variable {P : α → List (Word .indented) → Prop} {R : β → List (Word .indented) → Prop}

theorem holdsPure {a} (holds : P a []) : Holds P (pure a) := fun _ => holds

theorem holdsBind {r} {f : α → Ledger β} (first : Holds P r)
    (next : ∀ a above, P a above → Holds (fun b more => R b (above ++ more)) (f a)) : Holds R (r >>= f) :=
  fun n => next _ _ (first n) _

theorem holdsNote {P : Unit → List (Word .indented) → Prop} {ws} (holds : P () ws) : Holds P (note ws) :=
  fun _ => holds

end Holds

structure Counted (l : Leaf) (ls : List Leaf) (inlined repeated : Bool) (h a : Nat) : Prop where
  inline : inlined = true ↔ 0 < h
  all : Tallies (ls.count l) (a + h) repeated

def Notes (l : Leaf) (ls : List Leaf) (inlined repeated : Bool) (ws above : List (Word .indented)) : Prop :=
  Counted l ls inlined repeated (copies l ws) (copies l above)

def NotesLines (l : Leaf) (ls : List Leaf) (repeated : Bool) (_ : Unit) (above : List (Word .indented)) : Prop :=
  Tallied l ls above repeated

section Counted

variable {l : Leaf} {ls ms : List Leaf} {i j r s : Bool} {h h' a a' : Nat}

theorem countedAdd (first : Counted l ls i r h a) (second : Counted l ms j s h' a') :
    Counted l (ls ++ ms) (i || j) (r || s) (h + h') (a + a') := by
  refine ⟨?_,?_⟩
  · rw [Bool.or_eq_true,first.inline,second.inline]
    omega
  · have all := talliesAdd first.all second.all
    rw [List.count_append]
    rwa [show a + a' + (h + h') = a + h + (a' + h') by omega]

theorem countedNone : Counted l [] false false 0 0 := ⟨by simp,talliesSame 0⟩

theorem countedTwice (counted : Counted l ls i r h a) : Counted l ls i (r || i) (h + h) a := by
  refine ⟨?_,?_⟩
  · rw [counted.inline]
    omega
  · have all := counted.all
    rw [Nat.add_comm a h] at all
    have twice := talliesTwice all counted.inline
    rwa [show a + (h + h) = h + (h + a) by omega]

theorem countedLeaf (l' : Leaf) : Counted l [l'] (l == l') false (copies l [.leaf (d := .indented) l']) 0 := by
  have same : copies l [.leaf (d := .indented) l'] = [l'].count l := rfl
  refine ⟨?_,?_⟩
  · rw [same,List.count_pos_iff,List.mem_singleton,beq_iff_eq]
  · rw [same,Nat.zero_add]
    exact talliesSame _

theorem countedNames (params : List String) :
    Counted l (params.map Leaf.name) ((params.map Leaf.name).contains l) false (copies l (names (d := .indented) params)) 0 := by
  refine ⟨?_,?_⟩
  · rw [copiesNames,List.count_pos_iff,List.contains_iff_mem]
  · rw [copiesNames,Nat.zero_add]
    exact talliesSame _

theorem countedAbove {above : List (Word .indented)} (tallied : Tallied l ls above r) :
    Counted l ls false r 0 (copies l above) := ⟨by simp,tallied⟩

end Counted

section Notes

variable {l : Leaf} {ls ms : List Leaf} {i j r s : Bool}

def picked (use : Use) (last : Bool) (base : List (Word .indented)) : List (Word .indented) :=
  if use = .assigned && last then base else pickedWords (Dialect.doubles .indented use last) base

theorem copiesPicked (use : Use) (last : Bool) (ws : List (Word .indented)) : copies l (picked use last ws) =
    if Dialect.doubles .indented use last then copies l ws + copies l ws else copies l ws := by
  cases use <;> cases last <;> simp [picked,pickedWords,Dialect.doubles,copiesAppend,copiesFixed]

def chainWords (use : Use) (base : List (Word .indented)) (indices : List Expr) : Ledger (List (Word .indented)) :=
  if use = .assigned then targetWords base indices else indexedWords (use = .stepped) base indices

theorem chainNil (use : Use) (ws : List (Word .indented)) : chainWords use ws [] = pure ws := by cases use <;> rfl

theorem chainCons (use : Use) (ws : List (Word .indented)) (e : Expr) (rest : List Expr) : chainWords use ws (e :: rest) =
    if e.isNull then chainWords use (picked use rest.isEmpty ws) rest
    else exprWords e >>= fun index => chainWords use (ws ++ index) rest := by
  cases use with
  | assigned =>
    simp only [chainWords,if_true,targetWords]
    cases e.isNull <;> cases rest <;> rfl
  | _ => rfl

theorem notesHoisted (params : List String) {above : List (Word .indented)} (n : Nat) (tallied : Tallied l ls above r) :
    Notes l (params.map Leaf.name ++ ls) false r [.coined (.hoisted n)]
      (fixed ["def"] ++ ([.coined (.hoisted n)] ++ names params) ++ above) := by
  refine countedAbove ?_
  simp only [List.append_assoc]
  exact talliedBefore (copiesFixed _) (talliedBefore rfl (talliedAppend (talliedNames params) tallied))

theorem notesLine {p} {f : List (Word .indented) → List (Word .indented)}
    (notes : Holds (Notes l ls i r) p) (same : ∀ ws, copies l (f ws) = copies l ws) :
    Holds (NotesLines l ls r) (p >>= fun ws => note (f ws)) := by
  refine holdsBind notes fun ws above counted => holdsNote ?_
  have all := counted.all
  rwa [← same ws,← copiesAppend] at all

theorem notesTwo {p q} {f : List (Word .indented) → List (Word .indented) → List (Word .indented)}
    (first : Holds (Notes l ls i r) p) (second : Holds (Notes l ms j s) q)
    (same : ∀ vs ws, copies l (f vs ws) = copies l vs + copies l ws) :
    Holds (NotesLines l (ls ++ ms) (r || s)) (p >>= fun vs => q >>= fun ws => note (f vs ws)) := by
  refine holdsBind first fun vs above counted => holdsBind second fun ws more counted' => holdsNote ?_
  have all := (countedAdd counted counted').all
  rw [← same vs ws,← copiesAppend,← copiesAppend] at all
  rwa [← List.append_assoc]

theorem notesThen {p q} (first : Holds (NotesLines l ls r) p) (second : Holds (NotesLines l ms s) q) :
    Holds (NotesLines l (ls ++ ms) (r || s)) (p >>= fun _ => q) :=
  holdsBind first fun _ _ before n => talliedAppend before (second n)

end Notes

mutual

theorem notesExpr (l : Leaf) (e : Expr) : Holds (Notes l e.leaves (e.inlines l) (e.repeats .indented l)) (exprWords e) := by
  cases e with
  | int span n => exact holdsPure countedNone
  | null span =>
    refine holdsPure ?_
    rw [Notes,copiesFixed]
    exact countedNone
  | text span s index =>
    cases index with
    | none => exact holdsPure (countedLeaf _)
    | some i =>
      refine holdsPure ?_
      rw [Notes,copiesAppend,copiesFixed,Nat.zero_add,copiesAppend]
      exact countedLeaf _
  | seq span items => exact notesExprs l items
  | var p => exact notesPlace l .read (by decide) p
  | fn span params body =>
    -- all of a function is in lines above, unless its body is one answer that fits in the line
    have hoisted : Holds (Notes l (params.map Leaf.name ++ body.leaves) false (body.repeats .indented l))
        (do
          let n ← count
          note (fixed ["def"] ++ ([.coined (.hoisted n)] ++ names params))
          blockWords body
          return [.coined (.hoisted n)]) := by
      intro n
      have all := notesHoisted params (n + 1) (notesBlock l body (n + 1))
      rwa [← List.append_nil (blockWords body (n + 1)).above] at all
    obtain ⟨place,body⟩ := body
    rcases body with _ | ⟨s,_ | ⟨s',rest⟩⟩
    · exact hoisted
    · cases s with
      | answer span value =>
        have leaves : (Block.mk place [.answer span value]).leaves = value.leaves := List.append_nil _
        have repeats : (Block.mk place [.answer span value]).repeats .indented l = value.repeats .indented l := Bool.or_false _
        cases simple : isPlain value with
        | true =>
          simp only [exprWords,Expr.leaves,Expr.inlines,Expr.repeats,leaves,repeats,simple,if_true,Bool.true_and]
          refine holdsBind (notesExpr l value) fun ws above counted => holdsPure ?_
          have all := countedAdd (countedNames params) counted
          rw [Notes,copiesAppend,copiesFixed,Nat.zero_add,copiesAppend,List.append_nil]
          rwa [Nat.zero_add] at all
        | false =>
          simp only [blockWords,stmtsWords,stmtWords,bind_assoc,pure_bind] at hoisted
          simp only [exprWords,Expr.leaves,Expr.inlines,Expr.repeats,simple,Bool.false_eq_true,if_false,Bool.false_and]
          exact hoisted
      | _ => exact hoisted
    · cases s <;> exact hoisted
  | call span name args =>
    refine holdsBind (notesExprs l args) fun ws above counted => holdsPure ?_
    rw [Notes,copiesAppend,List.append_nil]
    have all := countedAdd (countedLeaf (.call name)) counted
    rwa [Nat.zero_add] at all
  | neg span e => exact notesExpr l e
  | len span e =>
    refine holdsBind (notesExpr l e) fun ws above counted => holdsPure ?_
    rw [Notes,copiesAppend,copiesFixed,Nat.zero_add,List.append_nil]
    exact counted

theorem notesExprs (l : Leaf) (es : List Expr) :
    Holds (Notes l (allLeaves es) (allInline l es) (allRepeat .indented l es)) (exprsWords es) := by
  cases es with
  | nil => exact holdsPure countedNone
  | cons e rest =>
    refine holdsBind (notesExpr l e) fun vs above first => holdsBind (notesExprs l rest) fun ws more later => holdsPure ?_
    simp only [Notes,copiesAppend,List.append_nil]
    exact countedAdd first later

theorem notesPlace (l : Leaf) (use : Use) (kept : use ≠ .assigned) (p : Place) :
    Holds (Notes l p.leaves ((Expr.var p).inlines l) (p.repeats .indented l use)) (placeWords (use = .stepped) p) := by
  cases p with
  | mk span name indices =>
    have chain := notesChain l use [.name name] _ _ false _ (countedLeaf (.name name)) indices
    rw [Bool.false_or,chainWords,if_neg kept] at chain
    simp only [Nat.zero_add] at chain
    exact chain

-- the chain so far is threaded through: what it holds in its own text is all that a `?` can repeat
theorem notesChain (l : Leaf) (use : Use) (ls : List Leaf) (ws : List (Word .indented)) (seen r : Bool) (a : Nat)
    (counted : Counted l ls seen r (copies l ws) a) (indices : List Expr) :
    Holds (fun vs above => Counted l (ls ++ allLeaves indices) (seen || allInline l indices)
      (r || chainRepeats .indented l use seen indices) (copies l vs) (a + copies l above)) (chainWords use ws indices) := by
  cases indices with
  | nil =>
    rw [allLeaves,List.append_nil,allInline,Bool.or_false,chainRepeats,Bool.or_false,chainNil]
    exact holdsPure counted
  | cons e rest =>
    rw [allLeaves,allInline,chainCons,chainRepeats]
    cases null : e.isNull with
    | true =>
      have again := copiesPicked (l := l) use rest.isEmpty ws
      simp only [leavesNull null,inlinesNull null,if_true,List.nil_append,Bool.false_or]
      cases twice : Dialect.doubles .indented use rest.isEmpty with
      | true =>
        rw [twice,if_pos rfl] at again
        have chain := notesChain l use ls _ _ _ a (again ▸ countedTwice counted) rest
        rw [Bool.or_assoc] at chain
        rw [Bool.and_true]
        exact chain
      | false =>
        rw [twice,if_neg Bool.false_ne_true] at again
        rw [Bool.and_false,Bool.false_or]
        exact notesChain l use ls _ _ _ a (again ▸ counted) rest
    | false =>
      refine holdsBind (notesExpr l e) fun vs above inner => ?_
      have both := countedAdd counted inner
      rw [← copiesAppend] at both
      have chain := notesChain l use _ _ _ _ _ both rest
      rw [List.append_assoc,Bool.or_assoc,Bool.or_assoc] at chain
      simp only [copiesAppend,← Nat.add_assoc]
      exact chain

theorem notesStmt (l : Leaf) (s : Stmt) : Holds (NotesLines l s.leaves (s.repeats .indented l)) (stmtWords s) := by
  cases s with
  | assign span target value =>
    obtain ⟨place,name,indices⟩ := target
    have base : Holds (Notes l (.name name :: allLeaves indices) (l == .name name || allInline l indices)
        (chainRepeats .indented l .assigned (l == .name name) indices)) (targetWords [.leaf (.name name)] indices) := by
      have chain := notesChain l .assigned [.name name] _ _ false _ (countedLeaf (.name name)) indices
      rw [Bool.false_or] at chain
      simp only [Nat.zero_add] at chain
      exact chain
    have general := notesTwo base (notesExpr l value) fun vs ws => show
        copies l (vs ++ ((if (Place.mk place name indices).appends then fixed ["append"] else []) ++ ws)) = _ by
      split <;> simp only [copiesAppend,copiesFixed,Nat.zero_add,List.nil_append]
    cases indices with
    | nil =>
      cases value with
      | fn span params body =>
        have head : Holds (NotesLines l (.name name :: params.map Leaf.name) false)
            (note (fixed ["def"] ++ ([.leaf (.name name)] ++ names params))) :=
          holdsNote (talliedBefore (copiesFixed _) (talliedAppend (talliedLeaf (.name name)) (talliedNames params)))
        have all := notesThen head (notesBlock l body)
        rw [List.cons_append] at all
        exact all
      | _ => exact general
    | cons e rest => exact general
  | append span target value =>
    exact notesTwo (notesPlace l .read (by decide) target) (notesExpr l value) fun vs ws => by
      simp only [copiesAppend,copiesFixed,Nat.zero_add]
  | increment span target =>
    exact notesLine (notesPlace l .stepped (by decide) target) fun ws => by simp only [copiesAppend,copiesFixed,Nat.add_zero]
  | decrement span target =>
    exact notesLine (notesPlace l .stepped (by decide) target) fun ws => by simp only [copiesAppend,copiesFixed,Nat.add_zero]
  | cond span left right cmp yes no =>
    have branch {ms : List Leaf} {r : Bool} {other : Ledger Unit} (otherwise : Holds (NotesLines l ms r) other) :
        Holds (NotesLines l (left.leaves ++ (right.leaves ++ (yes.leaves ++ ms)))
          (left.repeats .indented l || (right.repeats .indented l || (yes.repeats .indented l || r))))
          (do
            let vs ← exprWords left
            let ws ← exprWords right
            note (fixed ["if"] ++ (vs ++ ws))
            blockWords yes
            other) := by
      have line := notesTwo (notesExpr l left) (notesExpr l right) fun vs ws => show copies l (fixed ["if"] ++ (vs ++ ws)) = _ by
        simp only [copiesAppend,copiesFixed,Nat.zero_add]
      have all := notesThen line (notesThen (notesBlock l yes) otherwise)
      simpa only [bind_assoc,List.append_assoc,Bool.or_assoc] using all
    cases no with
    | none => exact branch (holdsPure (talliedNone rfl))
    | some b => exact branch (notesThen (holdsNote (talliedFixed _)) (notesBlock l b))
  | loop span times body =>
    cases null : times.isNull with
    | true =>
      cases times with
      | null span => exact notesThen (holdsNote (talliedFixed _)) (notesBlock l body)
      | _ => contradiction
    | false =>
      have ignored : copies l [.coined .ignored] = 0 := rfl
      have head := notesLine (notesExpr l times) fun ws => show
          copies l (fixed ["for"] ++ ([.coined .ignored] ++ (fixed ["in","range"] ++ ws))) = _ by
        simp only [copiesAppend,copiesFixed,ignored,Nat.zero_add]
      have all := notesThen head (notesBlock l body)
      simp only [bind_assoc] at all
      simp only [stmtWords,null,Bool.false_eq_true,if_false]
      exact all
  | leave span => exact holdsNote (talliedFixed _)
  | answer span value => exact notesLine (notesExpr l value) fun ws => by simp only [copiesAppend,copiesFixed,Nat.zero_add]
  | observe span value => exact notesLine (notesExpr l value) fun ws => by simp only [copiesAppend,copiesFixed,Nat.zero_add]
  | doctest span value expected =>
    exact notesTwo (notesExpr l value) (notesExpr l expected) fun vs ws => by
      simp only [copiesAppend,copiesFixed,Nat.zero_add]

theorem notesBlock (l : Leaf) (b : Block) : Holds (NotesLines l b.leaves (b.repeats .indented l)) (blockWords b) := by
  obtain ⟨span,body⟩ := b
  cases body with
  | nil => exact holdsNote (talliedFixed _)
  | cons s rest => exact notesStmts l (s :: rest)

theorem notesStmts (l : Leaf) (body : List Stmt) :
    Holds (NotesLines l (bodyLeaves body) (bodyRepeats .indented l body)) (stmtsWords body) := by
  cases body with
  | nil => exact holdsPure (talliedNone rfl)
  | cons s rest =>
    exact notesThen (notesStmt l s) (notesStmts l rest)

end

theorem talliedProgram (l : Leaf) (body : List Stmt) :
    Tallied l (bodyLeaves body) (programWords body) (bodyRepeats .indented l body) := by
  refine talliedBefore ?_ (notesStmts l body 0)
  split
  · exact copiesFixed _
  · rfl

end Emit.Indented

namespace Dialect

def words : (d : Dialect) → List Stmt → List (Word d)
  | .braced,body => Emit.Braced.stmtsWords 0 body
  | .indented,body => Emit.Indented.programWords body

theorem spelled (d : Dialect) (indent : Nat) (body : List Stmt) : Emit.Spells (d.words body) (d.emit indent body).toList := by
  cases d with
  | braced => exact Emit.Braced.emitSpells indent body
  | indented => exact Emit.Indented.emitSpells indent body

theorem tallied (d : Dialect) (l : Leaf) (body : List Stmt) :
    Tallied l (bodyLeaves body) (d.words body) (bodyRepeats d l body) := by
  cases d with
  | braced => exact Emit.Braced.talliedStmts l 0 body
  | indented => exact Emit.Indented.talliedProgram l body

theorem translateFine (d : Dialect) (indent : Nat) {t} (fine : ((Parse.strict t).diagnostics "").isEmpty) :
    d.translate indent t = .ok (d.emit indent (Parse.strict t).program.body) := by
  simp only [translate,List.isEmpty_iff.mp fine]

theorem translateEmits {d : Dialect} {indent t out} (translated : d.translate indent t = .ok out) :
    out = d.emit indent (Parse.strict t).program.body := by
  simp only [translate] at translated
  split at translated
  · contradiction
  · exact (Except.ok.inj translated).symm

end Dialect

end Terakoya
