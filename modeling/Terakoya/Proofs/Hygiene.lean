import Terakoya.Proofs.Copies

/-! The names that a dialect makes up. They are known from the program: a counter for each counted loop, by the loops
around it, and a name for each function that is defined above its statement. No two are the same, and one of them is
a name of the program only if the program uses it for something else. -/
namespace Terakoya

structure Counting where
  depth : Nat
  literal : Bool
  deriving DecidableEq, Repr

mutual

def Expr.countings (depth : Nat) : Expr → List Counting
  | .int _ _ => []
  | .null _ => []
  | .text _ _ _ => []
  | .seq _ items => allCountings depth items
  | .var p => p.countings depth
  | .fn _ _ body => body.countings depth
  | .call _ _ args => allCountings depth args
  | .neg _ e => e.countings depth
  | .len _ e => e.countings depth

def allCountings (depth : Nat) : List Expr → List Counting
  | [] => []
  | e :: rest => e.countings depth ++ allCountings depth rest

def Place.countings (depth : Nat) : Place → List Counting
  | .mk _ _ indices => allCountings depth indices

def Stmt.countings (depth : Nat) : Stmt → List Counting
  | .assign _ target value => target.countings depth ++ value.countings depth
  | .append _ target value => target.countings depth ++ value.countings depth
  | .increment _ target => target.countings depth
  | .decrement _ target => target.countings depth
  | .cond _ left right _ yes no =>
    left.countings depth ++ (right.countings depth ++ (yes.countings depth ++ otherwiseCountings depth no))
  | .loop _ count body =>
    (if count.isNull then [] else count.countings depth ++ [⟨depth,Emit.Braced.isLiteral count⟩]) ++ body.countings (depth + 1)
  | .leave _ => []
  | .answer _ value => value.countings depth
  | .observe _ value => value.countings depth
  | .doctest _ value expected => value.countings depth ++ expected.countings depth

def otherwiseCountings (depth : Nat) : Option Block → List Counting
  | none => []
  | some b => b.countings depth

def Block.countings (depth : Nat) : Block → List Counting
  | .mk _ body => bodyCountings depth body

def bodyCountings (depth : Nat) : List Stmt → List Counting
  | [] => []
  | s :: rest => s.countings depth ++ bodyCountings depth rest

end

mutual

def Expr.hoists : Expr → Nat
  | .int _ _ => 0
  | .null _ => 0
  | .text _ _ _ => 0
  | .seq _ items => allHoists items
  | .var p => p.hoists
  | .fn _ _ (.mk _ [.answer _ value]) => (if Emit.Indented.isPlain value then 0 else 1) + value.hoists
  | .fn _ _ body => 1 + body.hoists
  | .call _ _ args => allHoists args
  | .neg _ e => e.hoists
  | .len _ e => e.hoists

def allHoists : List Expr → Nat
  | [] => 0
  | e :: rest => e.hoists + allHoists rest

def Place.hoists : Place → Nat
  | .mk _ _ indices => allHoists indices

def Stmt.hoists : Stmt → Nat
  | .assign _ (.mk _ _ []) (.fn _ _ body) => body.hoists
  | .assign _ target value => target.hoists + value.hoists
  | .append _ target value => target.hoists + value.hoists
  | .increment _ target => target.hoists
  | .decrement _ target => target.hoists
  | .cond _ left right _ yes no => left.hoists + (right.hoists + (yes.hoists + otherwiseHoists no))
  | .loop _ count body => count.hoists + body.hoists
  | .leave _ => 0
  | .answer _ value => value.hoists
  | .observe _ value => value.hoists
  | .doctest _ value expected => value.hoists + expected.hoists

def otherwiseHoists : Option Block → Nat
  | none => 0
  | some b => b.hoists

def Block.hoists : Block → Nat
  | .mk _ body => bodyHoists body

def bodyHoists : List Stmt → Nat
  | [] => 0
  | s :: rest => s.hoists + bodyHoists rest

end

def Counting.coins : Counting → List (Coined .braced)
  | ⟨depth,literal⟩ => if literal then [.counter depth] else [.counter depth,.bound depth]

def Dialect.coins : (d : Dialect) → List Stmt → List (Coined d)
  | .braced,body => (bodyCountings 0 body).flatMap Counting.coins
  | .indented,body =>
    (if (bodyCountings 0 body).isEmpty then [] else [.ignored]) ++ (List.range' 1 (bodyHoists body)).map .hoisted

theorem countingsNull {e : Expr} (null : e.isNull = true) (depth : Nat) : e.countings depth = [] := by
  cases e with
  | null span => rfl
  | _ => contradiction

theorem hoistsNull {e : Expr} (null : e.isNull = true) : e.hoists = 0 := by
  cases e with
  | null span => rfl
  | _ => contradiction

section Coined

open Word (fixed names)

variable {d : Dialect} {c : Coined d}

@[simp] theorem coinedFixed {ss : List String} (known : ∀ s ∈ ss, s ∈ d.vocabulary) : .coined c ∈ fixed ss known ↔ False := by
  simp [fixed]

@[simp] theorem coinedNames (params : List String) : .coined c ∈ names (d := d) params ↔ False := by
  simp [names]

end Coined

/-! Counters of loops in braces -/

namespace Emit.Braced

open Word (fixed names)

def Shows (ws : List (Word .braced)) (ls : List Counting) : Prop := ∀ c, .coined c ∈ ws ↔ c ∈ ls.flatMap Counting.coins

section Shows

variable {vs ws : List (Word .braced)} {ls ms : List Counting}

theorem showsAppend (first : Shows vs ls) (second : Shows ws ms) : Shows (vs ++ ws) (ls ++ ms) := by
  intro c
  rw [List.mem_append,List.flatMap_append,List.mem_append,first c,second c]

theorem showsNone (none : ∀ c, .coined c ∉ ws) : Shows ws [] := fun c => iff_of_false (none c) List.not_mem_nil

theorem showsBefore (none : ∀ c, .coined c ∉ vs) (rest : Shows ws ls) : Shows (vs ++ ws) ls := showsAppend (showsNone none) rest

theorem showsAfter (none : ∀ c, .coined c ∉ ws) (first : Shows vs ls) : Shows (vs ++ ws) ls := by
  have all := showsAppend first (showsNone none)
  rwa [List.append_nil] at all

theorem showsDoubled (shows : Shows ws ls) : Shows (doubled ws) ls := by
  intro c
  rw [← shows c]
  simp [doubled]

theorem showsHead (depth : Nat) (literal : Bool) (shows : Shows ws ls) : Shows (headWords depth literal ws) (ls ++ [⟨depth,literal⟩]) := by
  intro c
  rw [List.flatMap_append,List.mem_append,← shows c]
  cases literal <;> simp [headWords,Counting.coins] <;> grind

end Shows

mutual

theorem showsExpr (depth : Nat) (e : Expr) : Shows (exprWords depth e) (e.countings depth) := by
  cases e with
  | int span n => exact showsNone (by simp [exprWords])
  | null span => exact showsNone (by simp [exprWords])
  | text span s index => cases index <;> exact showsNone (by simp [exprWords])
  | seq span items => exact showsExprs depth items
  | var p => exact showsPlace depth p
  | fn span params body => exact showsBefore (by simp) (showsBlock depth body)
  | call span name args => exact showsBefore (by simp) (showsExprs depth args)
  | neg span e => exact showsExpr depth e
  | len span e => exact showsAfter (by simp) (showsExpr depth e)

theorem showsExprs (depth : Nat) (es : List Expr) : Shows (exprsWords depth es) (allCountings depth es) := by
  cases es with
  | nil => exact showsNone (by simp [exprsWords])
  | cons e rest => exact showsAppend (showsExpr depth e) (showsExprs depth rest)

theorem showsPlace (depth : Nat) (p : Place) : Shows (placeWords depth p) (p.countings depth) := by
  cases p with
  | mk span name indices => exact showsChain depth .read [] _ (showsNone (by simp)) indices

theorem showsChain (depth : Nat) (use : Use) (ls : List Counting) (ws : List (Word .braced)) (shows : Shows ws ls)
    (indices : List Expr) : Shows (chainWords use depth ws indices) (ls ++ allCountings depth indices) := by
  cases indices with
  | nil =>
    rw [allCountings,List.append_nil,chainNil]
    exact shows
  | cons e rest =>
    rw [allCountings,chainCons]
    cases null : e.isNull with
    | true =>
      rw [countingsNull null,if_pos rfl]
      refine showsChain depth use ls _ ?_ rest
      split
      · exact showsDoubled shows
      · exact shows
    | false =>
      rw [← List.append_assoc]
      exact showsChain depth use _ _ (showsAppend shows (showsExpr depth e)) rest

theorem showsStmt (depth : Nat) (s : Stmt) : Shows (stmtWords depth s) (s.countings depth) := by
  cases s with
  | assign span target value =>
    obtain ⟨place,name,indices⟩ := target
    have chain := showsChain depth .assigned [] [.leaf (.name name)] (showsNone (by simp)) indices
    refine showsBefore ?_ (showsAppend chain (showsBefore ?_ (showsExpr depth value))) <;> split <;> simp
  | append span target value => exact showsAppend (showsPlace depth target) (showsBefore (by simp) (showsExpr depth value))
  | increment span target => exact showsAfter (by simp) (showsPlace depth target)
  | decrement span target => exact showsAfter (by simp) (showsPlace depth target)
  | cond span left right cmp yes no =>
    have branch {ws : List (Word .braced)} {ls : List Counting} (otherwise : Shows ws ls) :
        Shows (fixed ["if"] ++ exprWords depth left ++ exprWords depth right ++ blockWords depth yes ++ ws)
          (left.countings depth ++ (right.countings depth ++ (yes.countings depth ++ ls))) := by
      simp only [List.append_assoc]
      exact showsBefore (by simp) (showsAppend (showsExpr depth left) (showsAppend (showsExpr depth right)
        (showsAppend (showsBlock depth yes) otherwise)))
    cases no with
    | none => exact branch (showsNone (by simp [otherwiseWords]))
    | some b => exact branch (showsBefore (by simp) (showsBlock depth b))
  | loop span count body =>
    refine showsAppend ?_ (showsBlock (depth + 1) body)
    cases null : count.isNull with
    | true => exact showsNone (by simp)
    | false => exact showsHead depth _ (showsExpr depth count)
  | leave span => exact showsNone (by simp [stmtWords])
  | answer span value => exact showsBefore (by simp) (showsExpr depth value)
  | observe span value => exact showsBefore (by simp) (showsExpr depth value)
  | doctest span value expected =>
    exact showsAppend (showsBefore (by simp) (showsExpr depth value)) (showsBefore (by simp) (showsExpr depth expected))

theorem showsBlock (depth : Nat) (b : Block) : Shows (blockWords depth b) (b.countings depth) := by
  cases b with
  | mk span body => exact showsStmts depth body

theorem showsStmts (depth : Nat) (body : List Stmt) : Shows (stmtsWords depth body) (bodyCountings depth body) := by
  cases body with
  | nil => exact showsNone (by simp [stmtsWords])
  | cons s rest => exact showsAppend (showsStmt depth s) (showsStmts depth rest)

end

end Emit.Braced

/-! Functions defined above their statements -/

namespace Emit.Indented

open Word (fixed names)

variable {α β : Type}

def Given (n h : Nat) (ls : List Counting) : Coined .indented → Prop
  | .hoisted m => n < m ∧ m ≤ n + h
  | .ignored => ls ≠ []

theorem givenAdd (n h h' : Nat) (ls ms : List Counting) (c : Coined .indented) :
    Given n (h + h') (ls ++ ms) c ↔ Given n h ls c ∨ Given (n + h) h' ms c := by
  cases c with
  | hoisted m =>
    simp only [Given]
    omega
  | ignored => simp only [Given,ne_eq,List.append_eq_nil_iff,Classical.not_and_iff_not_or_not]

theorem givenNone (n : Nat) (c : Coined .indented) : ¬ Given n 0 [] c := by
  cases c with
  | hoisted m =>
    simp only [Given]
    omega
  | ignored => simp only [Given,ne_eq,not_true_eq_false,not_false_eq_true]

/-- The made up names in what is noted and in what is shown are those that were there before and those that are given
to `h` functions and to such loops. -/
def Mints (shown : α → List (Word .indented)) (h : Nat) (ls : List Counting) (before : List (Word .indented)) (r : Ledger α) : Prop :=
  ∀ n, (r n).next = n + h ∧
    ∀ c, .coined c ∈ (r n).above ++ shown (r n).value ↔ .coined c ∈ before ∨ Given n h ls c

section Mints

variable {shown : α → List (Word .indented)} {shown' : β → List (Word .indented)} {h h' : Nat} {ls ms : List Counting}
  {vs ws : List (Word .indented)}

theorem mintsBind {r} {f : α → Ledger β} (first : Mints shown h ls vs r)
    (next : ∀ a, Mints shown' h' ms (shown a) (f a)) : Mints shown' (h + h') (ls ++ ms) vs (r >>= f) := by
  intro n
  obtain ⟨count,given⟩ := first n
  obtain ⟨count',given'⟩ := next (r n).value (r n).next
  refine ⟨?_,fun c => ?_⟩
  · rw [← Nat.add_assoc,← count]
    exact count'
  · have both := given c
    have both' := given' c
    rw [count] at both'
    simp only [Bind.bind,count,List.append_assoc,List.mem_append,givenAdd] at both both' ⊢
    rw [both',← or_assoc,both,or_assoc]

theorem mintsPure {a} (same : ∀ c, .coined c ∈ shown a ↔ .coined c ∈ vs) : Mints shown 0 [] vs (pure a) := by
  refine fun n => ⟨rfl,fun c => ?_⟩
  rw [or_iff_left (givenNone n c)]
  exact same c

theorem mintsNote (shown vs ws : List (Word .indented)) (same : ∀ c, .coined c ∈ ws ++ shown ↔ .coined c ∈ vs) :
    Mints (fun _ => shown) 0 [] vs (note ws) := by
  refine fun n => ⟨rfl,fun c => ?_⟩
  rw [or_iff_left (givenNone n c)]
  exact same c

theorem mintsLoop (l : Counting) (vs ws : List (Word .indented)) (same : ∀ c, .coined c ∈ ws ↔ .coined c ∈ vs ∨ c = .ignored) :
    Mints (fun _ => []) 0 [l] vs (note ws) := by
  refine fun n => ⟨rfl,fun c => ?_⟩
  rw [List.append_nil]
  refine (same c).trans (or_congr_right ?_)
  cases c with
  | hoisted m => simp [Given]
  | ignored => simp [Given]

theorem mintsCount : Mints (fun n => [.coined (.hoisted n)]) 1 [] [] count := by
  refine fun n => ⟨rfl,fun c => ?_⟩
  cases c with
  | hoisted m =>
    simp only [count,Given,List.nil_append,List.mem_singleton,Word.coined.injEq,Coined.hoisted.injEq,List.not_mem_nil,false_or]
    omega
  | ignored => simp [Given,count]

theorem mintsMap {r} {f : α → List (Word .indented)} (mints : Mints shown h ls vs r)
    (same : ∀ a c, .coined c ∈ f a ↔ .coined c ∈ shown a) : Mints id h ls vs (r >>= fun a => pure (f a)) := by
  have all := mintsBind mints fun a => mintsPure (same a)
  rwa [List.append_nil] at all

theorem mintsKept {r} (vs : List (Word .indented)) (mints : Mints shown h ls [] r) : Mints (fun a => vs ++ shown a) h ls vs r := by
  intro n
  obtain ⟨count,given⟩ := mints n
  refine ⟨count,fun c => ?_⟩
  have both := given c
  simp only [List.mem_append,List.not_mem_nil,false_or] at both ⊢
  rw [or_left_comm,both]

theorem mintsSame {r} (same : ∀ c, .coined c ∈ vs ↔ .coined c ∈ ws) (mints : Mints shown h ls vs r) :
    Mints shown h ls ws r := fun n => ⟨(mints n).1,fun c => ((mints n).2 c).trans (or_congr_left (same c))⟩

theorem mintsThen {p : Ledger Unit} {q} (first : Mints (fun _ => []) h ls vs p) (second : Mints shown' h' ms [] q) :
    Mints shown' (h + h') (ls ++ ms) vs (p >>= fun _ => q) := mintsBind first fun _ => second

theorem mintsLine {r} {f : List (Word .indented) → List (Word .indented)}
    (mints : Mints id h ls [] r) (same : ∀ ws c, .coined c ∈ f ws ↔ .coined c ∈ ws) :
    Mints (fun _ => []) h ls [] (r >>= fun ws => note (f ws)) := by
  have line := mintsBind mints fun ws => mintsNote [] ws (f ws) fun c => (List.append_nil (f ws)).symm ▸ same ws c
  rwa [List.append_nil] at line

theorem mintsTwo {p q} {f : List (Word .indented) → List (Word .indented) → List (Word .indented)}
    (first : Mints id h ls [] p) (second : Mints id h' ms [] q)
    (same : ∀ vs ws c, .coined c ∈ f vs ws ↔ .coined c ∈ vs ++ ws) :
    Mints (fun _ => []) (h + h') (ls ++ ms) [] (p >>= fun vs => q >>= fun ws => note (f vs ws)) := by
  refine mintsBind first fun vs => ?_
  have line := mintsBind (mintsKept vs second) fun ws => mintsNote [] (vs ++ ws) (f vs ws) fun c => (List.append_nil (f vs ws)).symm ▸ same vs ws c
  rwa [List.append_nil] at line

end Mints

theorem coinedPicked (use : Use) (last : Bool) (ws : List (Word .indented)) (c : Coined .indented) :
    .coined c ∈ picked use last ws ↔ .coined c ∈ ws := by
  cases use <;> cases last <;> simp [picked,pickedWords,Dialect.doubles]

mutual

theorem mintsExpr (depth : Nat) (e : Expr) : Mints id e.hoists (e.countings depth) [] (exprWords e) := by
  cases e with
  | int span n => exact mintsPure (by simp)
  | null span => exact mintsPure (by simp)
  | text span s index => cases index <;> exact mintsPure (by simp)
  | seq span items => exact mintsExprs depth items
  | var p => exact mintsPlace depth .read (by decide) p
  | fn span params body =>
    -- the name stays in sight while the body is written, and is all that is left in the line
    have hoisted : Mints id (1 + body.hoists) (body.countings depth) []
        (do
          let n ← count
          note (fixed ["def"] ++ ([.coined (.hoisted n)] ++ names params))
          blockWords body
          return [.coined (.hoisted n)]) := by
      refine mintsBind mintsCount fun n => ?_
      have head := mintsNote [.coined (.hoisted n)] [.coined (.hoisted n)]
        (fixed ["def"] ++ ([.coined (.hoisted n)] ++ names params)) (by simp)
      have all := mintsBind head fun _ => mintsMap (f := fun _ => [.coined (.hoisted n)])
        (mintsKept [.coined (.hoisted n)] (mintsBlock depth body)) (by simp)
      rwa [Nat.zero_add] at all
    obtain ⟨place,body⟩ := body
    rcases body with _ | ⟨s,_ | ⟨s',rest⟩⟩
    · exact hoisted
    · cases s with
      | answer span value =>
        have countings : (Block.mk place [.answer span value]).countings depth = value.countings depth := List.append_nil _
        have hoists : (Block.mk place [.answer span value]).hoists = value.hoists := Nat.add_zero _
        cases simple : isPlain value with
        | true =>
          simp only [exprWords,Expr.countings,Expr.hoists,countings,simple,if_true,Nat.zero_add]
          exact mintsMap (mintsExpr depth value) (by simp)
        | false =>
          simp only [blockWords,stmtsWords,stmtWords,bind_assoc,pure_bind,countings,hoists] at hoisted
          simp only [exprWords,Expr.countings,Expr.hoists,countings,simple,Bool.false_eq_true,if_false]
          exact hoisted
      | _ => exact hoisted
    · cases s <;> exact hoisted
  | call span name args => exact mintsMap (mintsExprs depth args) (by simp)
  | neg span e => exact mintsExpr depth e
  | len span e => exact mintsMap (mintsExpr depth e) (by simp)

theorem mintsExprs (depth : Nat) (es : List Expr) : Mints id (allHoists es) (allCountings depth es) [] (exprsWords es) := by
  cases es with
  | nil => exact mintsPure (by simp)
  | cons e rest =>
    exact mintsBind (mintsExpr depth e) fun vs => mintsMap (mintsKept vs (mintsExprs depth rest)) (by simp)

theorem mintsPlace (depth : Nat) (use : Use) (kept : use ≠ .assigned) (p : Place) :
    Mints id p.hoists (p.countings depth) [] (placeWords (use = .stepped) p) := by
  cases p with
  | mk span name indices =>
    have chain := mintsChain depth use [.leaf (.name name)] indices
    rw [chainWords,if_neg kept] at chain
    exact mintsSame (by simp) chain

theorem mintsChain (depth : Nat) (use : Use) (ws : List (Word .indented)) (indices : List Expr) :
    Mints id (allHoists indices) (allCountings depth indices) ws (chainWords use ws indices) := by
  cases indices with
  | nil =>
    rw [chainNil]
    exact mintsPure (by simp)
  | cons e rest =>
    rw [allHoists,allCountings,chainCons]
    cases null : e.isNull with
    | true =>
      rw [hoistsNull null,countingsNull null,Nat.zero_add]
      exact mintsSame (coinedPicked use _ ws) (mintsChain depth use _ rest)
    | false => exact mintsBind (mintsKept ws (mintsExpr depth e)) fun index => mintsChain depth use (ws ++ index) rest

theorem mintsStmt (depth : Nat) (s : Stmt) : Mints (fun _ => []) s.hoists (s.countings depth) [] (stmtWords s) := by
  cases s with
  | assign span target value =>
    obtain ⟨place,name,indices⟩ := target
    have base : Mints id (allHoists indices) (allCountings depth indices) [] (targetWords [.leaf (.name name)] indices) :=
      mintsSame (by simp) (mintsChain depth .assigned [.leaf (.name name)] indices)
    have general := mintsTwo base (mintsExpr depth value) (f := fun vs ws =>
      vs ++ ((if (Place.mk place name indices).appends then fixed ["append"] else []) ++ ws)) fun vs ws c => by
        split <;> simp
    cases indices with
    | nil =>
      cases value with
      | fn span params body =>
        have head := mintsNote [] [] (fixed ["def"] ++ ([.leaf (.name name)] ++ names params)) (by simp)
        have all := mintsThen head (mintsBlock depth body)
        rwa [Nat.zero_add] at all
      | _ => exact general
    | cons e rest => exact general
  | append span target value => exact mintsTwo (mintsPlace depth .read (by decide) target) (mintsExpr depth value) (by simp)
  | increment span target => exact mintsLine (mintsPlace depth .stepped (by decide) target) (by simp)
  | decrement span target => exact mintsLine (mintsPlace depth .stepped (by decide) target) (by simp)
  | cond span left right cmp yes no =>
    have branch {h : Nat} {ms : List Counting} {other : Ledger Unit} (otherwise : Mints (fun _ => []) h ms [] other) :
        Mints (fun _ => []) (left.hoists + (right.hoists + (yes.hoists + h)))
          (left.countings depth ++ (right.countings depth ++ (yes.countings depth ++ ms))) []
          (do
            let vs ← exprWords left
            let ws ← exprWords right
            note (fixed ["if"] ++ (vs ++ ws))
            blockWords yes
            other) := by
      have line := mintsTwo (mintsExpr depth left) (mintsExpr depth right) (f := fun vs ws => fixed ["if"] ++ (vs ++ ws)) (by simp)
      have all := mintsThen line (mintsThen (mintsBlock depth yes) otherwise)
      simpa only [bind_assoc,List.append_assoc,Nat.add_assoc] using all
    cases no with
    | none => exact branch (mintsPure (by simp))
    | some b =>
      have all := mintsThen (mintsNote [] [] (fixed ["else"]) (by simp)) (mintsBlock depth b)
      rw [Nat.zero_add] at all
      exact branch all
  | loop span times body =>
    cases null : times.isNull with
    | true =>
      have all := mintsThen (mintsNote [] [] (fixed ["while","True"]) (by simp)) (mintsBlock (depth + 1) body)
      simp only [stmtWords,Stmt.countings,Stmt.hoists,null,hoistsNull null,if_true]
      exact all
    | false =>
      have line (text : List (Word .indented)) := mintsLoop ⟨depth,Braced.isLiteral times⟩ text
        (fixed ["for"] ++ ([.coined .ignored] ++ (fixed ["in","range"] ++ text))) (by simp [or_comm])
      have head := mintsBind (mintsExpr depth times) line
      have all := mintsThen head (mintsBlock (depth + 1) body)
      simp only [bind_assoc] at all
      simp only [stmtWords,Stmt.countings,Stmt.hoists,null,Bool.false_eq_true,if_false]
      exact all
  | leave span => exact mintsNote [] [] _ (by simp)
  | answer span value => exact mintsLine (mintsExpr depth value) (by simp)
  | observe span value => exact mintsLine (mintsExpr depth value) (by simp)
  | doctest span value expected => exact mintsTwo (mintsExpr depth value) (mintsExpr depth expected) (by simp)

theorem mintsBlock (depth : Nat) (b : Block) : Mints (fun _ => []) b.hoists (b.countings depth) [] (blockWords b) := by
  obtain ⟨span,body⟩ := b
  cases body with
  | nil => exact mintsNote [] [] _ (by simp)
  | cons s rest => exact mintsStmts depth (s :: rest)

theorem mintsStmts (depth : Nat) (body : List Stmt) :
    Mints (fun _ => []) (bodyHoists body) (bodyCountings depth body) [] (stmtsWords body) := by
  cases body with
  | nil => exact mintsPure (by simp)
  | cons s rest => exact mintsThen (mintsStmt depth s) (mintsStmts depth rest)

end

end Emit.Indented

/-! Made up names are told apart -/

theorem numeralsInjective {m n : Nat} (same : (toString m).toList = (toString n).toList) : m = n := by
  have numbers := congrArg (Nat.ofDigitChars 10 · 0) same
  simpa [Nat.toString_eq_ofList_toDigits] using numbers

namespace Emit.Braced

def depthOf : List Char → Nat
  | ['j'] => 1
  | ['k'] => 2
  | _ :: ds => Nat.ofDigitChars 10 ds 0
  | [] => 0

theorem depthOfCounter (n : Nat) : depthOf (counter n).toList = n := by
  rcases n with _ | _ | _ | n
  · decide +kernel
  · decide +kernel
  · decide +kernel
  · have letters : (counter (n + 3)).toList = 'i' :: (toString (n + 3)).toList := String.toList_append
    have numbers : Nat.ofDigitChars 10 (toString (n + 3)).toList 0 = n + 3 := by simp
    rw [letters]
    exact numbers

theorem counterInjective {m n} (same : counter m = counter n) : m = n := by
  rw [← depthOfCounter m,← depthOfCounter n,same]

theorem counterOpen (n : Nat) : 'd' ∉ (counter n).toList := by
  rcases n with _ | _ | _ | n
  · decide +kernel
  · decide +kernel
  · decide +kernel
  · have letters : (counter (n + 3)).toList = 'i' :: (toString (n + 3)).toList := String.toList_append
    rw [letters,Nat.toString_eq_ofList_toDigits,String.toList_ofList,List.mem_cons]
    rintro (first | digit)
    · contradiction
    · exact absurd (Nat.isDigit_of_mem_toDigits (by decide) (by decide) digit) (by decide)

theorem boundClosed (n : Nat) : 'd' ∈ (counter n ++ "End").toList := by
  rw [String.toList_append,List.mem_append]
  exact .inr (by decide +kernel)

end Emit.Braced

theorem coinedInjective {d : Dialect} {c c' : Coined d} (same : c.name = c'.name) : c = c' := by
  have letters := congrArg String.toList same
  cases c with
  | counter m =>
    cases c' with
    | counter n => exact congrArg Coined.counter (Emit.Braced.counterInjective same)
    | bound n =>
      have last : 'd' ∈ (Emit.Braced.counter m).toList := letters ▸ Emit.Braced.boundClosed n
      exact absurd last (Emit.Braced.counterOpen m)
  | bound m =>
    cases c' with
    | counter n =>
      have last : 'd' ∈ (Emit.Braced.counter n).toList := letters ▸ Emit.Braced.boundClosed m
      exact absurd last (Emit.Braced.counterOpen n)
    | bound n =>
      simp only [Coined.name,String.toList_append] at letters
      have counters := String.toList_injective (List.append_cancel_right letters)
      exact congrArg Coined.bound (Emit.Braced.counterInjective counters)
  | hoisted m =>
    cases c' with
    | hoisted n =>
      simp only [Coined.name,String.toList_append] at letters
      exact congrArg Coined.hoisted (numeralsInjective (List.append_cancel_left letters))
    | ignored =>
      have lengths := congrArg List.length letters
      simp [Coined.name] at lengths
  | ignored =>
    cases c' with
    | hoisted n =>
      simp only [Coined.name,String.toList_append] at letters
      have lengths := congrArg List.length letters
      simp at lengths
    | ignored => rfl

namespace Dialect

theorem coined (d : Dialect) (body : List Stmt) (c : Coined d) : .coined c ∈ d.words body ↔ c ∈ d.coins body := by
  cases d with
  | braced => exact Emit.Braced.showsStmts 0 body c
  | indented =>
    obtain ⟨_,given⟩ := Emit.Indented.mintsStmts 0 body 0
    have above := given c
    rw [List.append_nil,or_iff_right List.not_mem_nil] at above
    have head : .coined c ∈ words .indented body ↔ .coined c ∈ (Emit.Indented.stmtsWords body 0).above := by
      simp only [words,Emit.Indented.programWords,List.mem_append]
      split <;> simp
    rw [head,above]
    cases c with
    | hoisted m =>
      have none : .hoisted m ∉ (if (bodyCountings 0 body).isEmpty then [] else [Coined.ignored]) := by split <;> simp
      rw [coins,List.mem_append,or_iff_right none]
      simp only [Emit.Indented.Given,List.mem_map,List.mem_range'_1,Coined.hoisted.injEq,exists_eq_right]
      omega
    | ignored => simp [Emit.Indented.Given,coins]

end Dialect

def Leaf.name? : Leaf → Option String
  | .call f => some f
  | .name x => some x
  | .text _ _ => none

def bodyNames (body : List Stmt) : List String := (bodyLeaves body).filterMap Leaf.name?

theorem leafWritten (d : Dialect) (body : List Stmt) (l : Leaf) : .leaf l ∈ d.words body ↔ l ∈ bodyLeaves body := by
  have seen := talliedSeen (d.tallied l body)
  rw [List.contains_iff_mem,Word.copies,List.countP_pos_iff] at seen
  rw [seen]
  constructor
  · exact fun there => ⟨_,there,beq_self_eq_true l⟩
  · rintro ⟨w,there,same⟩
    cases w with
    | leaf l' =>
      obtain rfl : l' = l := eq_of_beq same
      exact there
    | _ => contradiction

theorem madeUpNamesStandApart (d : Dialect) (indent : Nat) (body : List Stmt) :
    Emit.wordsOf (d.emit indent body).toList = (d.words body).flatMap (fun w => Emit.wordsOf w.written) ∧
    (∀ l, .leaf l ∈ d.words body ↔ l ∈ bodyLeaves body) ∧
    (∀ c, .coined c ∈ d.words body ↔ c ∈ d.coins body) ∧
    (∀ c c' : Coined d, c.name = c'.name → c = c') ∧
    ((∀ c, .coined c ∈ d.words body → c.name ∉ bodyNames body) ↔
      ∀ x ∈ bodyNames body, x ∉ (d.coins body).map Coined.name) := by
  refine ⟨(d.spelled indent body).words,leafWritten d body,d.coined body,fun c c' => coinedInjective,?_⟩
  constructor
  · intro apart x used among
    obtain ⟨c,made,rfl⟩ := List.mem_map.mp among
    exact apart c ((d.coined body c).mpr made) used
  · intro apart c written used
    exact apart c.name used (List.mem_map_of_mem ((d.coined body c).mp written))

def Emit.shadowed : Text := Text.ofString "i = 1\n2回くり返す \x7b\n  i を増やす\n\x7d"

theorem counterIsAVariable :
    Dialect.translate .braced 0 Emit.shadowed = .ok "i = 1;\nfor (let i = 0; i < 2; i++) \x7b\n    i += 1;\n\x7d\n" ∧
    .coined (.counter 0) ∈ Dialect.words .braced (Parse.strict Emit.shadowed).program.body ∧
    (Coined.counter 0).name ∈ bodyNames (Parse.strict Emit.shadowed).program.body := by
  obtain ⟨fine,text,coins,names⟩ : ((Parse.strict Emit.shadowed).diagnostics "").isEmpty ∧
      Dialect.emit .braced 0 (Parse.strict Emit.shadowed).program.body =
        "i = 1;\nfor (let i = 0; i < 2; i++) \x7b\n    i += 1;\n\x7d\n" ∧
      Dialect.coins .braced (Parse.strict Emit.shadowed).program.body = [.counter 0] ∧
      bodyNames (Parse.strict Emit.shadowed).program.body = ["i","i"] := by decide +kernel
  refine ⟨text ▸ Dialect.translateFine .braced 0 fine,(Dialect.coined .braced _ _).mpr ?_,?_⟩
  · rw [coins]
    exact List.mem_singleton.mpr rfl
  · rw [names]
    exact List.mem_cons_self

end Terakoya
