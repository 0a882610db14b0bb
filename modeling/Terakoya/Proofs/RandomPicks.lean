import Terakoya.Proofs.Margins

/-! The import that random picks need: it is there if and only if a program has such a pick, wherever it stands. -/
namespace Terakoya

namespace Tree

/-- A variable with an index `?`, which stands for a random element. At the end of what is assigned to it stands for a new
one. -/
def isPick : Tree → Bool
  | expr (.var p) => p.indices.any Expr.isNull
  | stmt (.assign _ t _) => t.indices.dropLast.any Expr.isNull
  | _ => false

def parts : Tree → List Tree
  | stmt (.assign _ t v) => t.indices.map expr ++ [expr v]
  | n => n.children

inductive Asks : Tree → Prop where
  | here {n} (pick : n.isPick) : Asks n
  | within {n m} (part : m ∈ n.parts) (asks : Asks m) : Asks n

theorem asksIff (n : Tree) : n.Asks ↔ n.isPick ∨ ∃ m ∈ n.parts, m.Asks := by
  constructor
  · intro asks
    cases asks with
    | here pick => exact .inl pick
    | within part asks => exact .inr ⟨_,part,asks⟩
  · rintro (pick | ⟨m,part,asks⟩)
    · exact .here pick
    · exact .within part asks

theorem asksNull {e} (null : e.isNull) : ¬ (expr e).Asks := by
  cases e with
  | null span =>
    rw [asksIff]
    simp [isPick,parts,children]
  | _ => contradiction

end Tree

namespace Emit.Indented

def Flags {α : Type} (P : Prop) (r : Draft α) : Prop := ∀ s, (r s).2.usesRandom ↔ s.usesRandom ∨ P

section Flags

variable {α β : Type} {P Q : Prop}

theorem flagsPure {a} : Flags False (pure a : Draft α) := fun _ => iff_of_eq (or_false _).symm

theorem flagsWrite {level text} : Flags False (write level text) := fun _ => iff_of_eq (or_false _).symm

theorem flagsRandom : Flags True noteRandom := fun _ => iff_of_true rfl (.inr trivial)

theorem flagsBind {r} {f : α → Draft β} (first : Flags P r) (next : ∀ a, Flags Q (f a)) : Flags (P ∨ Q) (r >>= f) :=
  fun s => (next _ _).trans ((or_congr_left (first s)).trans or_assoc)

theorem flagsOf {r : Draft α} (flags : Flags P r) (same : P ↔ Q := by simp) : Flags Q r :=
  fun s => (flags s).trans (or_congr_right same)

theorem flagsThen {r : Draft α} {f : α → Draft β} (first : Flags P r) (next : ∀ a, Flags False (f a)) : Flags P (r >>= f) :=
  flagsOf (flagsBind first next)

theorem flagsNode {n : Tree} {r : Draft α} (flags : Flags P r) (same : P ↔ n.isPick ∨ ∃ m ∈ n.parts, m.Asks := by
    simp [Tree.isPick,Tree.parts,Tree.children,Place.indices,Block.body]) : Flags n.Asks r := flagsOf flags (same.trans n.asksIff.symm)

end Flags

mutual

theorem flagsExpr (level : Nat) (e : Expr) : Flags (Tree.expr e).Asks (expr level e) := by
  cases e with
  | int span n => exact flagsNode flagsPure
  | null span => exact flagsNode flagsPure
  | text span s index => cases index <;> exact flagsNode flagsPure
  | seq span items => exact flagsNode (flagsThen (flagsExprs level items) fun _ => flagsPure)
  | var p => exact flagsPlace level false p
  | fn span params body =>
    have named {r : Draft Unit} (flags : Flags (Tree.block body).Asks r) : Flags (Tree.expr (.fn span params body)).Asks
        (freshName >>= fun name => write level (definition name params) >>= fun _ => r >>= fun _ => pure name) := by
      refine flagsNode (P := (Tree.block body).Asks) fun s => ?_
      exact flagsThen flags (fun _ => flagsPure) (write level _ { s with lambdas := s.lambdas + 1 }).2
    have hoisted := named (flagsBlock (level + 1) body)
    obtain ⟨place,body⟩ := body
    rcases body with _ | ⟨s,_ | ⟨s',rest⟩⟩
    · exact hoisted
    · cases s with
      | answer answered value =>
        have inner {α : Type} {r : Draft α} (flags : Flags (Tree.expr value).Asks r) :
            Flags (Tree.block ⟨place,[.answer answered value]⟩).Asks r :=
          flagsNode (flagsNode (n := .stmt (.answer answered value)) flags)
        simp only [expr]
        split
        · exact flagsNode (inner (flagsThen (flagsExpr level value) fun _ => flagsPure))
        · have all := named (inner (flagsThen (flagsExpr (level + 1) value) fun text =>
            show Flags False (write (level + 1) ("return " ++ text)) from flagsWrite))
          simp only [bind_assoc] at all
          exact all
      | _ => exact hoisted
    · cases s <;> exact hoisted
  | call span name args => exact flagsNode (flagsThen (flagsExprs level args) fun _ => flagsPure)
  | neg span e => exact flagsNode (flagsThen (flagsExpr level e) fun _ => flagsPure)
  | len span e => exact flagsNode (flagsThen (flagsExpr level e) fun _ => flagsPure)

theorem flagsExprs (level : Nat) (es : List Expr) : Flags (∃ e ∈ es, (Tree.expr e).Asks) (exprs level es) := by
  cases es with
  | nil => exact flagsOf flagsPure
  | cons e rest => exact flagsOf (flagsBind (flagsExpr level e) fun _ => flagsThen (flagsExprs level rest) fun _ => flagsPure)

theorem flagsPlace (level : Nat) (assigned : Bool) (p : Place) : Flags (Tree.expr (.var p)).Asks (place level assigned p) := by
  obtain ⟨span,name,indices⟩ := p
  exact flagsNode (flagsIndexed level assigned name indices)

theorem flagsIndexed (level : Nat) (assigned : Bool) (base : String) (indices : List Expr) :
    Flags ((∃ e ∈ indices, e.isNull) ∨ ∃ e ∈ indices, (Tree.expr e).Asks) (indexed level assigned base indices) := by
  cases indices with
  | nil => exact flagsOf flagsPure
  | cons e rest =>
    rw [indexedCons]
    split
    · exact flagsOf (flagsBind flagsRandom fun _ => flagsIndexed level assigned _ rest) (by simp_all)
    · exact flagsOf (flagsBind (flagsExpr level e) fun _ => flagsIndexed level assigned _ rest) (by simp_all [or_left_comm])

theorem flagsTarget (level : Nat) (base : String) (indices : List Expr) :
    Flags ((∃ e ∈ indices.dropLast, e.isNull) ∨ ∃ e ∈ indices, (Tree.expr e).Asks) (target level base indices) := by
  cases indices with
  | nil => exact flagsOf flagsPure
  | cons e rest =>
    rw [targetCons]
    split
    · rename_i null
      split
      · exact flagsOf flagsPure (by simp_all [Tree.asksNull])
      · exact flagsOf (flagsBind flagsRandom fun _ => flagsTarget level _ rest) (by cases rest <;> simp_all)
    · exact flagsOf (flagsBind (flagsExpr level e) fun _ => flagsTarget level _ rest) (by cases rest <;> simp_all [or_left_comm])

theorem flagsStmt (level : Nat) (s : Stmt) : Flags (Tree.stmt s).Asks (stmt level s) := by
  cases s with
  | assign span target value =>
    obtain ⟨place,name,indices⟩ := target
    have general : Flags (Tree.stmt (.assign span ⟨place,name,indices⟩ value)).Asks
        (do
          let (base,appends) ← target level name indices
          let text ← expr level value
          if appends then write level (base ++ ".append(" ++ text ++ ")") else write level (base ++ " = " ++ text)) := by
      refine flagsNode (flagsBind (flagsTarget level name indices) fun pair => flagsThen (flagsExpr level value) fun _ => ?_) ?_
      · cases pair.2 <;> exact flagsWrite
      · simp [Tree.isPick,Tree.parts,Place.indices,or_assoc]
    cases indices with
    | cons e rest => exact general
    | nil =>
      cases value with
      | fn literal params body =>
        have inner := flagsNode (n := .expr (.fn literal params body)) (flagsBlock (level + 1) body)
        exact flagsNode (flagsBind flagsWrite fun _ => inner)
      | _ => exact general
  | append span target value =>
    exact flagsNode (flagsBind (flagsPlace level false target) fun _ => flagsThen (flagsExpr level value) fun _ => flagsWrite)
  | increment span target => exact flagsNode (flagsThen (flagsPlace level true target) fun _ => flagsWrite)
  | decrement span target => exact flagsNode (flagsThen (flagsPlace level true target) fun _ => flagsWrite)
  | cond span left right cmp yes no =>
    have branch {other : Draft Unit} {P : Prop} (flags : Flags P other) := flagsBind (flagsExpr level left) fun l =>
      flagsBind (flagsExpr level right) fun r =>
      flagsBind (show Flags False (write level ("if " ++ l ++ " " ++ comparator cmp ++ " " ++ r ++ ":")) from flagsWrite) fun _ =>
      flagsBind (flagsBlock (level + 1) yes) fun _ => flags
    cases no with
    | none => exact flagsNode (branch flagsPure)
    | some b => exact flagsNode (branch (flagsBind flagsWrite fun _ => flagsBlock (level + 1) b))
  | loop span times body =>
    have counted : Flags (Tree.stmt (.loop span times body)).Asks
        (do
          let text ← expr level times
          write level ("for _ in range(" ++ text ++ "):")
          block (level + 1) body) :=
      flagsNode (flagsBind (flagsExpr level times) fun _ => flagsBind flagsWrite fun _ => flagsBlock (level + 1) body)
    cases times with
    | null place =>
      refine flagsNode (flagsBind flagsWrite fun _ => flagsBlock (level + 1) body) ?_
      simp [Tree.isPick,Tree.parts,Tree.children,Tree.asksNull (e := .null place) rfl]
    | _ => exact counted
  | leave span => exact flagsNode flagsWrite
  | answer span value => exact flagsNode (flagsThen (flagsExpr level value) fun _ => flagsWrite)
  | observe span value => exact flagsNode (flagsThen (flagsExpr level value) fun _ => flagsWrite)
  | doctest span value expected =>
    exact flagsNode (flagsBind (flagsExpr level value) fun _ => flagsThen (flagsExpr level expected) fun _ => flagsWrite)

theorem flagsBlock (level : Nat) (b : Block) : Flags (Tree.block b).Asks (block level b) := by
  obtain ⟨span,body⟩ := b
  cases body with
  | nil => exact flagsNode flagsWrite
  | cons s rest => exact flagsNode (flagsStmts level (s :: rest))

theorem flagsStmts (level : Nat) (body : List Stmt) : Flags (∃ s ∈ body, (Tree.stmt s).Asks) (stmts level body) := by
  cases body with
  | nil => exact flagsOf flagsPure
  | cons s rest => exact flagsOf (flagsBind (flagsStmt level s) fun _ => flagsStmts level rest)

end

theorem firstLine {x y z} (inside : '\n' ∉ x) (inline : '\n' ∉ y) (begins : x ++ ['\n'] <+: y ++ '\n' :: z) : x = y := by
  have upTo {x : List Char} (inline : '\n' ∉ x) (z : List Char) : (x ++ '\n' :: z).takeWhile (· ≠ '\n') = x := by
    have all : ∀ c ∈ x, decide (c ≠ '\n') := fun c there => decide_eq_true (ne_of_mem_of_not_mem there inline)
    rw [List.takeWhile_append_of_pos all]
    exact List.append_nil x
  obtain ⟨w,same⟩ := begins
  have lines := congrArg (List.takeWhile (· ≠ '\n')) same
  rwa [List.append_assoc,List.singleton_append,upTo inside,upTo inline] at lines

theorem importStands {body} (wordy : Bears Leaf.Wordy (bodyLeaves body)) (n : Nat) :
    (indentation n ++ "import random\n").toList <+: (emit n body).toList ↔ (sheet body).usesRandom := by
  rw [emitRows]
  cases (sheet body).usesRandom with
  | true =>
    refine iff_of_true ?_ rfl
    rw [if_pos rfl,header,String.toList_append (s := _ ++ _),List.append_assoc]
    exact List.prefix_append _ _
  | false =>
    refine iff_of_false (fun begins => ?_) Bool.false_ne_true
    have proper := sheetLines wordy
    cases lines : (sheet body).lines.toList with
    | nil => simp [lines,rows] at begins
    | cons l ls =>
      have shape : rows n (l :: ls) = (renderLine n l).toList ++ rows n ls := List.flatMap_cons
      have split : "import random\n".toList = "import random".toList ++ ['\n'] := by decide +kernel
      obtain ⟨⟨_,marked⟩,flush⟩ := proper l (lines ▸ List.mem_cons_self)
      rw [lines,shape,rowShape,indentation,String.toList_append,String.toList_ofList,split] at begins
      have same := firstLine (by decide +kernel) (flushLine flush).2 ((List.prefix_append_right_inj _).mp begins)
      obtain ⟨c,there,odd⟩ := List.any_eq_true.mp marked
      rw [same] at odd
      simp [there] at odd

theorem importStandsForPicks (recover : Bool) (source : Text) (n : Nat) :
    let body := (Parse.ofNormal recover source).program.body
    (indentation n ++ "import random\n").toList <+: (emit n body).toList ↔ ∃ s ∈ body, (Tree.stmt s).Asks := by
  intro body
  have flags := flagsStmts 0 body {}
  exact (importStands (Parse.namesWordy recover source) n).trans (flags.trans (or_iff_right Bool.false_ne_true))

end Emit.Indented

end Terakoya
