import Terakoya.Proofs.Lockstep

/-! What stands at the leaves of a tree: the names it uses and the texts it quotes, each as often as it is
written. Whatever is read, strictly or in recovery, has at its leaves only what the reader of a leaf lets
through: names are read as identifiers, parameters are looked at once more, and so are the code points that
are picked out of texts. -/
namespace Terakoya

inductive Leaf where
  | call (name : String)
  | name (name : String)
  | text (s : String) (index : Option Nat)
  deriving DecidableEq, Repr

mutual

def Expr.leaves : Expr → List Leaf
  | .int _ _ => []
  | .null _ => []
  | .text _ s index => [.text s index]
  | .seq _ items => allLeaves items
  | .var p => p.leaves
  | .fn _ params body => params.map .name ++ body.leaves
  | .call _ name args => .call name :: allLeaves args
  | .neg _ e => e.leaves
  | .len _ e => e.leaves

def allLeaves : List Expr → List Leaf
  | [] => []
  | e :: rest => e.leaves ++ allLeaves rest

def Place.leaves : Place → List Leaf
  | .mk _ name indices => .name name :: allLeaves indices

def Stmt.leaves : Stmt → List Leaf
  | .assign _ target value => target.leaves ++ value.leaves
  | .append _ target value => target.leaves ++ value.leaves
  | .increment _ target => target.leaves
  | .decrement _ target => target.leaves
  | .cond _ left right _ yes no => left.leaves ++ (right.leaves ++ (yes.leaves ++ otherwiseLeaves no))
  | .loop _ count body => count.leaves ++ body.leaves
  | .leave _ => []
  | .answer _ value => value.leaves
  | .observe _ value => value.leaves
  | .doctest _ value expected => value.leaves ++ expected.leaves

def otherwiseLeaves : Option Block → List Leaf
  | none => []
  | some b => b.leaves

def Block.leaves : Block → List Leaf
  | .mk _ body => bodyLeaves body

def bodyLeaves : List Stmt → List Leaf
  | [] => []
  | s :: rest => s.leaves ++ bodyLeaves rest

end

def Bears (P : Leaf → Prop) (leaves : List Leaf) : Prop := ∀ l ∈ leaves, P l

section Bears

variable {P : Leaf → Prop} {ls ms : List Leaf}

theorem bearsNone : Bears P [] := List.forall_mem_nil P

theorem bearsCons {l} (first : P l) (rest : Bears P ls) : Bears P (l :: ls) := List.forall_mem_cons.mpr ⟨first,rest⟩

theorem bearsAppend (first : Bears P ls) (second : Bears P ms) : Bears P (ls ++ ms) :=
  List.forall_mem_append.mpr ⟨first,second⟩

end Bears

namespace Reader

variable {α β : Type}

def Yields (P : α → Prop) (r : Reader α) : Prop := ∀ c a next, r c = .found a next → P a

theorem yieldsAny (r : Reader α) : Yields (fun _ => True) r := fun _ _ _ _ => trivial

theorem yieldsPure {P : α → Prop} {a : α} (holds : P a) : Yields P (pure a) := by
  intro c b next found
  cases found
  exact holds

theorem yieldsBind {P : α → Prop} {Q : β → Prop} {r} {f : α → Reader β} (first : Yields P r)
    (next : ∀ a, P a → Yields Q (f a)) : Yields Q (r >>= f) := by
  intro c b last found
  simp only [Bind.bind,Reader.bind] at found
  split at found <;> try contradiction
  rename_i a middle first'
  exact next a (first c a middle first') middle b last found

theorem yieldsThen {Q : β → Prop} {r} {f : α → Reader β} (next : ∀ a, Yields Q (f a)) :
    Yields Q (r >>= f) := yieldsBind (yieldsAny r) fun a _ => next a

theorem yieldsRefuse {P : α → Prop} (offset : Nat) (fault : SyntaxFault) :
    Yields P (refuse offset fault) := by
  intro c a next found
  contradiction

theorem yieldsAbsent {P : α → Prop} : Yields P (absent : Reader α) := by
  intro c a next found
  contradiction

theorem yieldsUnfinished {P : α → Prop} : Yields P (unfinished : Reader α) := by
  intro c a next found
  contradiction

theorem yieldsFuelled {P : α → Prop} {loop : Nat → Reader α} (holds : ∀ n, Yields P (loop n)) :
    Yields P (fuelled loop) := fun c => holds _ c

end Reader

namespace Phrases

open Reader

structure Admits (P : Leaf → Prop) : Prop where
  identifier : Yields (fun name => P (.call name) ∧ P (.name name)) identifier
  parameter : ∀ name : Text, isIdentifier name → P (.name (Text.toString name))
  quoted : Yields (fun e => Bears P e.leaves) quotedText

theorem quotedBears {P : Leaf → Prop} (texts : ∀ s index, (∀ i, index = some i → i < s.toList.length) → P (.text s index)) :
    Yields (fun e => Bears P e.leaves) quotedText := by
  refine yieldsThen fun _ => yieldsThen fun quote => ?_
  split
  · exact yieldsRefuse _ _
  · refine yieldsThen fun index => ?_
    cases index with
    | none => exact yieldsThen fun _ => yieldsPure (bearsCons (texts _ _ fun i none => by contradiction) bearsNone)
    | some picked =>
      dsimp only
      split
      · rename_i inside
        refine yieldsThen fun _ => yieldsPure (bearsCons (texts _ _ fun i same => ?_) bearsNone)
        cases same
        simpa using inside
      · exact yieldsRefuse _ _

end Phrases

namespace Tree

def own : Tree → List Leaf
  | expr (.text _ s index) => [.text s index]
  | expr (.var p) => [.name p.name]
  | expr (.fn _ params _) => params.map .name
  | expr (.call _ name _) => [.call name]
  | _ => []

def leaves : Tree → List Leaf
  | expr e => e.leaves
  | stmt s => s.leaves
  | block b => b.leaves

theorem allLeavesFlat (es : List Expr) : allLeaves es = (es.map expr).flatMap leaves := by
  induction es with
  | nil => rfl
  | cons e es ih => rw [allLeaves,ih,List.map_cons,List.flatMap_cons,leaves]

theorem bodyLeavesFlat (body : List Stmt) : bodyLeaves body = (body.map stmt).flatMap leaves := by
  induction body with
  | nil => rfl
  | cons s body ih => rw [bodyLeaves,ih,List.map_cons,List.flatMap_cons,leaves]

theorem leavesSplit (n : Tree) : n.leaves = n.own ++ n.children.flatMap leaves := by
  rcases n with e | s | ⟨span,body⟩
  · cases e with
    | var p =>
      obtain ⟨span,name,is⟩ := p
      simp [leaves,own,children,Expr.leaves,Place.leaves,Place.name,Place.indices,allLeavesFlat]
    | _ => simp [leaves,own,children,Expr.leaves,allLeavesFlat]
  · cases s with
    | cond span left right comparator yes no =>
      cases no <;> simp [leaves,own,children,Stmt.leaves,otherwiseLeaves]
    | _ => simp [leaves,own,children,Stmt.leaves,Expr.leaves]
  · exact bodyLeavesFlat body

theorem bearsAll {P : Leaf → Prop} {n : Tree} (all : n.All fun n => Bears P n.own) : Bears P n.leaves := by
  induction all with
  | @intro n here under ih =>
    rw [leavesSplit]
    refine bearsAppend here fun l inside => ?_
    obtain ⟨m,child,there⟩ := List.mem_flatMap.mp inside
    exact ih m child l there

end Tree

variable {P : Leaf → Prop}

theorem Phrases.Admits.grants (admits : Phrases.Admits P) : Phrases.Grants fun n => Bears P n.own where
  plain n plain := by
    have none : n.own = [] := by
      rcases n with e | s | b
      · cases e <;> trivial
      · rfl
      · rfl
    exact none ▸ bearsNone
  reference found _ _ := bearsCons (admits.identifier _ _ _ found).2 bearsNone
  call found _ _ := bearsCons (admits.identifier _ _ _ found).1 bearsNone
  quoted found := admits.quoted _ _ _ found
  function {c ps d} _ proper _ _ l inside := by
    simp only [Tree.own,List.map_map,List.mem_map] at inside
    obtain ⟨p,among,rfl⟩ := inside
    exact admits.parameter p.2 (proper.1 p.2 (List.mem_map_of_mem among))

theorem Parse.programBears (admits : Phrases.Admits P) (recover : Bool) (source : Text) :
    Bears P (bodyLeaves (ofNormal recover source).program.body) := by
  intro l inside
  rw [Tree.bodyLeavesFlat,List.mem_flatMap] at inside
  obtain ⟨n,there,here⟩ := inside
  obtain ⟨s,stands,rfl⟩ := List.mem_map.mp there
  exact Tree.bearsAll (programAll admits.grants recover source s stands) l here

end Terakoya
