import Terakoya.Proofs.Leaves

/-! Code points picked out of a quoted text. Whatever is read, strictly or in recovery, picks only
code points that its text has: this is looked at once, when the text is read, and nothing later
looks again. -/
namespace Terakoya

mutual

def Expr.InRange : Expr → Prop
  | .int _ _ => True
  | .null _ => True
  | .text _ s index => ∀ i, index = some i → i < s.toList.length
  | .seq _ items => allInRange items
  | .var p => p.InRange
  | .fn _ _ body => body.InRange
  | .call _ _ args => allInRange args
  | .neg _ e => e.InRange
  | .len _ e => e.InRange

def allInRange : List Expr → Prop
  | [] => True
  | e :: rest => e.InRange ∧ allInRange rest

def Place.InRange : Place → Prop
  | .mk _ _ indices => allInRange indices

def Stmt.InRange : Stmt → Prop
  | .assign _ target value => target.InRange ∧ value.InRange
  | .append _ target value => target.InRange ∧ value.InRange
  | .increment _ target => target.InRange
  | .decrement _ target => target.InRange
  | .cond _ left right _ yes no =>
    left.InRange ∧ right.InRange ∧ yes.InRange ∧ otherwiseInRange no
  | .loop _ count body => count.InRange ∧ body.InRange
  | .leave _ => True
  | .answer _ value => value.InRange
  | .observe _ value => value.InRange
  | .doctest _ value expected => value.InRange ∧ expected.InRange

def otherwiseInRange : Option Block → Prop
  | none => True
  | some b => b.InRange

def Block.InRange : Block → Prop
  | .mk _ body => bodyInRange body

def bodyInRange : List Stmt → Prop
  | [] => True
  | s :: rest => s.InRange ∧ bodyInRange rest

end

def Tree.InRange : Tree → Prop
  | expr e => e.InRange
  | stmt s => s.InRange
  | block b => b.InRange

def Leaf.InRange : Leaf → Prop
  | .text s index => ∀ i, index = some i → i < s.toList.length
  | _ => True

theorem allInRangeEach (es : List Expr) : allInRange es ↔ ∀ c ∈ es.map Tree.expr, c.InRange := by
  induction es with
  | nil => simp [allInRange]
  | cons e es ih => rw [allInRange,ih,List.map_cons,List.forall_mem_cons,Tree.InRange]

theorem bodyInRangeEach (body : List Stmt) : bodyInRange body ↔ ∀ c ∈ body.map Tree.stmt, c.InRange := by
  induction body with
  | nil => simp [bodyInRange]
  | cons s body ih => rw [bodyInRange,ih,List.map_cons,List.forall_mem_cons,Tree.InRange]

theorem Tree.inRangeSplit (n : Tree) : n.InRange ↔ Bears Leaf.InRange n.own ∧ ∀ c ∈ n.children, c.InRange := by
  rcases n with e | s | ⟨span,body⟩
  · cases e with
    | var p =>
      obtain ⟨span,name,is⟩ := p
      simp [Tree.InRange,own,Bears,Leaf.InRange,children,Expr.InRange,Place.InRange,Place.indices,allInRangeEach]
    | _ => simp [Tree.InRange,own,Bears,Leaf.InRange,children,Expr.InRange,allInRangeEach]
  · cases s with
    | cond span left right comparator yes no =>
      cases no <;> simp [Tree.InRange,own,Bears,children,Stmt.InRange,otherwiseInRange]
    | _ => simp [Tree.InRange,own,Bears,children,Stmt.InRange,Expr.InRange]
  · simp [Tree.InRange,own,Bears,children,Block.InRange,Block.body,bodyInRangeEach]

theorem Tree.inRangeOfAll {n : Tree} (all : n.All fun n => Bears Leaf.InRange n.own) : n.InRange := by
  induction all with
  | @intro n here _ ih => exact n.inRangeSplit.mpr ⟨here,ih⟩

namespace Parse

theorem programInRange (recover : Bool) (source : Text) :
    bodyInRange (ofNormal recover source).program.body := by
  have admits : Phrases.Admits Leaf.InRange :=
    ⟨fun _ _ _ _ => ⟨trivial,trivial⟩,fun _ _ => trivial,Phrases.quotedBears fun _ _ inside => inside⟩
  refine (bodyInRangeEach _).mpr fun n there => ?_
  obtain ⟨s,stands,rfl⟩ := List.mem_map.mp there
  exact Tree.inRangeOfAll (programAll admits.grants recover source s stands)

end Parse

end Terakoya
