import Terakoya.Proofs.Layout

/-! The nodes of a program, the nodes below each of them, and trees whose offsets are moved. -/
namespace Terakoya

def Span.moved (f : Nat → Nat) (s : Span) : Span := ⟨f s.start,f s.stop⟩

mutual

def Expr.moved (f : Nat → Nat) : Expr → Expr
  | .int span n => .int (span.moved f) n
  | .null span => .null (span.moved f)
  | .text span s index => .text (span.moved f) s index
  | .seq span es => .seq (span.moved f) (allMoved f es)
  | .var p => .var (p.moved f)
  | .fn span ps body => .fn (span.moved f) ps (body.moved f)
  | .call span name es => .call (span.moved f) name (allMoved f es)
  | .neg span e => .neg (span.moved f) (e.moved f)
  | .len span e => .len (span.moved f) (e.moved f)

def allMoved (f : Nat → Nat) : List Expr → List Expr
  | [] => []
  | e :: rest => e.moved f :: allMoved f rest

def Place.moved (f : Nat → Nat) : Place → Place
  | .mk span name is => .mk (span.moved f) name (allMoved f is)

def Stmt.moved (f : Nat → Nat) : Stmt → Stmt
  | .assign span t v => .assign (span.moved f) (t.moved f) (v.moved f)
  | .append span t v => .append (span.moved f) (t.moved f) (v.moved f)
  | .increment span t => .increment (span.moved f) (t.moved f)
  | .decrement span t => .decrement (span.moved f) (t.moved f)
  | .cond span a b cmp yes no =>
    .cond (span.moved f) (a.moved f) (b.moved f) cmp (yes.moved f) (otherwiseMoved f no)
  | .loop span n body => .loop (span.moved f) (n.moved f) (body.moved f)
  | .leave span => .leave (span.moved f)
  | .answer span e => .answer (span.moved f) (e.moved f)
  | .observe span e => .observe (span.moved f) (e.moved f)
  | .doctest span e expected => .doctest (span.moved f) (e.moved f) (expected.moved f)

def otherwiseMoved (f : Nat → Nat) : Option Block → Option Block
  | none => none
  | some b => some (b.moved f)

def Block.moved (f : Nat → Nat) : Block → Block
  | .mk span body => .mk (span.moved f) (bodyMoved f body)

def bodyMoved (f : Nat → Nat) : List Stmt → List Stmt
  | [] => []
  | s :: rest => s.moved f :: bodyMoved f rest

end

theorem allMovedMap (f : Nat → Nat) (es : List Expr) : allMoved f es = es.map (Expr.moved f) := by
  induction es with
  | nil => rfl
  | cons e es ih => rw [allMoved,ih,List.map_cons]

theorem bodyMovedMap (f : Nat → Nat) (body : List Stmt) : bodyMoved f body = body.map (Stmt.moved f) := by
  induction body with
  | nil => rfl
  | cons s body ih => rw [bodyMoved,ih,List.map_cons]

mutual

theorem Expr.bareMoved (f : Nat → Nat) : (e : Expr) → (e.moved f).bare = e.bare
  | .int _ _ => rfl
  | .null _ => rfl
  | .text _ _ _ => rfl
  | .seq _ es => by simp only [Expr.moved,Expr.bare,allBareMoved f es]
  | .var p => by simp only [Expr.moved,Expr.bare,p.bareMoved f]
  | .fn _ _ body => by simp only [Expr.moved,Expr.bare,body.bareMoved f]
  | .call _ _ es => by simp only [Expr.moved,Expr.bare,allBareMoved f es]
  | .neg _ e => by simp only [Expr.moved,Expr.bare,e.bareMoved f]
  | .len _ e => by simp only [Expr.moved,Expr.bare,e.bareMoved f]

theorem allBareMoved (f : Nat → Nat) : (es : List Expr) → allBare (allMoved f es) = allBare es
  | [] => rfl
  | e :: es => by simp only [allMoved,allBare,e.bareMoved f,allBareMoved f es]

theorem Place.bareMoved (f : Nat → Nat) : (p : Place) → (p.moved f).bare = p.bare
  | .mk _ _ is => by simp only [Place.moved,Place.bare,allBareMoved f is]

theorem Stmt.bareMoved (f : Nat → Nat) : (s : Stmt) → (s.moved f).bare = s.bare
  | .assign _ t v => by simp only [Stmt.moved,Stmt.bare,t.bareMoved f,v.bareMoved f]
  | .append _ t v => by simp only [Stmt.moved,Stmt.bare,t.bareMoved f,v.bareMoved f]
  | .increment _ t => by simp only [Stmt.moved,Stmt.bare,t.bareMoved f]
  | .decrement _ t => by simp only [Stmt.moved,Stmt.bare,t.bareMoved f]
  | .cond _ a b _ yes none => by
    simp only [Stmt.moved,Stmt.bare,a.bareMoved f,b.bareMoved f,yes.bareMoved f,otherwiseMoved]
  | .cond _ a b _ yes (some no) => by
    simp only [Stmt.moved,Stmt.bare,a.bareMoved f,b.bareMoved f,yes.bareMoved f,otherwiseMoved,otherwiseBare,no.bareMoved f]
  | .loop _ n body => by simp only [Stmt.moved,Stmt.bare,n.bareMoved f,body.bareMoved f]
  | .leave _ => rfl
  | .answer _ e => by simp only [Stmt.moved,Stmt.bare,e.bareMoved f]
  | .observe _ e => by simp only [Stmt.moved,Stmt.bare,e.bareMoved f]
  | .doctest _ e expected => by simp only [Stmt.moved,Stmt.bare,e.bareMoved f,expected.bareMoved f]

theorem Block.bareMoved (f : Nat → Nat) : (b : Block) → (b.moved f).bare = b.bare
  | .mk _ body => by simp only [Block.moved,Block.bare,bodyBareMoved f body]

theorem bodyBareMoved (f : Nat → Nat) : (body : List Stmt) → bodyBare (bodyMoved f body) = bodyBare body
  | [] => rfl
  | s :: body => by simp only [bodyMoved,bodyBare,s.bareMoved f,bodyBareMoved f body]

end

theorem Expr.nullBare (e : Expr) : e.bare.isNull = e.isNull := by cases e <;> rfl

def Stmt.isOpen : Stmt → Bool
  | .cond _ _ _ _ _ none => true
  | _ => false

inductive Tree where
  | expr (e : Expr)
  | stmt (s : Stmt)
  | block (b : Block)

namespace Tree

def span : Tree → Span
  | expr e => e.span
  | stmt s => s.span
  | block b => b.span

def children : Tree → List Tree
  | expr (.int _ _) => []
  | expr (.null _) => []
  | expr (.text _ _ _) => []
  | expr (.seq _ es) => es.map expr
  | expr (.var p) => p.indices.map expr
  | expr (.fn _ _ body) => [block body]
  | expr (.call _ _ es) => es.map expr
  | expr (.neg _ e) => [expr e]
  | expr (.len _ e) => [expr e]
  | stmt (.assign _ t v) => [expr (.var t),expr v]
  | stmt (.append _ t v) => [expr (.var t),expr v]
  | stmt (.increment _ t) => [expr (.var t)]
  | stmt (.decrement _ t) => [expr (.var t)]
  | stmt (.cond _ a b _ yes no) => expr a :: expr b :: block yes :: no.toList.map block
  | stmt (.loop _ n body) => [expr n,block body]
  | stmt (.leave _) => []
  | stmt (.answer _ e) => [expr e]
  | stmt (.observe _ e) => [expr e]
  | stmt (.doctest _ e expected) => [expr e,expr expected]
  | block b => b.body.map stmt

def Hereditary (P : Tree → Prop) : Prop := ∀ n, (∀ m ∈ n.children, P m) → P n

mutual

theorem inductExpr {P : Tree → Prop} (step : Hereditary P) : (e : Expr) → P (expr e)
  | .int _ _ => step _ (by simp [children])
  | .null _ => step _ (by simp [children])
  | .text _ _ _ => step _ (by simp [children])
  | .seq _ es => step _ (inductAll step es)
  | .var p => inductPlace step p
  | .fn _ _ body => step _ (by simpa [children] using inductBlock step body)
  | .call _ _ es => step _ (inductAll step es)
  | .neg _ e => step _ (by simpa [children] using inductExpr step e)
  | .len _ e => step _ (by simpa [children] using inductExpr step e)

theorem inductAll {P : Tree → Prop} (step : Hereditary P) : (es : List Expr) → ∀ m ∈ es.map expr, P m
  | [] => by simp
  | e :: es => List.forall_mem_cons.mpr ⟨inductExpr step e,inductAll step es⟩

theorem inductPlace {P : Tree → Prop} (step : Hereditary P) : (p : Place) → P (expr (.var p))
  | .mk _ _ is => step _ (inductAll step is)

theorem inductStmt {P : Tree → Prop} (step : Hereditary P) : (s : Stmt) → P (stmt s)
  | .assign _ t v => step _ (by simpa [children] using ⟨inductPlace step t,inductExpr step v⟩)
  | .append _ t v => step _ (by simpa [children] using ⟨inductPlace step t,inductExpr step v⟩)
  | .increment _ t => step _ (by simpa [children] using inductPlace step t)
  | .decrement _ t => step _ (by simpa [children] using inductPlace step t)
  | .cond _ a b _ yes none => step _ (by simpa [children] using ⟨inductExpr step a,inductExpr step b,inductBlock step yes⟩)
  | .cond _ a b _ yes (some no) =>
    step _ (by simpa [children] using ⟨inductExpr step a,inductExpr step b,inductBlock step yes,inductBlock step no⟩)
  | .loop _ n body => step _ (by simpa [children] using ⟨inductExpr step n,inductBlock step body⟩)
  | .leave _ => step _ (by simp [children])
  | .answer _ e => step _ (by simpa [children] using inductExpr step e)
  | .observe _ e => step _ (by simpa [children] using inductExpr step e)
  | .doctest _ e expected => step _ (by simpa [children] using ⟨inductExpr step e,inductExpr step expected⟩)

theorem inductBlock {P : Tree → Prop} (step : Hereditary P) : (b : Block) → P (block b)
  | .mk _ body => step _ (inductBody step body)

theorem inductBody {P : Tree → Prop} (step : Hereditary P) : (body : List Stmt) → ∀ m ∈ body.map stmt, P m
  | [] => by simp
  | s :: body => List.forall_mem_cons.mpr ⟨inductStmt step s,inductBody step body⟩

end

theorem induct {P : Tree → Prop} (step : Hereditary P) (n : Tree) : P n := by
  cases n with
  | expr e => exact inductExpr step e
  | stmt s => exact inductStmt step s
  | block b => exact inductBlock step b

inductive All (P : Tree → Prop) : Tree → Prop where
  | intro {n} (here : P n) (under : ∀ m ∈ n.children, All P m) : All P n

variable {P Q : Tree → Prop} {n : Tree}

theorem All.here (all : All P n) : P n := by
  cases all with
  | intro here under => exact here

theorem All.under (all : All P n) : ∀ m ∈ n.children, All P m := by
  cases all with
  | intro here under => exact under

theorem All.imp (weaker : ∀ n, P n → Q n) (all : All P n) : All Q n := by
  induction all with
  | intro here _ ih => exact .intro (weaker _ here) ih

theorem allOf (each : ∀ n, P n) (n : Tree) : All P n := induct (fun n under => .intro (each n) under) n

def moved (f : Nat → Nat) : Tree → Tree
  | expr e => expr (e.moved f)
  | stmt s => stmt (s.moved f)
  | block b => block (b.moved f)

theorem allMovedFixed {f : Nat → Nat} {es} (each : ∀ m ∈ es.map expr, m.moved f = m) : allMoved f es = es := by
  rw [allMovedMap]
  refine (List.map_congr_left fun e inside => ?_).trans (List.map_id es)
  exact expr.inj (each _ (List.mem_map_of_mem inside))

theorem bodyMovedFixed {f : Nat → Nat} {body} (each : ∀ m ∈ body.map stmt, m.moved f = m) : bodyMoved f body = body := by
  rw [bodyMovedMap]
  refine (List.map_congr_left fun s inside => ?_).trans (List.map_id body)
  exact stmt.inj (each _ (List.mem_map_of_mem inside))

theorem movedFixed {f : Nat → Nat} (fixed : All (fun n => n.span.moved f = n.span) n) : n.moved f = n := by
  induction fixed with
  | @intro n here under ih =>
    rcases n with e | s | ⟨span,body⟩
    · cases e with
      | seq span es =>
        have inner : allMoved f es = es := allMovedFixed ih
        simp only [moved,Expr.moved,inner,show span.moved f = span from here]
      | call span name es =>
        have inner : allMoved f es = es := allMovedFixed ih
        simp only [moved,Expr.moved,inner,show span.moved f = span from here]
      | var place =>
        obtain ⟨span,name,is⟩ := place
        have inner : allMoved f is = is := allMovedFixed ih
        simp only [moved,Expr.moved,Place.moved,inner,show span.moved f = span from here]
      | _ => simp_all [moved,Expr.moved,Tree.span,Expr.span,children]
    · cases s with
      | cond span a b comparator yes no =>
        cases no <;> simp_all [moved,Stmt.moved,otherwiseMoved,Tree.span,Stmt.span,children]
      | _ => simp_all [moved,Stmt.moved,Expr.moved,Tree.span,Stmt.span,children]
    · have inner : bodyMoved f body = body := bodyMovedFixed ih
      simp only [moved,Block.moved,inner,show span.moved f = span from here]

theorem allMovedTwice {f g : Nat → Nat} {es} (each : ∀ m ∈ es.map expr, (m.moved f).moved g = m.moved (g ∘ f)) :
    allMoved g (allMoved f es) = allMoved (g ∘ f) es := by
  simp only [allMovedMap,List.map_map]
  exact List.map_congr_left fun e inside => expr.inj (each _ (List.mem_map_of_mem inside))

theorem bodyMovedTwice {f g : Nat → Nat} {body} (each : ∀ m ∈ body.map stmt, (m.moved f).moved g = m.moved (g ∘ f)) :
    bodyMoved g (bodyMoved f body) = bodyMoved (g ∘ f) body := by
  simp only [bodyMovedMap,List.map_map]
  exact List.map_congr_left fun s inside => stmt.inj (each _ (List.mem_map_of_mem inside))

theorem movedTwice (f g : Nat → Nat) (n : Tree) : (n.moved f).moved g = n.moved (g ∘ f) := by
  refine induct (P := fun n => (n.moved f).moved g = n.moved (g ∘ f)) (fun n ih => ?_) n
  rcases n with e | s | ⟨span,body⟩
  · cases e with
    | seq span es => simp only [moved,Expr.moved,Span.moved,allMovedTwice ih,Function.comp]
    | call span name es => simp only [moved,Expr.moved,Span.moved,allMovedTwice ih,Function.comp]
    | var place =>
      obtain ⟨span,name,is⟩ := place
      have inner : allMoved g (allMoved f is) = allMoved (g ∘ f) is := allMovedTwice ih
      simp only [moved,Expr.moved,Place.moved,Span.moved,inner,Function.comp]
    | _ => simp_all [moved,Expr.moved,Span.moved,children]
  · cases s with
    | cond span a b comparator yes no =>
      cases no <;> simp_all [moved,Stmt.moved,otherwiseMoved,Span.moved,children]
    | _ => simp_all [moved,Stmt.moved,Expr.moved,Span.moved,children]
  · have inner : bodyMoved g (bodyMoved f body) = bodyMoved (g ∘ f) body := bodyMovedTwice ih
    simp only [moved,Block.moved,Span.moved,inner,Function.comp]

end Tree

end Terakoya
