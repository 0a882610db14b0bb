/-! Programs as trees. Every node keeps the span of source it was read from. -/
namespace Terakoya

structure Span where
  start : Nat
  stop : Nat
  deriving DecidableEq, Repr

inductive Comparator where
  | equal | notEqual | greaterEqual | lessEqual | greater | less
  deriving DecidableEq, Repr

namespace Comparator

def symbol : Comparator → String
  | equal => "="
  | notEqual => "≠"
  | greaterEqual => "≥"
  | lessEqual => "≤"
  | greater => ">"
  | less => "<"

def isOrdering : Comparator → Bool
  | equal | notEqual => false
  | _ => true

end Comparator

mutual

inductive Expr where
  | int (span : Span) (value : Nat)
  /-- `?` -/
  | null (span : Span)
  | text (span : Span) (value : String) (index : Option Nat)
  | seq (span : Span) (items : List Expr)
  | var (place : Place)
  /-- `入力 a, b に対し { … }` -/
  | fn (span : Span) (params : List String) (body : Block)
  | call (span : Span) (name : String) (args : List Expr)
  | neg (span : Span) (operand : Expr)
  | len (span : Span) (operand : Expr)

inductive Place where
  | mk (span : Span) (name : String) (indices : List Expr)

inductive Stmt where
  /-- `x = e` or `x を e とする` -/
  | assign (span : Span) (target : Place) (value : Expr)
  /-- `x の末尾に e を追加する` -/
  | append (span : Span) (target : Place) (value : Expr)
  /-- `x を増やす` -/
  | increment (span : Span) (target : Place)
  /-- `x を減らす` -/
  | decrement (span : Span) (target : Place)
  /-- `もし l が r ならば { … } そうでなければ { … }` -/
  | cond (span : Span) (left right : Expr) (comparator : Comparator) (yes : Block)
      (no : Option Block)
  /-- `n 回くり返す { … }` -/
  | loop (span : Span) (count : Expr) (body : Block)
  /-- `くり返しを抜ける` -/
  | leave (span : Span)
  /-- `e が答え` -/
  | answer (span : Span) (value : Expr)
  | observe (span : Span) (value : Expr)
  /-- `>>> e`, with the value expected of it on the next line. -/
  | doctest (span : Span) (value expected : Expr)

inductive Block where
  | mk (span : Span) (body : List Stmt)

end

structure Program where
  body : List Stmt
  /-- Where reading stopped. -/
  stop : Nat

namespace Place

def span : Place → Span
  | mk span _ _ => span

def name : Place → String
  | mk _ name _ => name

def indices : Place → List Expr
  | mk _ _ indices => indices

end Place

namespace Block

def span : Block → Span
  | mk span _ => span

def body : Block → List Stmt
  | mk _ body => body

end Block

namespace Expr

def span : Expr → Span
  | int span _ => span
  | null span => span
  | text span _ _ => span
  | seq span _ => span
  | var place => place.span
  | fn span _ _ => span
  | call span _ _ => span
  | neg span _ => span
  | len span _ => span

def isNull : Expr → Bool
  | null _ => true
  | _ => false

end Expr

namespace Stmt

def span : Stmt → Span
  | assign span _ _ => span
  | append span _ _ => span
  | increment span _ => span
  | decrement span _ => span
  | cond span _ _ _ _ _ => span
  | loop span _ _ => span
  | leave span => span
  | answer span _ => span
  | observe span _ => span
  | doctest span _ _ => span

end Stmt

/-- Whether the last index is `?`, so that writing to the place appends. -/
def Place.appends (p : Place) : Bool :=
  match p.indices.getLast? with
  | some e => e.isNull
  | none => false

end Terakoya
