import Terakoya.Grammar.Program

/-! Programs written out as text: one statement on a line, one blank between words and operands,
brackets and parentheses directly after what they belong to, texts with their escapes. What is left
open, such as the two spellings of an assignment or a blank after a comma, a layout decides.
Also which programs can be written so, and when two trees are the same but for their spans. -/
namespace Terakoya

open Text (ofString)

structure Layout where
  /-- Assignments are written with `=`, not with `を` and `とする`. -/
  sign : Bool
  /-- `未満` stands for `より小さい`. -/
  under : Bool
  /-- `繰り返` stands for `くり返`. -/
  kanji : Bool
  afterComma : Nat
  afterMinus : Nat
  insideBars : Nat
  /-- The blanks between two words with no operand between them. -/
  joint : Nat
  deriving DecidableEq, Repr

namespace Layout

def blanks (n : Nat) : Text := List.replicate n (.char ' ')

def gap : Text := blanks 1

def comma (l : Layout) : Text := .char ',' :: blanks l.afterComma

def digits (n : Nat) : Text := (Nat.toDigits 10 n).map .char

def escape (c : Char) : Text :=
  if c = '\\' then [.char '\\',.char '\\']
  else if c = '"' then [.char '\\',.char '"']
  else if c = '\n' then [.char '\\',.char 'n']
  else if c = '\t' then [.char '\\',.char 't']
  else [.char c]

def quoted (s : String) : Text := .char '"' :: (s.toList.flatMap escape ++ [.char '"'])

def picked : Option Nat → Text
  | none => []
  | some i => .char '[' :: (digits i ++ [.char ']'])

def moreParams (l : Layout) : List String → Text
  | [] => gap
  | p :: rest => l.comma ++ (ofString p ++ l.moreParams rest)

def params (l : Layout) : List String → Text
  | [] => []
  | p :: rest => ofString p ++ l.moreParams rest

def loopWord (l : Layout) : String := if l.kanji then "繰り返す" else "くり返す"

def leaveWord (l : Layout) : String := if l.kanji then "繰り返しを抜ける" else "くり返しを抜ける"

def lessWord (l : Layout) : String := if l.under then "未満" else "より小さい"

def comparison (l : Layout) : Comparator → Text
  | .equal => []
  | .notEqual => ofString "以外" ++ blanks l.joint
  | .greaterEqual => ofString "以上" ++ blanks l.joint
  | .lessEqual => ofString "以下" ++ blanks l.joint
  | .greater => ofString "より大きい" ++ blanks l.joint
  | .less => ofString l.lessWord ++ blanks l.joint

end Layout

open Layout

mutual

def Expr.written (l : Layout) : Expr → Text
  | .int _ n => digits n
  | .null _ => [.char '?']
  | .text _ s index => quoted s ++ picked index
  | .seq _ es => .char '[' :: (itemsWritten l es ++ [.char ']'])
  | .var p => p.written l
  | .fn _ ps body => ofString "入力" ++ gap ++ l.params ps ++ ofString "に対し" ++ gap ++ body.written l
  | .call _ name es => ofString name ++ .char '(' :: (itemsWritten l es ++ [.char ')'])
  | .neg _ e => .char '-' :: (blanks l.afterMinus ++ e.written l)
  | .len _ e => .char '|' :: (blanks l.insideBars ++ e.written l ++ blanks l.insideBars ++ [.char '|'])

def itemsWritten (l : Layout) : List Expr → Text
  | [] => []
  | e :: rest => e.written l ++ moreWritten l rest

def moreWritten (l : Layout) : List Expr → Text
  | [] => []
  | e :: rest => l.comma ++ (e.written l ++ moreWritten l rest)

def Place.written (l : Layout) : Place → Text
  | .mk _ name is => ofString name ++ indicesWritten l is

def indicesWritten (l : Layout) : List Expr → Text
  | [] => []
  | i :: rest => .char '[' :: (i.written l ++ .char ']' :: indicesWritten l rest)

def Stmt.written (l : Layout) : Stmt → Text
  | .assign _ t v =>
    if l.sign then t.written l ++ gap ++ ofString "=" ++ gap ++ v.written l
    else t.written l ++ gap ++ ofString "を" ++ gap ++ v.written l ++ gap ++ ofString "とする"
  | .append _ t v =>
    t.written l ++ gap ++ ofString "の末尾に" ++ gap ++ v.written l ++ gap ++ ofString "を追加する"
  | .increment _ t => t.written l ++ gap ++ ofString "を増やす"
  | .decrement _ t => t.written l ++ gap ++ ofString "を減らす"
  | .cond _ a b cmp yes no =>
    ofString "もし" ++ gap ++ a.written l ++ gap ++ ofString "が" ++ gap ++ b.written l ++ gap ++
      l.comparison cmp ++ ofString "ならば" ++ gap ++ yes.written l ++ otherwiseWritten l no
  | .loop _ n body =>
    n.written l ++ gap ++ ofString "回" ++ blanks l.joint ++ ofString l.loopWord ++ gap ++ body.written l
  | .leave _ => ofString l.leaveWord
  | .answer _ e => e.written l ++ gap ++ ofString "が答え"
  | .observe _ e => e.written l
  | .doctest _ e expected => ofString ">>>" ++ gap ++ e.written l ++ .char '\n' :: expected.written l

def otherwiseWritten (l : Layout) : Option Block → Text
  | none => []
  | some b => gap ++ ofString "そうでなければ" ++ gap ++ b.written l

def Block.written (l : Layout) : Block → Text
  | .mk _ body => .char '\x7b' :: .char '\n' :: (bodyWritten l body ++ [.char '\x7d'])

def bodyWritten (l : Layout) : List Stmt → Text
  | [] => []
  | s :: rest => s.written l ++ .char '\n' :: bodyWritten l rest

end

/-- A name is read back whole, and no phrase begins as it does. -/
def Nameable (name : String) : Prop :=
  isIdentifier (ofString name) ∧
    ∀ w ∈ ["入力","もし","そうでなければ","を"], ¬ w.toList <+: name.toList

instance (name : String) : Decidable (Nameable name) := by unfold Nameable; infer_instance

structure Bindable (ps : List String) : Prop where
  distinct : ps.Nodup
  names : ∀ p ∈ ps, Nameable p
  unbroken : ∀ p ∈ ps, ∀ w ∈ Cursor.bindingStops, ¬ w.toList <:+: p.toList

mutual

def Expr.Writable : Expr → Prop
  | .int _ _ => True
  | .null _ => True
  | .text _ s index => ∀ i, index = some i → i < s.toList.length
  | .seq _ es => allWritable es
  | .var p => p.Writable
  | .fn _ ps body => Bindable ps ∧ body.Writable
  | .call _ name es => Nameable name ∧ allWritable es
  | .neg _ e => e.Writable
  | .len _ e => e.Writable

def allWritable : List Expr → Prop
  | [] => True
  | e :: rest => e.Writable ∧ allWritable rest

def Place.Writable : Place → Prop
  | .mk _ name is => Nameable name ∧ allWritable is

def Stmt.Writable : Stmt → Prop
  | .assign _ t v => t.Writable ∧ v.Writable
  | .append _ t v => t.Writable ∧ v.Writable
  | .increment _ t => t.Writable
  | .decrement _ t => t.Writable
  | .cond _ a b _ yes no => a.Writable ∧ b.Writable ∧ yes.Writable ∧ otherwiseWritable no
  | .loop _ n body => n.Writable ∧ body.Writable
  | .leave _ => True
  | .answer _ e => e.Writable
  | .observe _ e => e.Writable
  | .doctest _ e expected => e.Writable ∧ expected.Writable

def otherwiseWritable : Option Block → Prop
  | none => True
  | some b => b.Writable

def Block.Writable : Block → Prop
  | .mk _ body => bodyWritable body

def bodyWritable : List Stmt → Prop
  | [] => True
  | s :: rest => s.Writable ∧ bodyWritable rest

end

def nowhere : Span := ⟨0,0⟩

mutual

def Expr.bare : Expr → Expr
  | .int _ n => .int nowhere n
  | .null _ => .null nowhere
  | .text _ s index => .text nowhere s index
  | .seq _ es => .seq nowhere (allBare es)
  | .var p => .var p.bare
  | .fn _ ps body => .fn nowhere ps body.bare
  | .call _ name es => .call nowhere name (allBare es)
  | .neg _ e => .neg nowhere e.bare
  | .len _ e => .len nowhere e.bare

def allBare : List Expr → List Expr
  | [] => []
  | e :: rest => e.bare :: allBare rest

def Place.bare : Place → Place
  | .mk _ name is => .mk nowhere name (allBare is)

def Stmt.bare : Stmt → Stmt
  | .assign _ t v => .assign nowhere t.bare v.bare
  | .append _ t v => .append nowhere t.bare v.bare
  | .increment _ t => .increment nowhere t.bare
  | .decrement _ t => .decrement nowhere t.bare
  | .cond _ a b cmp yes no => .cond nowhere a.bare b.bare cmp yes.bare (otherwiseBare no)
  | .loop _ n body => .loop nowhere n.bare body.bare
  | .leave _ => .leave nowhere
  | .answer _ e => .answer nowhere e.bare
  | .observe _ e => .observe nowhere e.bare
  | .doctest _ e expected => .doctest nowhere e.bare expected.bare

def otherwiseBare : Option Block → Option Block
  | none => none
  | some b => some b.bare

def Block.bare : Block → Block
  | .mk _ body => .mk nowhere (bodyBare body)

def bodyBare : List Stmt → List Stmt
  | [] => []
  | s :: rest => s.bare :: bodyBare rest

end

end Terakoya
