import Terakoya.Grammar.Reader
import Terakoya.Source.Identifier
import Terakoya.Tree

/-! The phrases of the language, each given the readers for the phrases nested in it. -/
namespace Terakoya

structure Phrases where
  /-- An expression, whatever follows it. -/
  primary : Reader Expr
  statement : Reader Stmt

namespace Phrases

open Reader

variable (nested : Phrases)

/-- An expression that no infix operator follows. -/
def guarded (primary : Reader Expr) : Reader Expr := do
  let e ← primary
  fun c =>
    let next := c.skipSpaces
    if Cursor.isInfixOperator next.peek then .refused ⟨next.pos, .infixOperator next.peek⟩
    else .found e c

def expression : Reader Expr := guarded nested.primary

/-- The statements of a block up to its closing brace; `start` is where the block began. -/
def statements (start : Nat) : Nat → Reader (List Stmt)
  | 0 => unfinished
  | n + 1 => do
    blank
    if ← tryWord "\x7d" then return []
    if (← fun c => .found c.atEnd c) then refuse start .unclosedBlock
    else
      let s ← nested.statement
      let rest ← statements start n
      return s :: rest

/-- `{ statements }`, which has to come next. -/
def block : Reader Block := do
  let start ← here
  require .openBrace (word "\x7b")
  let body ← fuelled (nested.statements start)
  return .mk ⟨start, ← here⟩ body

/-- An optional `、` before a block. -/
def pause : Reader Unit := do
  spaces
  if ← tryWord "、" then spaces

/-- The words for comparators; one that begins with another comes first. -/
def comparators : List (String × Comparator) :=
  [("より大きい", .greater), ("より小さい", .less), ("以上", .greaterEqual), ("以下", .lessEqual),
    ("未満", .less), ("以外", .notEqual)]

def comparator : List (String × Comparator) → Reader Comparator
  | [] => return .equal
  | (w, cmp) :: rest => do
    if ← tryWord w then
      spaces
      return cmp
    else comparator rest

/-- `そうでなければ { … }`, if it comes next. -/
def alternative : Reader (Option Block) :=
  orElse (do blank; word "そうでなければ"; pause; return some (← nested.block)) (return none)

def conditional : Reader Stmt := do
  let start ← here
  word "もし"
  spaces
  let left ← nested.expression
  spaces
  word "が"
  spaces
  let right ← nested.expression
  spaces
  let cmp ← comparator comparators
  word "ならば"
  pause
  let yes ← nested.block
  let no ← nested.alternative
  return .cond ⟨start, ← here⟩ left right cmp yes no

def loop : Reader Stmt := do
  let start ← here
  let count ← nested.expression
  spaces
  word "回"
  spaces
  orElse (word "くり返す") (word "繰り返す")
  pause
  let body ← nested.block
  return .loop ⟨start, ← here⟩ count body

/-- `>>> e`, then the value expected of it on the next line. -/
def doctest : Reader Stmt := do
  let start ← here
  word ">>>"
  spaces
  let value ← require .expression nested.expression
  statementEnd
  spaces
  require .expectedOnNextLine (word "\n")
  spaces
  let expected ← require .expectedValue nested.expression
  return .doctest ⟨start, ← here⟩ value expected

/-- The indices `[i]` after a name. -/
def indices : Nat → Reader (List Expr)
  | 0 => unfinished
  | n + 1 => do
    if ← tryWord "[" then
      spaces
      let i ← require .expression nested.expression
      spaces
      require .closeBracket (word "]")
      let rest ← indices n
      return i :: rest
    else return []

def identifier : Reader String := fun c =>
  match c.readIdentifier with
  | ("", _) => .absent c
  | (name, next) => .found name next

/-- A name with its indices. What follows the name must not make it a call. -/
def target : Reader Place := do
  let start ← here
  let name ← identifier
  if (← peek) = '(' then absent
  else
    let is ← fuelled nested.indices
    return .mk ⟨start, ← here⟩ name is

def onTarget : Reader Stmt := do
  let start ← here
  let t ← nested.target
  spaces
  if ← tryWord "を増やす" then return .increment ⟨start, ← here⟩ t
  if ← tryWord "を減らす" then return .decrement ⟨start, ← here⟩ t
  if ← tryWord "の末尾に" then
    spaces
    let value ← require .expression nested.expression
    spaces
    require .appendEnding (word "を追加する")
    return .append ⟨start, ← here⟩ t value
  if ← tryWord "=" then
    spaces
    let value ← require .expression nested.expression
    return .assign ⟨start, ← here⟩ t value
  word "を"
  spaces
  let value ← nested.expression
  spaces
  word "とする"
  return .assign ⟨start, ← here⟩ t value

def answer : Reader Stmt := do
  let start ← here
  let value ← nested.expression
  spaces
  word "が答え"
  return .answer ⟨start, ← here⟩ value

def leave : Reader Stmt := do
  let start ← here
  orElse (word "くり返しを抜ける") (word "繰り返しを抜ける")
  return .leave ⟨start, ← here⟩

def observe : Reader Stmt := do
  let start ← here
  let value ← nested.expression
  return .observe ⟨start, ← here⟩ value

def oneStatement : Reader Stmt := do
  let start ← here
  let s ← orElse
    (firstOf [nested.conditional, nested.loop, nested.doctest, nested.onTarget, nested.answer, leave,
      nested.observe])
    (refuse start .noStatement)
  statementEnd
  return s

/-- A run of digits, which no decimal point may follow. -/
def integer : Reader Expr := do
  let start ← here
  let digits ← fun c => .found c.readDigits.1 c.readDigits.2
  if (← peek) = '.' then refuse start .fraction
  else return .int ⟨start, ← here⟩ (Nat.ofDigitChars 10 digits.toList 0)

/-- `[n]` directly after a quoted text, with the offset of the number. -/
def textIndex : Reader (Nat × String) := do
  word "["
  spaces
  let start ← here
  let digits ← fun c => .found c.readDigits.1 c.readDigits.2
  spaces
  if digits = "" then absent
  else
    word "]"
    return (start, digits)

def quotedText : Reader Expr := do
  let start ← here
  let quote ← fun c => .found c.readText c.readText.next
  if !quote.closed then refuse start .unclosedText
  else
    let value := String.ofList quote.content
    let index ← orElse (some <$> textIndex) (return none)
    match index with
    | none => return .text ⟨start, ← here⟩ value none
    | some (at', digits) =>
      let i := Nat.ofDigitChars 10 digits.toList 0
      if i < quote.content.length then return .text ⟨start, ← here⟩ value (some i)
      else refuse at' (.textIndex digits quote.content.length)

def length : Reader Expr := do
  let start ← here
  advance
  spaces
  let operand ← require .expression nested.expression
  spaces
  require .bar (word "|")
  return .len ⟨start, ← here⟩ operand

def negation : Reader Expr := do
  let start ← here
  advance
  spaces
  let operand ← nested.primary
  return .neg ⟨start, ← here⟩ operand

/-- Expressions with commas between them, up to a closing bracket, over any number of lines. -/
def items (close : String) : Nat → Reader (List Expr)
  | 0 => unfinished
  | n + 1 => do
    let e ← require .expression nested.expression
    blank
    if ← tryWords [",", "、"] then
      blank
      let rest ← items close n
      return e :: rest
    else if ← tryWord close then return [e]
    else expecting (.commaOr close)

def itemsUpTo (close : String) : Reader (List Expr) := do
  blank
  if ← tryWord close then return [] else fuelled (nested.items close)

def sequence : Reader Expr := do
  let start ← here
  advance
  let es ← nested.itemsUpTo "]"
  return .seq ⟨start, ← here⟩ es

def parameters : Nat → Reader (List (Nat × Text))
  | 0 => unfinished
  | n + 1 => do
    let start ← here
    let name ← fun c => .found c.readName.1 c.readName.2
    if name = [] then absent
    else
      spaces
      if ← tryWords [",", "、"] then
        spaces
        let rest ← parameters n
        return (start, name) :: rest
      else return [(start, name)]

def unreadable? (ps : List (Nat × Text)) : Option (Nat × Text) :=
  ps.find? fun p => !isIdentifier p.2

/-- The first parameter whose name came before; `seen` are the names before. -/
def duplicate? (seen : List Text) : List (Nat × Text) → Option (Nat × Text)
  | [] => none
  | p :: ps => if p.2 ∈ seen then some p else duplicate? (p.2 :: seen) ps

def checkParameters (ps : List (Nat × Text)) : Reader Unit :=
  match unreadable? ps, duplicate? [] ps with
  | some (start, name), _ => refuse start (.unreadableParameter (Text.toString name))
  | none, some (start, name) => refuse start (.duplicateParameter (Text.toString name))
  | none, none => return ()

def function : Reader Expr := do
  let start ← here
  word "入力"
  spaces
  let empty ← fun c => .found (c.looksAt "に対し") c
  let ps ← if empty then Reader.pure [] else fuelled parameters
  word "に対し"
  checkParameters ps
  let _ ← tryWord "て"
  pause
  let body ← nested.block
  return .fn ⟨start, ← here⟩ (ps.map fun p => Text.toString p.2) body

/-- A name: a call where `(` follows directly, a variable otherwise. -/
def named : Reader Expr := do
  let start ← here
  let name ← identifier
  if ← tryWord "(" then
    let args ← nested.itemsUpTo ")"
    return .call ⟨start, ← here⟩ name args
  else
    let is ← fuelled nested.indices
    return .var (.mk ⟨start, ← here⟩ name is)

def nullMark : Reader Expr := do
  let start ← here
  advance
  return .null ⟨start, ← here⟩

def onePrimary : Reader Expr := do
  let c ← peek
  if '0' ≤ c && c ≤ '9' then integer
  else if c = '"' then quotedText
  else if c = '|' then nested.length
  else if c = '-' then nested.negation
  else if c = '[' then nested.sequence
  else if c = '?' then nullMark
  else orElse nested.function nested.named

end Phrases
end Terakoya
