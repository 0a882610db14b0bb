import Terakoya.Emit.Literal

/-! The J dialect: statements end with semicolons, blocks stand in braces, and a function that is
not directly assigned to a name is an arrow function, whose body takes lines of its own. -/
namespace Terakoya.Emit.Braced

inductive Ink where
  | words (s : String)
  | indent (level : Nat)
  | newline
  deriving DecidableEq, Repr

abbrev Page := List Ink

/-- Output with `base` more levels in front of each line. -/
def Ink.render (base : Nat) : Ink → String
  | words s => s
  | indent level => indentation (base + level)
  | newline => "\n"

def render (base : Nat) (p : Page) : String := String.join (p.map (Ink.render base))

def comparator : Comparator → String
  | .equal => "==="
  | .notEqual => "!=="
  | .greaterEqual => ">="
  | .lessEqual => "<="
  | .greater => ">"
  | .less => "<"

/-- The counter of a loop inside `depth` others: i, j, k, then i3, i4 and so on. -/
def counter : Nat → String
  | 0 => "i"
  | 1 => "j"
  | 2 => "k"
  | depth => "i" ++ toString depth

def line (level : Nat) (p : Page) : Page := .indent level :: p ++ [.newline]

def wordLine (level : Nat) (s : String) : Page := line level [.words s]

def statementLine (level : Nat) (p : Page) : Page := line level (p ++ [.words ";"])

def commas : List Page → Page
  | [] => []
  | [p] => p
  | p :: rest => p ++ .words ", " :: commas rest

def startsWithMinus : Page → Bool
  | .words s :: _ => s.startsWith "-"
  | _ => false

/-- The head of a loop that counts up to a literal, or to a count that is worked out once. -/
def loopHead (v : String) (literal : Bool) (count : Page) : Page :=
  if literal then
    .words ("for (let " ++ v ++ " = 0; " ++ v ++ " < ") :: count ++
      [.words ("; " ++ v ++ "++) \x7b")]
  else
    .words ("for (let " ++ v ++ " = 0, " ++ v ++ "End = ") :: count ++
      [.words ("; " ++ v ++ " < " ++ v ++ "End; " ++ v ++ "++) \x7b")]

def isLiteral : Expr → Bool
  | .int _ _ => true
  | _ => false

mutual

/-- An expression on a line of some level, inside `depth` loops. -/
def expr (level depth : Nat) : Expr → Page
  | .int _ n => [.words (toString n)]
  | .null _ => [.words "null"]
  | .text _ s none => [.words (quote s)]
  | .text _ s (some i) =>
    [.words ("[..." ++ quote s ++ "][" ++ toString i ++ "].codePointAt(0)")]
  | .seq _ items => .words "[" :: commas (exprs level depth items) ++ [.words "]"]
  | .var p => place level depth p
  | .fn _ params body =>
    [.words ("(" ++ parameters params ++ ") => \x7b"), .newline] ++
      block (level + 1) depth body ++ [.indent level, .words "\x7d"]
  | .call _ name args =>
    .words (name ++ "(") :: commas (exprs level depth args) ++ [.words ")"]
  | .neg _ e =>
    let operand := expr level depth e
    if startsWithMinus operand then .words "-(" :: operand ++ [.words ")"]
    else .words "-" :: operand
  | .len _ e => expr level depth e ++ [.words ".length"]

def exprs (level depth : Nat) : List Expr → List Page
  | [] => []
  | e :: rest => expr level depth e :: exprs level depth rest

def place (level depth : Nat) : Place → Page
  | .mk _ name indices => indexed level depth [.words name] indices

/-- A value with indices after it; `?` takes a random element. -/
def indexed (level depth : Nat) (base : Page) : List Expr → Page
  | [] => base
  | .null _ :: rest =>
    indexed level depth
      (base ++ .words "[Math.floor(Math.random() * " :: base ++ [.words ".length)]"]) rest
  | e :: rest =>
    indexed level depth (base ++ .words "[" :: expr level depth e ++ [.words "]"]) rest

def stmt (level depth : Nat) : Stmt → Page
  | .assign _ (.mk _ name []) (.fn _ params body) =>
    wordLine level ("function " ++ name ++ "(" ++ parameters params ++ ") \x7b") ++
      block (level + 1) depth body ++ wordLine level "\x7d"
  | .assign _ (.mk _ name indices) value =>
    match target level depth [.words name] indices with
    | (base, true) =>
      statementLine level (base ++ .words ".push(" :: expr level depth value ++ [.words ")"])
    | (base, false) => statementLine level (base ++ .words " = " :: expr level depth value)
  | .append _ t value =>
    statementLine level
      (place level depth t ++ .words ".push(" :: expr level depth value ++ [.words ")"])
  | .increment _ t => statementLine level (place level depth t ++ [.words " += 1"])
  | .decrement _ t => statementLine level (place level depth t ++ [.words " -= 1"])
  | .cond _ left right cmp yes no =>
    line level (.words "if (" :: expr level depth left ++
      .words (" " ++ comparator cmp ++ " ") :: expr level depth right ++ [.words ") \x7b"]) ++
    block (level + 1) depth yes ++
    (match no with
      | some b => wordLine level "\x7d else \x7b" ++ block (level + 1) depth b
      | none => []) ++
    wordLine level "\x7d"
  | .loop _ count body =>
    (if count.isNull then wordLine level "while (true) \x7b"
      else line level (loopHead (counter depth) (isLiteral count) (expr level depth count))) ++
    block (level + 1) (depth + 1) body ++ wordLine level "\x7d"
  | .leave _ => statementLine level [.words "break"]
  | .answer _ value => statementLine level (.words "return " :: expr level depth value)
  | .observe _ value =>
    statementLine level (.words "console.log(" :: expr level depth value ++ [.words ")"])
  | .doctest _ value expected =>
    statementLine level (.words "console.assert(JSON.stringify(" :: expr level depth value ++
      .words ") === JSON.stringify(" :: expr level depth expected ++ [.words "))"])

/-- A target that is assigned to: with a last index `?`, which is left out, it is appended to. -/
def target (level depth : Nat) (base : Page) : List Expr → Page × Bool
  | [] => (base, false)
  | [.null _] => (base, true)
  | .null _ :: rest =>
    target level depth
      (base ++ .words "[Math.floor(Math.random() * " :: base ++ [.words ".length)]"]) rest
  | e :: rest =>
    target level depth (base ++ .words "[" :: expr level depth e ++ [.words "]"]) rest

def block (level depth : Nat) : Block → Page
  | .mk _ body => stmts level depth body

def stmts (level depth : Nat) : List Stmt → Page
  | [] => []
  | s :: rest => stmt level depth s ++ stmts level depth rest

end

def emit (indent : Nat) (body : List Stmt) : String := render indent (stmts 0 0 body)

end Terakoya.Emit.Braced
