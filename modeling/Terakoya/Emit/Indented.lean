import Terakoya.Emit.Literal

/-! The P dialect: blocks are indented, and a function that is not directly assigned to a name is a
lambda if its body is one answer; any other is defined above the statement that uses it. -/
namespace Terakoya.Emit.Indented

structure Line where
  level : Nat
  text : String
  deriving DecidableEq, Repr

structure Sheet where
  lines : Array Line := #[]
  lambdas : Nat := 0
  usesRandom : Bool := false

abbrev Draft := StateM Sheet

def write (level : Nat) (text : String) : Draft Unit :=
  modify fun s => { s with lines := s.lines.push ⟨level, text⟩ }

def noteRandom : Draft Unit := modify fun s => { s with usesRandom := true }

def freshName : Draft String := do
  modify fun s => { s with lambdas := s.lambdas + 1 }
  return "_lambda" ++ toString (← get).lambdas

def comparator : Comparator → String
  | .equal => "=="
  | .notEqual => "!="
  | .greaterEqual => ">="
  | .lessEqual => "<="
  | .greater => ">"
  | .less => "<"

def definition (name : String) (params : List String) : String :=
  "def " ++ name ++ "(" ++ parameters params ++ "):"

def isPlain : Expr → Bool
  | .fn _ _ _ => false
  | _ => true

def lambdaHead (params : List String) : String :=
  if params.isEmpty then "lambda: " else "lambda " ++ parameters params ++ ": "

def randomPick (assigned : Bool) (base : String) : String :=
  if assigned then base ++ "[random.randrange(len(" ++ base ++ "))]"
  else "random.choice(" ++ base ++ ")"

mutual

def expr (level : Nat) : Expr → Draft String
  | .int _ n => return toString n
  | .null _ => return "None"
  | .text _ s none => return quote s
  | .text _ s (some i) => return "ord(" ++ quote s ++ "[" ++ toString i ++ "])"
  | .seq _ items => do return "[" ++ ", ".intercalate (← exprs level items) ++ "]"
  | .var p => place level false p
  | .fn _ params (.mk _ [.answer _ value]) => do
    if isPlain value then return lambdaHead params ++ (← expr level value)
    else
      let name ← freshName
      write level (definition name params)
      write (level + 1) ("return " ++ (← expr (level + 1) value))
      return name
  | .fn _ params body => do
    let name ← freshName
    write level (definition name params)
    block (level + 1) body
    return name
  | .call _ name args => do return name ++ "(" ++ ", ".intercalate (← exprs level args) ++ ")"
  | .neg _ e => do
    let operand ← expr level e
    return if operand.startsWith "-" then "-(" ++ operand ++ ")" else "-" ++ operand
  | .len _ e => do return "len(" ++ (← expr level e) ++ ")"

def exprs (level : Nat) : List Expr → Draft (List String)
  | [] => return []
  | e :: rest => do
    let text ← expr level e
    return text :: (← exprs level rest)

def place (level : Nat) (assigned : Bool) : Place → Draft String
  | .mk _ name indices => indexed level assigned name indices

def indexed (level : Nat) (assigned : Bool) (base : String) : List Expr → Draft String
  | [] => return base
  | .null _ :: rest => do
    noteRandom
    indexed level assigned (randomPick (assigned && rest.isEmpty) base) rest
  | e :: rest => do
    let index ← expr level e
    indexed level assigned (base ++ "[" ++ index ++ "]") rest

def stmt (level : Nat) : Stmt → Draft Unit
  | .assign _ (.mk _ name []) (.fn _ params body) => do
    write level (definition name params)
    block (level + 1) body
  | .assign _ (.mk _ name indices) value => do
    let (base, appends) ← target level name indices
    let text ← expr level value
    if appends then write level (base ++ ".append(" ++ text ++ ")")
    else write level (base ++ " = " ++ text)
  | .append _ t value => do
    let base ← place level false t
    let text ← expr level value
    write level (base ++ ".append(" ++ text ++ ")")
  | .increment _ t => do write level ((← place level true t) ++ " += 1")
  | .decrement _ t => do write level ((← place level true t) ++ " -= 1")
  | .cond _ left right cmp yes no => do
    let l ← expr level left
    let r ← expr level right
    write level ("if " ++ l ++ " " ++ comparator cmp ++ " " ++ r ++ ":")
    block (level + 1) yes
    match no with
    | some b =>
      write level "else:"
      block (level + 1) b
    | none => return ()
  | .loop _ (.null _) body => do
    write level "while True:"
    block (level + 1) body
  | .loop _ count body => do
    let text ← expr level count
    write level ("for _ in range(" ++ text ++ "):")
    block (level + 1) body
  | .leave _ => write level "break"
  | .answer _ value => do write level ("return " ++ (← expr level value))
  | .observe _ value => do write level ("print(" ++ (← expr level value) ++ ")")
  | .doctest _ value expected => do
    let actual ← expr level value
    let wanted ← expr level expected
    write level ("assert " ++ actual ++ " == " ++ wanted)

def target (level : Nat) (base : String) : List Expr → Draft (String × Bool)
  | [] => return (base, false)
  | [.null _] => return (base, true)
  | .null _ :: rest => do
    noteRandom
    target level (randomPick false base) rest
  | e :: rest => do
    let index ← expr level e
    target level (base ++ "[" ++ index ++ "]") rest

def block (level : Nat) : Block → Draft Unit
  | .mk _ [] => write level "pass"
  | .mk _ body => stmts level body

def stmts (level : Nat) : List Stmt → Draft Unit
  | [] => return ()
  | s :: rest => do
    stmt level s
    stmts level rest

end

def sheet (body : List Stmt) : Sheet := ((stmts 0 body).run {}).2

def renderLine (base : Nat) (l : Line) : String := indentation (base + l.level) ++ l.text ++ "\n"

/-- What random picks need, before everything else. -/
def header (indent : Nat) (body : List Stmt) : String :=
  indentation indent ++ "import random\n" ++ if body.isEmpty then "" else "\n"

def emit (indent : Nat) (body : List Stmt) : String :=
  let s := sheet body
  (if s.usesRandom then header indent body else "") ++
    String.join (s.lines.toList.map (renderLine indent))

end Terakoya.Emit.Indented
