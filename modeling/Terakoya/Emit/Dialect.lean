import Terakoya.Emit.Braced
import Terakoya.Emit.Indented
import Terakoya.Grammar.Program
import Terakoya.Text.Blank
import Terakoya.Text.LowerCase
import Terakoya.Text.Quoted

/-! Programs written out in other languages. -/
namespace Terakoya

inductive Dialect where
  | braced | indented
  deriving DecidableEq, Repr

namespace Dialect

def name : Dialect → String
  | braced => "js"
  | indented => "py"

def ofName? (s : String) : Option Dialect :=
  match Text.lower (Text.trim s) with
  | "js" | "j" | "javascript" => some braced
  | "py" | "p" | "python" => some indented
  | _ => none

def unknown (s : String) : String :=
  "unknown dialect " ++ Text.quoted (Text.ofString s) ++ " (want js or py)"

/-- Statements written out with `indent` levels in front of each line. -/
def emit (d : Dialect) (indent : Nat) (body : List Stmt) : String :=
  match d with
  | braced => Emit.Braced.emit indent body
  | indented => Emit.Indented.emit indent body

def translate (d : Dialect) (indent : Nat) (t : Text) : Except Diagnostic String :=
  let p := Parse.strict t
  match p.diagnostics "" with
  | e :: _ => .error e
  | [] => .ok (d.emit indent p.program.body)

end Dialect
end Terakoya
