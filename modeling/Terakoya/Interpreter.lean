import Terakoya.Grammar.Program
import Terakoya.Machine.Eval

/-! Running the text of a program on a machine. -/
namespace Terakoya

inductive Ending where
  | done
  | failed (d : Diagnostic)
  | stuck
  | unfinished

namespace Ending

def diagnostic? : Ending → Option Diagnostic
  | failed d => some d
  | _ => none

end Ending

namespace Interpreter

def defaultBudget : Int := 30000000000

/-- Zero stands for the default, a negative budget for no limit. -/
def budgetFor (ns : Int) : Int := if ns = 0 then defaultBudget else ns

def evaluate (host : Host) (name : String) (source : Text) (body : List Stmt) (m : Machine) :
    Machine × Ending :=
  match (Context.top host source).program body m with
  | .ok _ m => (m, .done)
  | .error (.failed e) m => (m, .failed (e.diagnostic name))
  | .error .stuck m => (m, .stuck)
  | .error .unfinished m => (m, .unfinished)

def runParse (host : Host) (name : String) (p : Parse) (m : Machine) : Machine × Ending :=
  evaluate { host with budget := budgetFor host.budget } name p.source p.program.body m.restart

/-- Reads and runs a text. A text with a fault leaves the machine as it was. -/
def run (host : Host) (name : String) (t : Text) (m : Machine) : Machine × Ending :=
  let p := Parse.strict t
  match p.diagnostics name with
  | d :: _ => (m, .failed d)
  | [] => runParse host name p m

end Interpreter
end Terakoya
