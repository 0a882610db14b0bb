import Terakoya.Emit.Dialect
import Terakoya.Interpreter
import Terakoya.Seed.Basic

/-! A session: fragments of a program run one after the other on the same names. -/
namespace Terakoya

structure Session where
  host : Host
  machine : Machine
  /-- Bound at the start and again whenever the session is cleared. -/
  seed : Planted := []
  sources : List Text := []
  stats : Stats := {}

namespace Diagnostic

def report (margin : String) (d : Diagnostic) : String :=
  let caret := d.location.caret margin
  d.pretty ++ "\n" ++ (if caret = "" then "" else caret ++ "\n")

end Diagnostic

namespace Stats

def line (s : Stats) : String :=
  s!"increments: {s.increments}, decrements: {s.decrements}, comparisons: {s.comparisons}\n"

end Stats

namespace Session

/-- The session as at its beginning. What the seed is made of is not made anew. -/
def reset (s : Session) : Except BadName Session := do
  let (tables, scope) := Tables.new {}
  let machine ← s.seed.apply { s.machine with tables, scope, frames := [] }
  return { s with machine, sources := [], stats := {} }

def start (host : Host) (seed : Seed) : Except BadName Session :=
  let (machine, planted) := Machine.empty.plant seed
  reset { host, machine, seed := planted }

/-- Runs a fragment; the answer is what it shows. A fragment that cannot be read counts nothing. -/
def eval (s : Session) (t : Text) : Session × String :=
  let (m, ending) := Interpreter.run s.host "" t s.machine.restart.clearShown
  let kept := match ending with
    | .failed d => !d.isParse
    | _ => true
  let fault := match ending.diagnostic? with
    | some d => d.report "  "
    | none => ""
  ({ s with machine := m, stats := m.stats, sources := if kept then s.sources ++ [t] else s.sources },
    m.output ++ fault)

def valueWidth : Nat := 60

def shortened (s : String) : String :=
  let cs := s.toList
  if valueWidth < cs.length then String.ofList (cs.take (valueWidth - 3)) ++ "..." else s

def listing (s : Session) : String :=
  match s.machine.dump with
  | [] => "(no variables)\n"
  | names => String.join (names.map fun (name, _, v) => "  " ++ name ++ " = " ++ shortened v ++ "\n")

def source (s : Session) : Text := List.intercalate [.newline] s.sources

def emitted (s : Session) (dialect : String) : String :=
  match Dialect.ofName? dialect with
  | none => "Error: " ++ Dialect.unknown dialect ++ "\n"
  | some d =>
    match d.translate 0 s.source with
    | .error e => "Error: " ++ e.render ++ "\n"
    | .ok out => out

def help : String :=
  String.join
    ["REPL Commands:\n",
      "  :help, :h, :?     Show this help\n",
      "  :env              Show variables in scope\n",
      "  :clear            Clear all variables\n",
      "  :stats            Show counters from the last run\n",
      "  :emit js|py       Translate this session's input\n",
      "  :quit, exit       Exit the REPL\n"]

inductive Command where
  | nothing | help | env | clear | stats | quit
  | emit (dialect : String)
  | unknown (word : String)

def Command.ofString (s : String) : Command :=
  match Text.words s with
  | [] => .nothing
  | word :: rest =>
    if [":help", ":h", ":?"].contains word then .help
    else if word = ":env" then .env
    else if word = ":clear" then .clear
    else if word = ":stats" then .stats
    else if word = ":emit" then .emit (rest.head?.getD "js")
    else if [":quit", ":q"].contains word then .quit
    else .unknown word

def perform (s : Session) : Command → Session × String
  | .nothing | .quit => (s, "")
  | .help => (s, help)
  | .env => (s, s.listing)
  | .clear =>
    match s.reset with
    | .ok s => (s, "Environment cleared\n")
    | .error e => (s, "Error: " ++ e.message ++ "\n")
  | .stats => (s, s.stats.line)
  | .emit dialect => (s, s.emitted dialect)
  | .unknown word => (s, "Unknown command: " ++ word ++ " (type :help for commands)\n")

end Session
end Terakoya
