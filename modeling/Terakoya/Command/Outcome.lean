import Terakoya.Session.Dialogue
import Terakoya.Settings.Load

/-! What a command leaves behind, and the running of programs with given settings. -/
namespace Terakoya

structure Outcome where
  exit : Nat := 0
  out : String := ""
  err : String := ""

namespace Outcome

def program : Nat := 1

def misuse : Nat := 2

def refused (message : String) : Outcome := { exit := misuse, err := "Error: " ++ message ++ "\n" }

end Outcome

structure Runner where
  settings : Settings := {}
  seed : Seed := []
  recover : Bool := false
  cancelled : Bool := false
  random : Nat → Nat → Nat := fun _ _ => 0

namespace Runner

def budget (s : Settings) : Int := if 0 < s.budget then s.budget else -1

def hostFor (s : Settings) : Host := { maxDepth := s.maxDepth.toNat, budget := budget s }

def margin : String := "    "

def reports (ds : List Diagnostic) : String := String.join (ds.map (Diagnostic.report margin))

def faults (r : Runner) (name : String) (t : Text) : List Diagnostic :=
  if r.recover then (Parse.recovering t).diagnostics name else ((Parse.strict t).diagnostics name).take 1

def evaluate (r : Runner) (name : String) (t : Text) (m : Machine) : Outcome :=
  let host := { hostFor r.settings with cancelled := r.cancelled, random := r.random }
  let (m, ending) := Interpreter.run host name t m
  let counters := if r.settings.stats then m.stats.line else ""
  match ending with
  | .done => { out := m.output, err := counters }
  | ending =>
    { exit := Outcome.program, out := m.output
      err := counters ++ reports ending.diagnostic?.toList }

def runSource (r : Runner) (name : String) (t : Text) : Outcome :=
  match Machine.seeded r.seed with
  | .error e => .refused e.message
  | .ok m =>
    match if r.recover then r.faults name t else [] with
    | [] => r.evaluate name t m
    | ds => { exit := Outcome.program, err := reports ds }

def runFile (r : Runner) (path : String) : Action Outcome := do
  match ← Action.read path with
  | .ok t => return r.runSource path t
  | .error e =>
    return { exit := Outcome.misuse, err := "Error reading file '" ++ path ++ "': " ++ e.message path ++ "\n" }

def unreadable (path : String) (e : FileFault) : String :=
  "Error reading " ++ path ++ ": " ++ e.message path ++ "\n"

def check (r : Runner) (failed : Bool) : List String → Action Outcome
  | [] => return { exit := if failed then Outcome.program else 0 }
  | path :: rest => do
    match ← Action.read path with
    | .error e => return { exit := Outcome.misuse, err := unreadable path e }
    | .ok t =>
      let ds := r.faults path t
      let o ← check r (failed || !ds.isEmpty) rest
      return { o with err := reports ds ++ o.err }

def announce (w : Surroundings) (path : String) : Action (Except Outcome String) := do
  match ← Action.exists? (Path.directory (Path.absolute w.directory path)) with
  | .ok () => return .ok ("[watch] watching " ++ path ++ "\n")
  | .error e => return .error (.refused ("failed to watch " ++ path ++ ": " ++ e.reason))

def watchOnce (r : Runner) (w : Surroundings) (path : String) : Action Outcome := do
  match ← announce w path with
  | .error o => return o
  | .ok line =>
    let o ← r.runFile path
    return { exit := 0, out := o.out, err := line ++ o.err }

end Runner

namespace Dialogue

def opened (w : Surroundings) (s : Settings) (seed : Seed) : Action (Except BadName Dialogue) := do
  match Session.start { Runner.hostFor s with random := w.random } seed with
  | .error e => return .error e
  | .ok session =>
    if s.history = "" then return .ok { session }
    match ← Action.read s.history with
    | .ok t => return .ok { session, history := .ofText t }
    | .error _ => return .ok { session }

end Dialogue
end Terakoya
