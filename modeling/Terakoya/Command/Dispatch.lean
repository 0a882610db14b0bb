import Terakoya.Command.Flag
import Terakoya.Command.Outcome

/-! The command line: running and checking programs, writing them out in other languages, sessions. -/
namespace Terakoya.Command

def version : String := "0.3.0"

def help : String :=
  String.join
    ["koto - Koto interpreter and translator version " ++ version ++ "\n\n",
      "Usage:\n",
      "  koto [options] [file]\n",
      "  koto -e \"code\"\n",
      "  koto --check <file>...\n",
      "  koto emit [-d js|py] [-indent n] [file]\n",
      "  koto repl\n\n",
      "Commands:\n",
      "  emit                  Translate a program to JavaScript or Python\n",
      "  repl                  Start an interactive session\n\n",
      "Display Options:\n",
      "  -h, --help            Show this help message\n",
      "  -V, --version         Show version information\n\n",
      "Evaluation Options:\n",
      "  -e, --eval <code>     Evaluate code string\n",
      "  --check               Check syntax without executing (can specify multiple files)\n",
      "  -t, --timeout <secs>  Stop after this many seconds (0 disables, default 30)\n",
      "  --seed <file>         Bind values from a .yaml or .csv file before running\n",
      "  --config <file>       Read settings from this file instead of koto.yaml\n",
      "  --stats               Print increment, decrement and comparison counts\n",
      "  --watch               Re-run the file whenever it changes\n",
      "  --recover             Report every parse error, not only the first\n\n",
      "With no file and no -e, koto reads the program from stdin, or starts the\n",
      "REPL when stdin is a terminal.\n\n",
      "Examples:\n",
      "  koto                          Start interactive REPL\n",
      "  koto sum.koto                 Run a program\n",
      "  koto -e \"3 回くり返す \x7b 1 \x7d\"    Evaluate inline code\n",
      "  koto --seed data.yaml sum.koto\n",
      "  koto --check *.koto           Check multiple files\n",
      "  koto emit -d py sum.koto      Translate to Python\n"]

def emitHelp : String :=
  String.join
    ["Usage: koto emit [-d js|py] [-indent n] [file]\n\n",
      "Translates a Koto program to JavaScript (js) or Python (py). The program is\n",
      "read from stdin when no file is given.\n"]

def flags : List Flag :=
  [⟨"h", .switch, "Show help message", ""⟩,
    ⟨"help", .switch, "Show help message", ""⟩,
    ⟨"V", .switch, "Show version information", ""⟩,
    ⟨"version", .switch, "Show version information", ""⟩,
    ⟨"e", .text, "Evaluate code string", ""⟩,
    ⟨"eval", .text, "Evaluate code string", ""⟩,
    ⟨"check", .switch, "Check syntax without executing", ""⟩,
    ⟨"t", .real, "Timeout in seconds (0 disables)", "-1"⟩,
    ⟨"timeout", .real, "Timeout in seconds (0 disables)", "-1"⟩,
    ⟨"seed", .text, "Bind values from a .yaml or .csv file", ""⟩,
    ⟨"config", .text, "Config file", ""⟩,
    ⟨"stats", .switch, "Print counters after the run", ""⟩,
    ⟨"watch", .switch, "Re-run the file when it changes", ""⟩,
    ⟨"recover", .switch, "Report every parse error, not only the first", ""⟩]

def emitFlags : List Flag :=
  [⟨"d", .text, "Output dialect: js or py", ""⟩,
    ⟨"dialect", .text, "Output dialect: js or py", ""⟩,
    ⟨"indent", .whole, "Base indentation level", "-1"⟩,
    ⟨"config", .text, "Config file", ""⟩]

def flagOutcome (usage : String) : FlagProblem → Outcome
  | .help => { err := usage }
  | e => { exit := Outcome.misuse, err := e.message ++ "\n" ++ usage }

def settingsFor (w : Surroundings) (a : Arguments) : Action (Except String Settings) := do
  match ← Settings.load w (a.text ["config"]) with
  | .error e => return .error e
  | .ok (s, _) =>
    let timeout := a.real ["t", "timeout"] (-1)
    let s := if 0 ≤ timeout then { s with timeout } else s
    let seed := a.text ["seed"]
    let s := if seed ≠ "" then { s with seed } else s
    return Settings.validated (if a.switch ["stats"] then { s with stats := true } else s)

def seedFor (s : Settings) : Action (Except String Seed) :=
  if s.seed = "" then return .ok [] else Seed.load s.seed

inductive Task where
  | finish (o : Outcome)
  | converse (s : Settings) (seed : Seed)
  | watch (r : Runner) (path : String)

def prepare (w : Surroundings) (a : Arguments) (task : Settings → Seed → Action Task) : Action Task := do
  match ← settingsFor w a with
  | .error e => return .finish (.refused e)
  | .ok s =>
    match ← seedFor s with
    | .error e => return .finish (.refused e)
    | .ok seed => task s seed

def runTask (w : Surroundings) (arguments : List String) : Action Task := do
  match Arguments.read flags arguments with
  | .error e => return .finish (flagOutcome help e)
  | .ok a =>
    if a.switch ["h", "help"] then return .finish { out := help }
    if a.switch ["V", "version"] then return .finish { out := "koto version " ++ version ++ "\n" }
    prepare w a fun settings seed => do
      let r : Runner := { settings, seed, recover := a.switch ["recover"], random := w.random }
      let code := a.text ["e", "eval"]
      if code ≠ "" then return .finish (r.runSource "<eval>" (Text.ofString code))
      else if a.switch ["check"] then
        if a.rest.isEmpty then return .finish (.refused "--check requires at least one file")
        return .finish (← r.check false a.rest)
      else
        match a.rest with
        | path :: _ =>
          if a.switch ["watch"] then return .watch r path
          return .finish (← r.runFile path)
        | [] =>
          if a.switch ["watch"] then return .finish (.refused "--watch requires a file")
          if w.interactive then return .converse settings seed
          return .finish (r.runSource "<stdin>" (← Action.all))

def replTask (w : Surroundings) (arguments : List String) : Action Task := do
  match Arguments.read flags arguments with
  | .error e => return .finish (flagOutcome (Flag.explainAll "koto repl" flags) e)
  | .ok a => prepare w a fun s seed => return .converse s seed

def emitted (d : Dialect) (indent : Nat) (name : String) (t : Text) : Outcome :=
  let p := Parse.strict t
  match p.diagnostics name with
  | e :: _ => { exit := Outcome.program, err := Runner.reports [e] }
  | [] => { out := d.emit indent p.program.body }

def firstGiven (texts : List String) : String := (texts.find? (· ≠ "")).getD ""

def emit (w : Surroundings) (arguments : List String) : Action Outcome := do
  match Arguments.read emitFlags arguments with
  | .error e => return flagOutcome emitHelp e
  | .ok a =>
    match ← Settings.load w (a.text ["config"]) with
    | .error e => return .refused e
    | .ok (s, _) =>
      let name := firstGiven [a.text ["d"], a.text ["dialect"], s.dialect]
      match Dialect.ofName? name with
      | none => return .refused (Dialect.unknown name)
      | some d =>
        let given := a.whole ["indent"] (-1)
        let indent := (if 0 ≤ given then given else s.indent).toNat
        match a.rest with
        | [] => return emitted d indent "<stdin>" (← Action.all)
        | [path] =>
          match ← Action.read path with
          | .ok t => return emitted d indent path t
          | .error e => return { exit := Outcome.misuse, err := Runner.unreadable path e }
        | _ => return { exit := Outcome.misuse, err := emitHelp }

def task (w : Surroundings) : List String → Action Task
  | "emit" :: rest => do return .finish (← emit w rest)
  | "repl" :: rest => replTask w rest
  | arguments => runTask w arguments

def conversed (w : Surroundings) (s : Settings) (seed : Seed) : Action Outcome := do
  match ← Dialogue.opened w s seed with
  | .error e => return .refused e.message
  | .ok d =>
    let (_, out) := d.run (History.lines (← Action.all))
    return { out := Dialogue.banner version ++ out }

def run (w : Surroundings) (arguments : List String) : Action Outcome := do
  match ← task w arguments with
  | .finish o => return o
  | .converse s seed => conversed w s seed
  | .watch r path => r.watchOnce w path

end Terakoya.Command
