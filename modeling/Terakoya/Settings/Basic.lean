import Terakoya.Emit.Dialect
import Terakoya.Files.Path
import Terakoya.Number.Shortest
import Terakoya.Seed.Read

/-! Settings of runs, of written-out programs and of sessions. -/
namespace Terakoya

structure Settings where
  directory : String := ""
  /-- How many seconds a run may take; zero for no limit. -/
  timeout : Float := 30
  maxDepth : Int := 10000
  stats : Bool := false
  dialect : String := "js"
  indent : Int := 0
  seed : String := ""
  history : String := "~/.koto_history"

namespace Settings

/-- The whole part of a float as a number of 64 bits; the least one if it does not fit. -/
def wholePart (x : Float) : Int :=
  match Number.truncate? x with
  | some n => if Number.leastSigned ≤ n && n ≤ Number.greatestSigned then n else Number.leastSigned
  | none => Number.leastSigned

def budget (s : Settings) : Int := wholePart (s.timeout * 1000000000.0)

inductive Problem where
  | timeout (x : Float)
  | maxDepth (n : Int)
  | dialect (name : String)
  | indent (n : Int)
  | seed (path : String)

namespace Problem

def message : Problem → String
  | timeout x => "run.timeout: " ++ Number.realText x ++ " (must be 0 or more seconds)"
  | maxDepth n => "run.max_depth: " ++ toString n ++ " (must be at least 1)"
  | dialect name => "emit.dialect: " ++ Dialect.unknown name
  | indent n => "emit.indent: " ++ toString n ++ " (must be 0 or more)"
  | seed path => "seed: " ++ path ++ " (must be a .yaml, .yml or .csv file)"

end Problem

def problems (s : Settings) : List Problem :=
  (if s.timeout < 0 then [.timeout s.timeout] else []) ++
    (if s.maxDepth < 1 then [.maxDepth s.maxDepth] else []) ++
    (if (Dialect.ofName? s.dialect).isNone then [.dialect s.dialect] else []) ++
    (if s.indent < 0 then [.indent s.indent] else []) ++
    (if s.seed ≠ "" && (Seed.Format.ofPath? s.seed).isNone then [.seed s.seed] else [])

def validated (s : Settings) : Except String Settings :=
  match s.problems with
  | [] => .ok s
  | ps => .error (String.join ("config validation failed:" :: ps.map ("\n  - " ++ ·.message)))

end Settings
end Terakoya
