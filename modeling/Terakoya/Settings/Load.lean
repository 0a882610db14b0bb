import Terakoya.Settings.Decode
import Terakoya.Settings.Interpolation

/-! Finding the file with the settings and reading it. -/
namespace Terakoya

structure Surroundings where
  directory : String
  home : Option String
  /-- The value of a variable, empty if it is not set. -/
  lookup : String → String
  interactive : Bool := false
  /-- The element that the i-th random pick takes among n. -/
  random : Nat → Nat → Nat := fun _ _ => 0

namespace Settings

def expandHome (home : Option String) (path : String) : String :=
  match home, path.toList with
  | some home, ['~'] => Path.join [home]
  | some home, '~' :: '/' :: rest => Path.join [home, "/" ++ String.ofList rest]
  | _, _ => path

/-- The file with the settings: the one asked for, the one that the variable `KOTO_CONFIG` names, one
in the working directory or one in the home directory. -/
def locate (w : Surroundings) (asked : String) : Action (Except String String) := do
  let there (path : String) : Action Bool := do return (← Action.exists? path).toBool
  if asked ≠ "" then
    if ← there asked then return .ok asked else return .error ("config file not found: " ++ asked)
  let named := w.lookup "KOTO_CONFIG"
  if named ≠ "" then
    if ← there named then return .ok named
    else return .error ("KOTO_CONFIG file not found: " ++ named)
  if ← there "koto.yaml" then return .ok "koto.yaml"
  match w.home with
  | none => return .ok ""
  | some home =>
    let path := Path.join [home, ".config", "koto", "koto.yaml"]
    if ← there path then return .ok path else return .ok ""

def ofFile (w : Surroundings) (path : String) (t : Text) : Except String Settings := do
  match ofText? (Interpolation.interpolate w.lookup t) {} with
  | none => .error "failed to parse config: yaml: the document is malformed"
  | some s =>
    let directory := Path.directory path
    let seed := if s.seed = "" || Path.isAbsolute s.seed then s.seed else Path.join [directory, s.seed]
    validated { s with directory, seed, history := expandHome w.home s.history }

def load (w : Surroundings) (asked : String) : Action (Except String (Settings × String)) := do
  match ← locate w asked with
  | .error e => return .error e
  | .ok "" =>
    let s : Settings := {}
    return .ok ({ s with history := expandHome w.home s.history }, "")
  | .ok path =>
    match ← Action.read path with
    | .error e => return .error ("failed to read config: " ++ e.message path)
    | .ok t =>
      let origin := Path.absolute w.directory path
      return (ofFile w origin t).map (·, origin)

end Settings
end Terakoya
