import Terakoya.Document.Content
import Terakoya.Settings.Basic

/-! Settings read from a document. What is not written, or written as nothing, keeps its value, and
unknown keys are passed over; a value of another kind than expected is refused. -/
namespace Terakoya.Settings

open Document

def sameKey : Node → Node → Bool
  | .scalar _ _ _ a, .scalar _ _ _ b => a = b
  | .reference _ a _, .reference _ b _ => a = b
  | .sequence _ _, .sequence _ _ => true
  | .mapping _ _, .mapping _ _ => true
  | _, _ => false

def hasRepeatedKey : List (Node × Node) → Bool
  | [] => false
  | (key, _) :: rest => rest.any (fun (other, _) => sameKey key other) || hasRepeatedKey rest

def followed : Node → Node
  | .reference _ _ target => followed target
  | n => n

def scalar? : Node → Option (Content × String)
  | .scalar _ tag plain s => (content? tag plain s).map (·, s)
  | _ => none

def float? (old : Float) (n : Node) : Option Float := do
  match ← scalar? n with
  | (.null, _) => return old
  | (.float x, _) => return x
  | (.int k, _) =>
    let x := Number.nearestDecimal k.natAbs 0
    return if k < 0 then -x else x
  | _ => none

def int? (old : Int) (n : Node) : Option Int := do
  match ← scalar? n with
  | (.null, _) => return old
  | (.int k, _) => if k ≤ Number.greatestSigned then return k else none
  | (.float x, _) => if x ≤ 9223372036854775808.0 then return wholePart x else none
  | _ => none

def bool? (old : Bool) (n : Node) : Option Bool := do
  match ← scalar? n with
  | (.null, _) => return old
  | (.bool b, _) => return b
  | (.text, s) =>
    if ["y", "Y", "yes", "Yes", "YES", "on", "On", "ON"].contains s then return true
    else if ["n", "N", "no", "No", "NO", "off", "Off", "OFF"].contains s then return false
    else none
  | _ => none

def string? (old : String) (n : Node) : Option String := do
  match ← scalar? n with
  | (.null, _) => return old
  | (_, s) => return s

def group (field : String → Node → Settings → Option Settings) (n : Node) (s : Settings) :
    Option Settings :=
  match n with
  | .mapping _ entries =>
    if hasRepeatedKey entries then none
    else
      entries.foldlM (fun s (key, value) => do
        match ← scalar? (followed key) with
        | (.null, _) => return s
        | (_, name) => field name (followed value) s) s
  | n =>
    match scalar? n with
    | some (.null, _) => some s
    | _ => none

def runField (name : String) (n : Node) (s : Settings) : Option Settings :=
  match name with
  | "timeout" => (float? s.timeout n).map fun timeout => { s with timeout }
  | "max_depth" => (int? s.maxDepth n).map fun maxDepth => { s with maxDepth }
  | "stats" => (bool? s.stats n).map fun stats => { s with stats }
  | _ => some s

def emitField (name : String) (n : Node) (s : Settings) : Option Settings :=
  match name with
  | "dialect" => (string? s.dialect n).map fun dialect => { s with dialect }
  | "indent" => (int? s.indent n).map fun indent => { s with indent }
  | _ => some s

def replField (name : String) (n : Node) (s : Settings) : Option Settings :=
  match name with
  | "history" => (string? s.history n).map fun history => { s with history }
  | _ => some s

def field (name : String) (n : Node) (s : Settings) : Option Settings :=
  match name with
  | "run" => group runField n s
  | "emit" => group emitField n s
  | "repl" => group replField n s
  | "seed" => (string? s.seed n).map fun seed => { s with seed }
  | _ => some s

def ofText? (t : Text) (s : Settings) : Option Settings :=
  match first t with
  | .absent => some s
  | .malformed => none
  | .root n => group field n s

end Terakoya.Settings
