import Terakoya.Document.Content
import Terakoya.Files.Action
import Terakoya.Seed.Basic
import Terakoya.Seed.Records
import Terakoya.Text.Blank
import Terakoya.Text.LowerCase

/-! Seeds read from files: a YAML mapping of names to values, or a table with names in its first
record and the values of each name below it. -/
namespace Terakoya

inductive ValueFault where
  | invalidInteger (line : Nat) (s : String)
  | unsupported (line : Nat) (s tag : String)
  | nestedMapping (line : Nat)

def ValueFault.message : ValueFault → String
  | .invalidInteger line s => s!"line {line}: invalid integer " ++ Text.quoted (Text.ofString s)
  | .unsupported line s tag =>
    s!"line {line}: unsupported value " ++ Text.quoted (Text.ofString s) ++ " (" ++ tag ++ ")"
  | .nestedMapping line => s!"line {line}: nested mappings are not supported"

inductive SeedFault where
  | malformed
  | notMapping (line : Nat)
  | value (key : String) (e : ValueFault)
  | records (e : RecordFault)
  | duplicateColumn (name : Text)
  /-- The table is a directory. -/
  | unreadable (e : FileFault) (path : String)

namespace SeedFault

def parseFailure (s : String) : String := "failed to parse seed data: " ++ s

def message : SeedFault → String
  | malformed => parseFailure "yaml: the document is malformed"
  | notMapping line => s!"line {line}: seed data must be a mapping of names to values"
  | value key e => key ++ ": " ++ e.message
  | records e => parseFailure e.message
  | duplicateColumn name => "duplicate column " ++ Text.quoted name
  | unreadable e path => parseFailure (e.message path)

end SeedFault

namespace SeedValue

def ofText (t : Text) : SeedValue := .text (Text.toString (Text.normalize t))

/-- A scalar: nothing, a whole number or a text. Whole numbers that are too large for other uses are
tagged as floats. -/
def ofScalar (line : Nat) (tag s : String) : Except ValueFault SeedValue :=
  let unsupported := Except.error (.unsupported line s tag)
  match tag with
  | "!!null" => .ok .null
  | "!!int" =>
    match Number.separated? s.toList with
    | some n => .ok (.int n)
    | none => .error (.invalidInteger line s)
  | "!!float" =>
    match Number.inBase? 10 s.toList with
    | some n => .ok (.int n)
    | none => unsupported
  | "!!str" => .ok (ofText (Text.ofString s))
  | _ => unsupported

mutual

def ofNode : Document.Node → Except ValueFault SeedValue
  | .reference _ _ target => ofNode target
  | .sequence _ items => (ofNodes items).map .list
  | .scalar line tag plain s => ofScalar line (Document.scalarTag tag plain s) s
  | .mapping line _ => .error (.nestedMapping line)

def ofNodes : List Document.Node → Except ValueFault (List SeedValue)
  | [] => .ok []
  | n :: rest =>
    match ofNode n with
    | .error e => .error e
    | .ok v => (ofNodes rest).map (v :: ·)

end

def ofCell (t : Text) : SeedValue :=
  let t := Text.trimmed t
  match Number.inBase? 10 (t.map Glyph.toChar) with
  | some n => .int n
  | none => ofText t

end SeedValue

namespace Seed

/-- A mapping of names to values; of a repeated name the last value counts. -/
def ofEntries : Seed → List (Document.Node × Document.Node) → Except SeedFault Seed
  | seed, [] => .ok seed
  | seed, (key, node) :: rest =>
    match SeedValue.ofNode node with
    | .error e => .error (.value key.keyText e)
    | .ok v => ofEntries (seed.set (Text.ofString key.keyText) v) rest

def ofDocument (t : Text) : Except SeedFault Seed :=
  match Document.first t with
  | .absent => .ok []
  | .malformed => .error .malformed
  | .root (.mapping _ entries) => ofEntries [] entries
  | .root n => .error (.notMapping n.line)

def ofColumns : Seed → List Text → (cells : Nat → List SeedValue) → (index : Nat) →
    Except SeedFault Seed
  | seed, [], _, _ => .ok seed
  | seed, name :: rest, cells, index =>
    let name := Text.trimmed name
    if seed.has name then .error (.duplicateColumn name)
    else ofColumns (seed.set name (.list (cells index))) rest cells (index + 1)

def ofTable (t : Text) : Except SeedFault Seed :=
  match Records.read t with
  | .error e => .error (.records e)
  | .ok [] => .ok []
  | .ok (header :: rows) =>
    ofColumns [] header (fun i => rows.filterMap fun row => (row[i]?).map SeedValue.ofCell) 0

inductive Format where
  | document | table

def Format.ofPath? (path : String) : Option Format :=
  match Text.lower (Path.extension path) with
  | ".yaml" | ".yml" => some .document
  | ".csv" => some .table
  | _ => none

def ofFile (path : String) (format : Format) (contents : Except FileFault Text) :
    Except SeedFault Seed :=
  match format, contents with
  | .document, .ok t => ofDocument t
  | .table, .ok t => ofTable t
  | .document, .error _ => .error .malformed
  | .table, .error e => .error (.unreadable e path)

def load (path : String) : Action (Except String Seed) := do
  let contents ← Action.read path
  match contents with
  | .error e =>
    if e ≠ .isDirectory then return .error ("failed to open seed data: " ++ e.message path)
  | .ok _ => pure ()
  match Format.ofPath? path with
  | none =>
    return .error (path ++ ": unsupported seed format " ++
      Text.quoted (Text.ofString (Path.extension path)) ++ " (want .yaml, .yml or .csv)")
  | some format =>
    match ofFile path format contents with
    | .ok s => return .ok s
    | .error e => return .error (path ++ ": " ++ e.message)

end Seed
end Terakoya
