import Terakoya.Diagnostic.Catalog
import Terakoya.Diagnostic.Closest
import Terakoya.Source.Location

/-! A diagnostic: what went wrong, where, and with which calls active. -/
namespace Terakoya

structure Diagnostic where
  kind : Kind
  code : String := ""
  message : String
  hints : List String := []
  location : Location := .none
  file : String := ""
  data : Data := []
  trace : List String := []
  actual : Option String := none

namespace Diagnostic

/-- The diagnostic of a code. A code outside the catalog shows the datum `message`, or itself. -/
def ofCode (code : String) (data : Option Data) : Diagnostic :=
  match Catalog.entry? code with
  | some entry =>
    { kind := entry.kind, code, message := entry.message.render data, hints := entry.hints,
      data := data.getD [] }
  | none =>
    let message := match (data.getD []).lookup "message" with
      | some (.text s) => s
      | _ => code
    { kind := .type, code, message, data := data.getD [] }

def undefinedName (code name : String) (known : List String) : Diagnostic :=
  let d := ofCode code (some [("Name", .text name)])
  match Closest.find? name known with
  | some near => { d with hints := d.hints ++ ["did you mean `" ++ near ++ "`?"] }
  | none => d

def isParse (d : Diagnostic) : Bool := d.kind.name = "parse"

def isLike (d : Diagnostic) (kind code : String) : Bool :=
  d.kind.name = kind && (code = "" || d.code = code)

def place (l : Location) : String := s!"line {l.line}, column {l.column}"

def render (d : Diagnostic) : String :=
  (if d.file = "" then "" else d.file ++ ": ") ++
    (if d.location.line = 0 then "" else place d.location ++ ": ") ++
    d.message ++ String.join (d.hints.map ("\n  " ++ ·))

def brief (d : Diagnostic) : String :=
  if d.location.line = 0 then d.message else place d.location ++ ": " ++ d.message

def heading (d : Diagnostic) : String :=
  (if d.isParse then "Parser error" else "Runtime error") ++
    if d.file ≠ "" then
      ":\n  in: " ++ d.file ++
        (if d.location.line = 0 then "" else "\n  at: " ++ place d.location) ++ "\n  "
    else if d.location.line ≠ 0 then ": " ++ place d.location ++ "\n  "
    else ":\n  "

def hintLines : List String → List String
  | [] => []
  | first :: rest => ("\n  hint: " ++ first) :: rest.map ("\n    or: " ++ ·)

def pretty (d : Diagnostic) : String :=
  d.heading ++ d.message ++ String.join (hintLines d.hints) ++
    String.join (d.trace.map ("\n  in " ++ ·))

end Diagnostic
end Terakoya
