import Terakoya.Diagnostic.Basic

/-! Diagnostics as JSON text. Characters that are unsafe inside a web page are escaped. -/
namespace Terakoya
namespace Json

def hexDigit (n : Nat) : Char := "0123456789abcdef".toList.getD n '0'

/-- A character as a backslash, `u` and four hexadecimal digits. -/
def unicodeEscape (n : Nat) : String :=
  String.ofList ['\\', 'u', hexDigit (n / 4096 % 16), hexDigit (n / 256 % 16), hexDigit (n / 16 % 16),
    hexDigit (n % 16)]

def escape (c : Char) : String :=
  match c with
  | '"' => "\\\""
  | '\\' => "\\\\"
  | '\x08' => "\\b"
  | '\x0c' => "\\f"
  | '\n' => "\\n"
  | '\r' => "\\r"
  | '\t' => "\\t"
  | _ =>
    if c.toNat < 32 || c = '<' || c = '>' || c = '&' || c = '\u2028' || c = '\u2029' then
      unicodeEscape c.toNat
    else String.singleton c

def ofString (s : String) : String := "\"" ++ String.join (s.toList.map escape) ++ "\""

def ofText (t : Text) : String :=
  "\"" ++ String.join (t.map fun
    | .char c => escape c
    | .stray _ => unicodeEscape 0xFFFD) ++ "\""

def ofList (items : List String) : String := "[" ++ ",".intercalate items ++ "]"

def ofFields (fields : List (String × String)) : String :=
  "\x7b" ++ ",".intercalate (fields.map fun (key, value) => ofString key ++ ":" ++ value) ++ "\x7d"

mutual
def ofDatum : Datum → String
  | .text s => ofString s
  | .int n => toString n
  | .bool b => if b then "true" else "false"
  | .null => "null"
  | .list items => ofList (ofItems items)

def ofItems : List Datum → List String
  | [] => []
  | d :: rest => ofDatum d :: ofItems rest
end

def ofData (data : Data) : String :=
  ofFields ((data.mergeSort fun a b => a.1 ≤ b.1).map fun (name, d) => (name, ofDatum d))

end Json

namespace Diagnostic

def optionalField (present : Bool) (name value : String) : List (String × String) :=
  if present then [(name, value)] else []

def toJson (d : Diagnostic) : String :=
  Json.ofFields <|
    [("class", Json.ofString d.kind.name), ("code", Json.ofString d.code),
      ("message", Json.ofString d.message)] ++
    optionalField (!d.hints.isEmpty) "hints" (Json.ofList (d.hints.map Json.ofString)) ++
    [("line", toString d.location.line), ("column", toString d.location.column),
      ("offset", toString d.location.offset)] ++
    optionalField (!d.location.lineText.isEmpty) "line_text" (Json.ofText d.location.lineText) ++
    optionalField (d.file ≠ "") "file" (Json.ofString d.file) ++
    optionalField (!d.data.isEmpty) "data" (Json.ofData d.data) ++
    optionalField (!d.trace.isEmpty) "trace" (Json.ofList (d.trace.map Json.ofString))

end Diagnostic
end Terakoya
