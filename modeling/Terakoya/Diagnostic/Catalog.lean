/-! The catalog of diagnostics: for each code its kind, its message and its hints, as templates. -/
namespace Terakoya

inductive Kind where
  | parse | type | arity | undefined | index | loop | timeout | stopped | assertion | state
  | other (name : String)
  deriving DecidableEq, Repr

namespace Kind

def name : Kind → String
  | parse => "parse"
  | type => "type"
  | arity => "arity"
  | undefined => "undefined"
  | index => "index"
  | loop => "loop"
  | timeout => "timeout"
  | stopped => "stopped"
  | assertion => "assertion"
  | state => "state"
  | other name => name

end Kind

inductive Datum where
  | text (s : String)
  | int (n : Int)
  | bool (b : Bool)
  | null
  | list (items : List Datum)
  deriving Repr, Inhabited

namespace Datum

mutual
def showItem : Datum → String
  | text s => s
  | int n => toString n
  | bool b => if b then "true" else "false"
  | null => "<nil>"
  | list items => "[" ++ " ".intercalate (showItems items) ++ "]"

def showItems : List Datum → List String
  | [] => []
  | d :: rest => showItem d :: showItems rest
end

def render : Datum → String
  | null => "<no value>"
  | d => d.showItem

end Datum

abbrev Data := List (String × Datum)

inductive Piece where
  | words (s : String)
  | slot (name : String)
  deriving DecidableEq, Repr

abbrev Template := List Piece

namespace Template

def fill (t : Template) (data : Data) : String :=
  String.join (t.map fun
    | .words s => s
    | .slot name => ((data.lookup name).getD .null).render)

def source (t : Template) : String :=
  String.join (t.map fun
    | .words s => s
    | .slot name => "\x7b\x7b." ++ name ++ "\x7d\x7d")

def render (t : Template) : Option Data → String
  | none => t.source
  | some data => t.fill data

end Template

structure Entry where
  kind : Kind
  message : Template
  hints : List String := []

namespace Catalog

def entry? : String → Option Entry
  | "PARSE-0001" => some
    { kind := .parse
      message := [.words "expected ", .slot "Expected", .words ", got '", .slot "Got", .words "'"] }
  | "PARSE-0002" => some { kind := .parse, message := [.words "unrecognized statement"] }
  | "PARSE-0003" => some
    { kind := .parse
      message := [.words "infix operators are not supported: '", .slot "Operator", .words "'"]
      hints := ["use a function that returns the result instead"] }
  | "PARSE-0004" => some
    { kind := .parse, message := [.words "fractional numbers are not supported"] }
  | "PARSE-0005" => some
    { kind := .parse
      message := [.words "unclosed text literal"]
      hints := ["close the text with \""] }
  | "PARSE-0006" => some
    { kind := .parse
      message := [.words "duplicate parameter name '", .slot "Name", .words "'"] }
  | "PARSE-0007" => some
    { kind := .parse
      message := [.words "unclosed block"]
      hints := ["add a closing \x7d"] }
  | "PARSE-0008" => some
    { kind := .parse
      message := [.words "unexpected text after statement: '", .slot "Got", .words "'"] }
  | "PARSE-0009" => some
    { kind := .parse
      message := [.words "text index ", .slot "Index", .words " out of range for a text of length ",
        .slot "Length"] }
  | "PARSE-0010" => some
    { kind := .parse
      message := [.words "parameter name '", .slot "Name",
        .words "' cannot be referenced in the body"]
      hints := ["names end at particles and keywords such as が, を, 回 and 以上; rename the parameter"] }
  | "UNDEF-0001" => some
    { kind := .undefined, message := [.words "undefined name: ", .slot "Name"] }
  | "UNDEF-0002" => some
    { kind := .undefined, message := [.words "undefined function: ", .slot "Name"] }
  | "ARITY-0001" => some
    { kind := .arity
      message := [.words "`", .slot "Function", .words "` expects ", .slot "Want",
        .words " argument(s), got ", .slot "Got"] }
  | "TYPE-0001" => some
    { kind := .type
      message := [.words "cannot increment ", .slot "Got", .words ", it is not an integer"] }
  | "TYPE-0002" => some
    { kind := .type
      message := [.words "cannot decrement ", .slot "Got", .words ", it is not an integer"] }
  | "TYPE-0003" => some
    { kind := .type
      message := [.words "cannot negate ", .slot "Got", .words ", it is not an integer"] }
  | "TYPE-0004" => some
    { kind := .type
      message := [.words "cannot take the length of ", .slot "Got",
        .words ", it is not a sequence"] }
  | "TYPE-0005" => some
    { kind := .type
      message := [.words "cannot index ", .slot "Got", .words ", it is not a sequence"] }
  | "TYPE-0006" => some
    { kind := .type, message := [.words "index must be an integer, got ", .slot "Got"] }
  | "TYPE-0007" => some
    { kind := .type
      message := [.words "cannot append to ", .slot "Got", .words ", it is not a sequence"] }
  | "TYPE-0008" => some
    { kind := .type, message := [.words "cannot call ", .slot "Got", .words " as a function"] }
  | "TYPE-0009" => some
    { kind := .type
      message := [.words "cannot compare ", .slot "Left", .words " with ", .slot "Right",
        .words " using ", .slot "Operator"]
      hints := ["only integers can be ordered"] }
  | "INDEX-0001" => some
    { kind := .index
      message := [.words "index ", .slot "Index", .words " out of range [0, ", .slot "Max",
        .words "]"] }
  | "INDEX-0002" => some
    { kind := .index
      message := [.words "index ", .slot "Index", .words " out of range: the sequence is empty"] }
  | "LOOP-0001" => some
    { kind := .loop
      message := [.words "repeat count must not be negative, got ", .slot "Count"] }
  | "LOOP-0002" => some
    { kind := .loop
      message := [.words "repeat count must be an integer or ?, got ", .slot "Got"] }
  | "TIME-0001" => some
    { kind := .timeout
      message := [.words "execution timed out after ", .slot "Budget"]
      hints := ["check that every unbounded loop can reach くり返しを抜ける"] }
  | "STOP-0001" => some { kind := .stopped, message := [.words "execution stopped"] }
  | "ASSERT-0001" => some
    { kind := .assertion
      message := [.words "doctest failed: expected ", .slot "Expected", .words ", got ",
        .slot "Actual"] }
  | "STATE-0001" => some
    { kind := .state, message := [.words "が答え used outside of a function"] }
  | "STATE-0002" => some
    { kind := .state, message := [.words "くり返しを抜ける used outside of a loop"] }
  | "STATE-0003" => some
    { kind := .state
      message := [.words "call depth exceeded ", .slot "Max", .words " in ", .slot "Function"]
      hints := ["check that the recursion reaches a case that answers without calling itself"] }
  | _ => none

end Catalog
end Terakoya
