import Terakoya.Text.Glyph

/-! Records of fields between commas, one record a line. A field in double quotes may hold commas and
line breaks, and a quote in it is written twice. Empty lines are no records. -/
namespace Terakoya

inductive RecordFault where
  /-- A quote inside a field that does not begin with one. -/
  | bareQuote (start line column : Nat)
  /-- A quoted field that goes on after its quote, or never ends. -/
  | openQuote (start line column : Nat)
  | fieldCount (line : Nat)
  deriving DecidableEq, Repr

namespace RecordFault

def placed (start line column : Nat) (what : String) : String :=
  (if start ≠ line then s!"record on line {start}; " else "") ++
    s!"parse error on line {line}, column {column}: " ++ what

def message : RecordFault → String
  | bareQuote start line column => placed start line column "bare \" in non-quoted-field"
  | openQuote start line column => placed start line column "extraneous or missing \" in quoted-field"
  | fieldCount line => s!"record on line {line}: wrong number of fields"

end RecordFault

namespace Records

inductive Mode where
  | start | bare | quoted
  /-- Behind a quote that ends the field, unless another one follows. -/
  | closing
  deriving DecidableEq, Repr

structure Progress where
  /-- The records read, the last one first. -/
  records : List (List Text) := []
  /-- The fields of the record, the last one first. -/
  fields : List Text := []
  /-- The field being read, in reverse. -/
  field : Text := []
  mode : Mode := .start
  start : Nat := 1
  line : Nat := 1
  column : Nat := 1
  /-- Whether a line within quotes has just ended: the next one counts once something is on it. -/
  turned : Bool := false

def quote : Glyph := .char '"'
def comma : Glyph := .char ','

def endField (p : Progress) : Progress :=
  { p with fields := p.field.reverse :: p.fields, field := [], mode := .start }

/-- Ends the record. All records are as long as the first. -/
def endRecord (p : Progress) : Except RecordFault Progress :=
  let p := endField p
  let record := p.fields.reverse
  let fits : Bool := match p.records.getLast? with
    | some first => record.length = first.length
    | none => true
  if fits then .ok { p with records := record :: p.records, fields := [] }
  else .error (.fieldCount p.start)

def nextLine (p : Progress) : Progress :=
  { p with start := p.line + 1, line := p.line + 1, column := 1 }

def keep (p : Progress) (g : Glyph) (mode : Mode) : Progress :=
  { p with field := g :: p.field, mode, column := p.column + g.width }

def step (p : Progress) (g : Glyph) : Except RecordFault Progress :=
  let p := if p.turned then { p with line := p.line + 1, column := 1, turned := false } else p
  match p.mode with
  | .quoted =>
    if g = quote then .ok { p with mode := .closing, column := p.column + 1 }
    else .ok { keep p g .quoted with turned := g = .newline }
  | .closing =>
    if g = quote then .ok (keep p g .quoted)
    else if g = comma then .ok { endField p with column := p.column + 1 }
    else if g = .newline then (endRecord p).map nextLine
    else .error (.openQuote p.start p.line (p.column - 1))
  | mode =>
    if g = .newline then
      if mode = .start && p.fields.isEmpty then .ok (nextLine p) else (endRecord p).map nextLine
    else if g = comma then .ok { endField p with column := p.column + 1 }
    else if g = quote then
      if mode = .start then .ok { p with mode := .quoted, column := p.column + 1 }
      else .error (.bareQuote p.start p.line p.column)
    else .ok (keep p g .bare)

def finish (p : Progress) : Except RecordFault (List (List Text)) :=
  match p.mode with
  | .quoted => .error (.openQuote p.start p.line p.column)
  | .start => if p.fields.isEmpty then .ok p.records.reverse
    else (endRecord p).map (·.records.reverse)
  | _ => (endRecord p).map (·.records.reverse)

/-- A text whose lines end with a newline alone. A carriage return at the very end is dropped. -/
def plainLines : Text → Text
  | [] => []
  | .char '\r' :: rest =>
    match rest with
    | [] => []
    | g :: more => if g = .newline then plainLines (g :: more) else .char '\r' :: plainLines (g :: more)
  | g :: rest => g :: plainLines rest

def read (t : Text) : Except RecordFault (List (List Text)) := do
  finish (← (plainLines t).foldlM step {})

end Records
end Terakoya
