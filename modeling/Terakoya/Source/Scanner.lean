import Terakoya.Source.Cursor
import Terakoya.Text.Normal

/-! A cursor driven step by step over one normalized text, with places to come back to. -/
namespace Terakoya

structure Scanner where
  input : Text
  cursor : Cursor
  saved : List (String × Cursor)

inductive Scan where
  | peek | advance | spaces | blank | atEnd | atStatementEnd
  | looksAt (word : String)
  | consume (word : String)
  | consumeAny (words : List String)
  | skipLine (offset : Int)
  | restOfLine | digits | quoted | identifier | name | infixOperator
  | save (slot : String)
  | restore (slot : String)

inductive Sight where
  | nothing
  | char (c : Char)
  | flag (b : Bool)
  | text (t : Text)
  | reading (s : String) (ok : Bool)

namespace Scanner

def ofText (t : Text) : Scanner :=
  let input := Text.normalize t
  ⟨input, .start input, []⟩

def goto (s : Scanner) (c : Cursor) : Scanner := { s with cursor := c }

/-- The place kept in a slot; a slot never used holds the beginning. -/
def place (s : Scanner) (slot : String) : Cursor := (s.saved.lookup slot).getD (.start s.input)

def step (s : Scanner) : Scan → Sight × Scanner
  | .peek => (.char s.cursor.peek, s)
  | .advance => (.nothing, s.goto s.cursor.advance)
  | .spaces => (.nothing, s.goto s.cursor.skipSpaces)
  | .blank => (.nothing, s.goto s.cursor.skipBlank)
  | .atEnd => (.flag s.cursor.atEnd, s)
  | .atStatementEnd => (.flag s.cursor.atStatementEnd, s)
  | .looksAt word => (.flag (s.cursor.looksAt word), s)
  | .consume word =>
    match s.cursor.consume? word with
    | some next => (.flag true, s.goto next)
    | none => (.flag false, s)
  | .consumeAny words =>
    match s.cursor.consumeAny? words with
    | some (word, next) => (.reading word true, s.goto next)
    | none => (.reading "" false, s)
  | .skipLine offset => (.nothing, s.goto (Cursor.lineAfter s.input offset))
  | .restOfLine => (.text s.cursor.restOfLine, s)
  | .digits =>
    let (digits, next) := s.cursor.readDigits
    (.reading digits (digits ≠ ""), s.goto next)
  | .quoted =>
    let quote := s.cursor.readText
    (.reading (String.ofList quote.content) quote.closed, s.goto quote.next)
  | .identifier =>
    let (name, next) := s.cursor.readIdentifier
    (.text (Text.ofString name), s.goto next)
  | .name =>
    let (name, next) := s.cursor.readName
    (.text name, s.goto next)
  | .infixOperator => (.flag (Cursor.isInfixOperator s.cursor.peek), s)
  | .save slot => (.nothing, { s with saved := (slot, s.cursor) :: s.saved })
  | .restore slot => (.nothing, s.goto (s.place slot))

end Scanner
end Terakoya
