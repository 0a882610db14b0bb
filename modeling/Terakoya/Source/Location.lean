import Terakoya.Text.Glyph
import Terakoya.Text.Wide

/-! Where an offset lies: line, column and the text of the line. -/
namespace Terakoya

/-- A place in a text as it is shown: lines and columns count from one, columns count characters.
Line zero stands for no place. -/
structure Location where
  line : Nat
  column : Nat
  offset : Nat
  lineText : Text
  deriving DecidableEq, Repr

namespace Location

def none : Location := ⟨0, 0, 0, []⟩

/-- The glyphs that end at or before a byte offset, the bytes of the next glyph that lie before it,
and the rest. -/
def cut (offset : Nat) : Text → Text × Nat × Text
  | [] => ([], 0, [])
  | g :: t =>
    if g.width ≤ offset then
      let (before, partly, rest) := cut (offset - g.width) t
      (g :: before, partly, rest)
    else ([], offset, g :: t)

def slice (t : Text) (start stop : Nat) : Text := (cut (stop - start) (cut start t).2.2).1

def lastLine (t : Text) : Text := (t.reverse.takeWhile (· ≠ .newline)).reverse

/-- The place of a byte offset; an offset outside the text counts as its nearest end. An offset
inside a character is one column further for each byte of the character before it. -/
def ofOffset (t : Text) (offset : Int) : Location :=
  let o := min offset.toNat (Text.width t)
  let (before, partly, rest) := cut o t
  let lineStart := lastLine before
  { line := before.count .newline + 1
    column := lineStart.length + partly + 1
    offset := o
    lineText := Text.trimRight (Glyph.is '\r') (lineStart ++ Text.firstLine rest) }

def padding (c : Char) : String :=
  if c = '\t' then "\t" else if Text.isWide c then "  " else " "

def caret (l : Location) (margin : String) : String :=
  if l.line = 0 then ""
  else
    let pads := (l.lineText.take (l.column - 1)).map fun g => padding g.toChar
    margin ++ Text.toString l.lineText ++ "\n" ++ margin ++ String.join pads ++ "^"

end Location
end Terakoya
