import Terakoya.Text.Blank
import Terakoya.Text.Normal

/-! Whether a fragment typed so far is complete, or its next line is to be waited for. -/
namespace Terakoya.Pending

inductive Place where
  | code | comment | literal
  /-- Behind a backslash in a literal. -/
  | escape
  deriving DecidableEq, Repr

structure Count where
  place : Place := .code
  depth : Int := 0
  deriving DecidableEq, Repr

def isOpening (c : Char) : Bool := c = '(' || c = '[' || c = '\x7b'

def isClosing (c : Char) : Bool := c = ')' || c = ']' || c = '\x7d'

/-- Counts a character. A comment and a text literal end with the line at the latest. -/
def step (n : Count) (c : Char) : Count :=
  match n.place with
  | .comment => if c = '\n' then { n with place := .code } else n
  | .escape => { n with place := .literal }
  | .literal =>
    if c = '\\' then { n with place := .escape }
    else if c = '"' || c = '\n' then { n with place := .code }
    else n
  | .code =>
    if c = '"' then { n with place := .literal }
    else if c = '#' then { n with place := .comment }
    else if isOpening c then { n with depth := n.depth + 1 }
    else if isClosing c then { n with depth := n.depth - 1 }
    else n

def lastLine (t : Text) : Text := (t.reverse.takeWhile (· ≠ .newline)).reverse

def isQuestion (line : Text) : Bool :=
  (Text.ofString ">>>").isPrefixOf (line.dropWhile fun g => Text.isSpace g.toChar)

/-- Whether the next line belongs to the fragment too: a bracket is open, or an expected value has
still to come. -/
def needsMore (t : Text) : Bool :=
  let t := Text.trimmed (Text.normalize t)
  if t.isEmpty then false
  else isQuestion (lastLine t) || 0 < ((t.map Glyph.toChar).foldl step {}).depth

end Terakoya.Pending
