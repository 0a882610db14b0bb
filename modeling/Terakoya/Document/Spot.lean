import Terakoya.Text.Glyph

/-! A place in a YAML document: what is left to read, with the line and the column it begins at. -/
namespace Terakoya.Document

def isBreak (c : Char) : Bool :=
  c = '\n' || c = '\r' || c = '\u0085' || c = '\u2028' || c = '\u2029'

def isBlank (c : Char) : Bool := c = ' ' || c = '\t'

def atGap : List Char → Bool
  | [] => true
  | c :: _ => isBlank c || isBreak c

def atBreak : List Char → Bool
  | [] => true
  | c :: _ => isBreak c

def isAllowed (c : Char) : Bool :=
  c = '\t' || c = '\n' || c = '\r' || (' ' ≤ c && c ≤ '~') || c = '\u0085' ||
    ('\u00a0' ≤ c && c ≤ '\ufffd' && c ≠ '\ufeff') || '\uffff' < c

structure Spot where
  rest : List Char
  /-- Lines are counted from one. -/
  line : Nat := 1
  column : Nat := 0
  index : Nat := 0

namespace Spot

def skip (s : Spot) : Spot :=
  match s.rest with
  | [] => s
  | _ :: rest => { s with rest, column := s.column + 1, index := s.index + 1 }

def skipN : Nat → Spot → Spot
  | 0, s => s
  | n + 1, s => skipN n s.skip

/-- Passes the end of a line and gives what stands for it: a newline, but for the separators of
lines and paragraphs, which stand for themselves. -/
def readBreak (s : Spot) : List Char × Spot :=
  match s.rest with
  | '\r' :: '\n' :: rest => (['\n'], ⟨rest, s.line + 1, 0, s.index + 2⟩)
  | c :: rest =>
    if isBreak c then
      let kept := if c = '\u2028' || c = '\u2029' then c else '\n'
      ([kept], ⟨rest, s.line + 1, 0, s.index + 1⟩)
    else ([], s)
  | [] => ([], s)

def skipWhile (p : Char → Bool) (s : Spot) : Spot :=
  skipN (s.rest.takeWhile p).length s

def startsWithMark (mark : Char) (s : Spot) : Bool :=
  s.column = 0 &&
    match s.rest with
    | a :: b :: c :: after => a = mark && b = mark && c = mark && atGap after
    | _ => false

def atSeparator (s : Spot) : Bool := s.startsWithMark '-' || s.startsWithMark '.'

end Spot
end Terakoya.Document
