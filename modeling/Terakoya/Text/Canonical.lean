import Terakoya.Text.Glyph
import Terakoya.Text.CombiningClass
import Terakoya.Text.Decomposition
import Terakoya.Text.Composition
import Terakoya.Text.MarkCount

/-! Canonical composition (form C) of texts in the stream-safe format: a run of more than thirty
marks is broken by a joiner, then characters are taken apart, marks are put in order, and what
can be joined is joined. Stray bytes are starters that join with nothing. -/
namespace Terakoya.Text

/-! Hangul syllables are taken apart and joined by arithmetic. -/
namespace Hangul

def isSyllable (n : Nat) : Bool := 0xAC00 ≤ n && n ≤ 0xD7A3

def isLead (n : Nat) : Bool := 0x1100 ≤ n && n ≤ 0x1112

def isVowel (n : Nat) : Bool := 0x1161 ≤ n && n ≤ 0x1175

def isTail (n : Nat) : Bool := 0x11A8 ≤ n && n ≤ 0x11C2

def isOpen (n : Nat) : Bool := isSyllable n && (n - 0xAC00) % 28 == 0

def decompose (n : Nat) : List Char :=
  let i := n - 0xAC00
  let lead := Char.ofNat (0x1100 + i / 588)
  let vowel := Char.ofNat (0x1161 + i % 588 / 28)
  if i % 28 = 0 then [lead, vowel] else [lead, vowel, Char.ofNat (0x11A7 + i % 28)]

def compose? (a b : Nat) : Option Char :=
  if isLead a && isVowel b then
    some (Char.ofNat (0xAC00 + (a - 0x1100) * 588 + (b - 0x1161) * 28))
  else if isOpen a && isTail b then some (Char.ofNat (a + (b - 0x11A7)))
  else none

end Hangul

def decomposeChar (c : Char) : List Char :=
  if c.toNat < 0xC0 then [c]
  else if Hangul.isSyllable c.toNat then Hangul.decompose c.toNat
  else (decompositions.value? c.toNat).getD [c]

def composePair? (a b : Char) : Option Char :=
  match Hangul.compose? a.toNat b.toNat with
  | some c => some c
  | none => (paired ((composites.value? a.toNat).getD [])).lookup b

def glyphClass : Glyph → Nat
  | .char c => if c.toNat < 0x300 then 0 else combiningClass c
  | .stray _ => 0

def marks : Glyph → Nat × Nat
  | .stray _ => (0, 0)
  | .char c =>
    if c.toNat < 0xA8 then (0, 0)
    else if Hangul.isSyllable c.toNat then (0, if Hangul.isOpen c.toNat then 1 else 2)
    else markCounts c

def joiner : Glyph := .char '͏'

/-- The longest run of marks that is left alone. -/
def maxMarks : Nat := 30

/-- Puts a joiner before the mark that would make a run too long; `run` marks came before. -/
def streamSafe (run : Nat) : Text → Text
  | [] => []
  | g :: t =>
    match marks g with
    | (0, trailing) => g :: streamSafe trailing t
    | (leading, _) =>
      if maxMarks < run + leading then joiner :: g :: streamSafe leading t
      else g :: streamSafe (run + leading) t

def decomposeGlyph : Glyph → Text
  | .char c => (decomposeChar c).map .char
  | .stray b => [.stray b]

def decompose (t : Text) : Text := t.flatMap decomposeGlyph

/-- Puts a mark in front of the marks of its own or a higher class that follow; a starter stays
where it is. -/
def place (g : Glyph) : Text → Text
  | [] => [g]
  | h :: t =>
    if glyphClass h ≠ 0 ∧ glyphClass h < glyphClass g then h :: place g t else g :: h :: t

/-- Sorts each run of marks by class; marks of one class keep their order. -/
def reorder : Text → Text
  | [] => []
  | g :: t => place g (reorder t)

/-- Joins the marks that follow a starter with it. `skipped` holds the marks between that could
not be joined, the last one first. -/
def composeFrom (starter : Char) (skipped : List Char) : Text → Text
  | [] => .char starter :: skipped.reverse.map .char
  | .stray b :: t => .char starter :: (skipped.reverse.map .char ++ .stray b :: composeStart t)
  | .char c :: t =>
    let free := match skipped with
      | [] => true
      | last :: _ => glyphClass (.char last) < glyphClass (.char c)
    match if free then composePair? starter c else none with
    | some joined => composeFrom joined skipped t
    | none =>
      if glyphClass (.char c) = 0 then
        .char starter :: (skipped.reverse.map .char ++ composeFrom c [] t)
      else composeFrom starter (c :: skipped) t
where
  /-- Marks before the first starter stay as they are. -/
  composeStart : Text → Text
    | [] => []
    | .stray b :: t => .stray b :: composeStart t
    | .char c :: t => if glyphClass (.char c) = 0 then composeFrom c [] t else .char c :: composeStart t

def compose (t : Text) : Text := composeFrom.composeStart t

def canonical (t : Text) : Text := compose (reorder (decompose (streamSafe 0 t)))

end Terakoya.Text
