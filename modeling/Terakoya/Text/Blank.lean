import Terakoya.Text.Glyph

/-! White space of every script (Unicode 17.0). -/
namespace Terakoya.Text

def isSpace (c : Char) : Bool :=
  c = ' ' || ('\t' ≤ c && c ≤ '\x0d') || c = '\u0085' || c = '\u00a0' || c = '\u1680' ||
    ('\u2000' ≤ c && c ≤ '\u200a') || c = '\u2028' || c = '\u2029' || c = '\u202f' ||
    c = '\u205f' || c = '\u3000'

def trimChars (cs : List Char) : List Char :=
  ((cs.dropWhile isSpace).reverse.dropWhile isSpace).reverse

def trim (s : String) : String := String.ofList (trimChars s.toList)

def trimmed (t : Text) : Text :=
  let blank (g : Glyph) : Bool := isSpace g.toChar
  Text.trimRight blank (t.dropWhile blank)

def wordsAfter : List Char → List Char → List String
  | [], [] => []
  | word, [] => [String.ofList word.reverse]
  | word, c :: rest =>
    if isSpace c then
      if word.isEmpty then wordsAfter [] rest else String.ofList word.reverse :: wordsAfter [] rest
    else wordsAfter (c :: word) rest

def words (s : String) : List String := wordsAfter [] s.toList

end Terakoya.Text
