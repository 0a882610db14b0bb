import Terakoya.Text.Glyph
import Terakoya.Text.Letter
import Terakoya.Text.Blank

/-! A place in a text, and what can be read from there. Offsets count bytes. -/
namespace Terakoya

structure Cursor where
  pos : Nat
  rest : Text
  deriving DecidableEq, Repr

namespace Cursor

def start (t : Text) : Cursor := ⟨0, t⟩

def atEnd (c : Cursor) : Bool := c.rest.isEmpty

/-- The next character, or the null character at the end. -/
def peek (c : Cursor) : Char :=
  match c.rest with
  | [] => '\x00'
  | g :: _ => g.toChar

def advance (c : Cursor) : Cursor :=
  match c.rest with
  | [] => c
  | g :: t => ⟨c.pos + g.width, t⟩

def dropWord : List Char → Text → Option Text
  | [], t => some t
  | w :: word, .char c :: t => if w = c then dropWord word t else none
  | _ :: _, _ => none

def looksAt (word : String) (c : Cursor) : Bool := (dropWord word.toList c.rest).isSome

def consume? (word : String) (c : Cursor) : Option Cursor :=
  (dropWord word.toList c.rest).map (⟨c.pos + word.utf8ByteSize, ·⟩)

def consumeAny? (c : Cursor) : List String → Option (String × Cursor)
  | [] => none
  | word :: words =>
    match c.consume? word with
    | some next => some (word, next)
    | none => c.consumeAny? words

/-- Whether a character is skipped between words; a newline only where `lines` is set. -/
def isBlank (lines : Bool) (c : Char) : Bool :=
  c = ' ' || c = '\t' || c = '\r' || (lines && c = '\n')

/-- Skips blanks and comments from `pos` on. A comment runs from `#` up to the end of its line. -/
def skipFrom (lines : Bool) (inComment : Bool) (pos : Nat) : Text → Cursor
  | [] => ⟨pos, []⟩
  | g :: t =>
    if g.is '\n' then
      if lines then skipFrom lines false (pos + g.width) t else ⟨pos, g :: t⟩
    else if inComment || g.is '#' then skipFrom lines true (pos + g.width) t
    else if isBlank lines g.toChar then skipFrom lines false (pos + g.width) t
    else ⟨pos, g :: t⟩

/-- Skips spaces, tabs, carriage returns and a comment, up to the end of the line. -/
def skipSpaces (c : Cursor) : Cursor := skipFrom false false c.pos c.rest

def skipBlank (c : Cursor) : Cursor := skipFrom true false c.pos c.rest

/-- Whether only spaces or a comment stand before a newline, a closing brace or the end. -/
def atStatementEnd (c : Cursor) : Bool :=
  match c.skipSpaces.rest with
  | [] => true
  | g :: _ => g.is '\n' || g.is '}'

def restOfLine (c : Cursor) : Text :=
  Text.trimRight (fun g => isBlank false g.toChar) (Text.firstLine c.rest)

def readWhile (p : Glyph → Bool) (pos : Nat) : Text → List Char × Cursor
  | [] => ([], ⟨pos, []⟩)
  | g :: t =>
    if p g then
      let (run, next) := readWhile p (pos + g.width) t
      (g.toChar :: run, next)
    else ([], ⟨pos, g :: t⟩)

def isDigit (g : Glyph) : Bool := '0' ≤ g.toChar && g.toChar ≤ '9'

def readDigits (c : Cursor) : String × Cursor :=
  let (run, next) := readWhile isDigit c.pos c.rest
  (String.ofList run, next)

structure Quote where
  content : List Char
  closed : Bool
  next : Cursor

def Quote.push (c : Char) (q : Quote) : Quote := { q with content := c :: q.content }

def unescape? : Char → Option Char
  | 'n' => some '\n'
  | 't' => some '\t'
  | '\\' => some '\\'
  | '"' => some '"'
  | _ => none

/-- Reads the inside of a quoted text from `pos` on, up to its closing quote or the end of the
line. A backslash that begins no escape is kept, together with what follows it. -/
def readQuoted (pos : Nat) : Text → Quote
  | [] => ⟨[], false, ⟨pos, []⟩⟩
  | .char '"' :: t => ⟨[], true, ⟨pos + 1, t⟩⟩
  | .char '\n' :: t => ⟨[], false, ⟨pos, .char '\n' :: t⟩⟩
  | .char '\\' :: [] => ⟨['\\'], false, ⟨pos + 1, []⟩⟩
  | .char '\\' :: g :: t =>
    match unescape? g.toChar with
    | some c => (readQuoted (pos + 1 + g.width) t).push c
    | none =>
      if g.is '\n' || g.is '\x00' then (readQuoted (pos + 1) (g :: t)).push '\\'
      else ((readQuoted (pos + 1 + g.width) t).push g.toChar).push '\\'
  | g :: t => (readQuoted (pos + g.width) t).push g.toChar

/-- Reads a quoted text; the first character is taken for the opening quote. -/
def readText (c : Cursor) : Quote := readQuoted c.advance.pos c.advance.rest

/-- The words at which a name ends, even between letters. -/
def particles : List String :=
  ["の末尾", "ならば", "とする", "くり返", "繰り返", "以上", "以下", "より", "未満", "以外", "が", "を", "回"]

/-- Whether a name ends here. A particle of one character does not end a name at its first one, so
that 回数 is a name. -/
def atParticle (first : Bool) (t : Text) : Bool :=
  particles.any fun p => !(first && p.length == 1) && (dropWord p.toList t).isSome

def isNameLetter (c : Char) : Bool := c = '_' || Text.isLetter c

def readLetters (first : Bool) (pos : Nat) : Text → List Char × Cursor
  | [] => ([], ⟨pos, []⟩)
  | g :: t =>
    if isNameLetter g.toChar && !atParticle first (g :: t) then
      let (run, next) := readLetters false (pos + g.width) t
      (g.toChar :: run, next)
    else ([], ⟨pos, g :: t⟩)

/-- A name: letters, then digits. It is empty where no name begins. -/
def readIdentifier (c : Cursor) : String × Cursor :=
  match readLetters true c.pos c.rest with
  | ([], _) => ("", c)
  | (letters, next) =>
    let (digits, last) := readWhile isDigit next.pos next.rest
    (String.ofList (letters ++ digits), last)

def bindingStops : List String := ["に対し", "を増やす", "を減らす", "の末尾に"]

def bindingPunctuation : List Char :=
  [',', '、', '\x7b', '\x7d', '(', ')', '[', ']', '=', '"', '|', '#']

def endsBinding (t : Text) : Bool :=
  match t with
  | [] => true
  | g :: _ =>
    Text.isSpace g.toChar || bindingPunctuation.contains g.toChar ||
      bindingStops.any fun w => (dropWord w.toList t).isSome

/-- The name of a parameter: everything up to white space, punctuation or a stop word. -/
def readBinding (pos : Nat) : Text → Text × Cursor
  | [] => ([], ⟨pos, []⟩)
  | g :: t =>
    if endsBinding (g :: t) then ([], ⟨pos, g :: t⟩)
    else
      let (name, next) := readBinding (pos + g.width) t
      (g :: name, next)

def readName (c : Cursor) : Text × Cursor := readBinding c.pos c.rest

def isInfixOperator (c : Char) : Bool := c = '+' || c = '-' || c = '*' || c = '/' || c = '%'

/-- Moves over at least `n` bytes and then past the next newline. -/
def skipLineFrom (n pos : Nat) : Text → Cursor
  | [] => ⟨pos, []⟩
  | g :: t =>
    if n = 0 ∧ g.is '\n' then ⟨pos + g.width, t⟩
    else skipLineFrom (n - g.width) (pos + g.width) t

def lineAfter (t : Text) (offset : Int) : Cursor := skipLineFrom offset.toNat 0 t

end Cursor
end Terakoya
