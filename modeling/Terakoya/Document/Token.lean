import Terakoya.Document.Scalar

/-! The tokens of a YAML document. Indentation shows as tokens that open and close blocks. That a
scalar or a collection is a key is known only at the colon after it: the tokens that say so are
then put before it. -/
namespace Terakoya.Document

inductive Token where
  | documentStart | documentEnd | streamEnd | directive
  | sequenceOpen | mappingOpen | blockClose
  | bracketOpen | bracketClose | braceOpen | braceClose
  | entry | comma | key | value
  | reference (name : String)
  | anchor (name : String)
  /-- The part of a tag up to its last exclamation mark, and the rest of it. -/
  | tag (handle suffix : String)
  | scalar (text : String) (plain : Bool)
  deriving DecidableEq, Repr

structure Lexeme where
  token : Token
  line : Nat
  deriving DecidableEq, Repr

structure Candidate where
  required : Bool
  /-- The number of tokens before it. -/
  before : Nat
  line : Nat
  column : Nat
  index : Nat

structure Tokenizer where
  spot : Spot
  /-- The tokens read, the last one first. -/
  tokens : List Lexeme := []
  count : Nat := 0
  /-- The columns of the open blocks, the innermost first. -/
  blocks : List Nat := []
  /-- Where a key may have begun, within each open bracket, the innermost first. -/
  brackets : List (Option Candidate) := []
  outside : Option Candidate := none
  keyAllowed : Bool := true

namespace Tokenizer

def inFlow (s : Tokenizer) : Bool := !s.brackets.isEmpty

def emit (s : Tokenizer) (t : Token) (line : Nat) : Tokenizer :=
  { s with tokens := ⟨t, line⟩ :: s.tokens, count := s.count + 1 }

/-- Puts a token behind the first `n`. -/
def insert (s : Tokenizer) (n : Nat) (t : Token) (line : Nat) : Tokenizer :=
  let later := s.count - n
  { s with tokens := s.tokens.take later ++ ⟨t, line⟩ :: s.tokens.drop later, count := s.count + 1 }

def candidate (s : Tokenizer) : Option Candidate :=
  match s.brackets with
  | c :: _ => c
  | [] => s.outside

def setCandidate (s : Tokenizer) (c : Option Candidate) : Tokenizer :=
  match s.brackets with
  | _ :: rest => { s with brackets := c :: rest }
  | [] => { s with outside := c }

def dropCandidate (s : Tokenizer) : Option Tokenizer :=
  match s.candidate with
  | some c => if c.required then none else some (s.setCandidate none)
  | none => some s

def saveCandidate (s : Tokenizer) : Option Tokenizer :=
  if s.keyAllowed then
    let c : Candidate :=
      { required := !s.inFlow && s.blocks.head? = some s.spot.column
        before := s.count, line := s.spot.line, column := s.spot.column, index := s.spot.index }
    s.dropCandidate.map (·.setCandidate (some c))
  else some s

/-- How far behind a key its colon may stand. -/
def keyReach : Nat := 1024

/-- The key that a colon here belongs to. A key stands on one line. -/
def keyHere (s : Tokenizer) : Option (Option Candidate) :=
  match s.candidate with
  | none => some none
  | some c =>
    if c.line < s.spot.line || c.index + keyReach < s.spot.index then
      if c.required then none else some none
    else some (some c)

def openBlock (s : Tokenizer) (column before : Nat) (t : Token) (line : Nat) : Tokenizer :=
  let deeper := match s.blocks with
    | [] => true
    | n :: _ => n < column
  if !s.inFlow && deeper then { s.insert before t line with blocks := column :: s.blocks } else s

def closeBlocks (p : Nat → Bool) (s : Tokenizer) : Tokenizer :=
  if s.inFlow then s
  else
    let closed := s.blocks.takeWhile p
    { closed.foldl (fun s _ => s.emit .blockClose s.spot.line) s with
      blocks := s.blocks.dropWhile p }

/-- Passes white space and comments. A tab is white space only where no key may begin. -/
def skipGaps : Nat → Tokenizer → Tokenizer
  | 0, s => s
  | fuel + 1, s =>
    let tabs := s.inFlow || !s.keyAllowed
    let spot := s.spot.skipWhile fun c => c = ' ' || (tabs && c = '\t')
    let spot := if spot.rest.head? = some '#' then spot.skipWhile (fun c => !isBreak c) else spot
    let s := { s with spot }
    match spot.rest with
    | [] => s
    | c :: _ =>
      if isBreak c then
        skipGaps fuel { s with spot := spot.readBreak.2, keyAllowed := s.keyAllowed || !s.inFlow }
      else s

def sign (s : Tokenizer) (t : Token) : Tokenizer :=
  { s.emit t s.spot.line with spot := s.spot.skip }

def separator (s : Tokenizer) (t : Token) : Option Tokenizer := do
  let s ← (s.closeBlocks fun _ => true).dropCandidate
  return { s.emit t s.spot.line with spot := s.spot.skipN 3, keyAllowed := false }

def versionLine : List Char := "%YAML 1.1".toList

def directive (s : Tokenizer) : Option Tokenizer := do
  let s ← (s.closeBlocks fun _ => true).dropCandidate
  let line := s.spot.rest.takeWhile fun c => !isBreak c
  let after := line.drop versionLine.length
  if line.take versionLine.length = versionLine && (after.dropWhile isBlank).head?.all (· = '#') then
    return { s.emit .directive s.spot.line with spot := s.spot.skipN line.length, keyAllowed := false }
  else none

def openFlow (s : Tokenizer) (t : Token) : Option Tokenizer := do
  let s := (← s.saveCandidate).sign t
  return { s with brackets := none :: s.brackets, keyAllowed := true }

def closeFlow (s : Tokenizer) (t : Token) : Option Tokenizer := do
  let s ← s.dropCandidate
  return { s with brackets := s.brackets.tail, keyAllowed := false }.sign t

def comma (s : Tokenizer) : Option Tokenizer := do
  return { ← s.dropCandidate with keyAllowed := true }.sign .comma

def entry (s : Tokenizer) : Option Tokenizer := do
  if !s.inFlow && !s.keyAllowed then none
  let s ← (s.openBlock s.spot.column s.count .sequenceOpen s.spot.line).dropCandidate
  return { s with keyAllowed := true }.sign .entry

def explicitKey (s : Tokenizer) : Option Tokenizer := do
  if !s.inFlow && !s.keyAllowed then none
  let s ← (s.openBlock s.spot.column s.count .mappingOpen s.spot.line).dropCandidate
  return { s with keyAllowed := !s.inFlow }.sign .key

def value (s : Tokenizer) : Option Tokenizer := do
  match ← s.keyHere with
  | some c =>
    let s := (s.insert c.before .key c.line).openBlock c.column c.before .mappingOpen c.line
    return { s.setCandidate none with keyAllowed := false }.sign .value
  | none =>
    if !s.inFlow && !s.keyAllowed then none
    let s := s.openBlock s.spot.column s.count .mappingOpen s.spot.line
    return { s.setCandidate none with keyAllowed := !s.inFlow }.sign .value

def isNameChar (c : Char) : Bool :=
  ('0' ≤ c && c ≤ '9') || ('a' ≤ c && c ≤ 'z') || ('A' ≤ c && c ≤ 'Z') || c = '_' || c = '-'

def named (s : Tokenizer) (t : String → Token) : Option Tokenizer := do
  let s ← s.saveCandidate
  let spot := s.spot.skip
  let name := spot.rest.takeWhile isNameChar
  let after := spot.rest.drop name.length
  let ends := atGap after || after.head?.any fun c => "?:,]\x7d%@\x60".toList.contains c
  if name.isEmpty || !ends then none
  return { s.emit (t (String.ofList name)) s.spot.line with
           spot := spot.skipN name.length, keyAllowed := false }

def isTagChar (c : Char) : Bool :=
  isNameChar c || ";/?:@&=+$,.!~*'()[]".toList.contains c

/-- A tag: `!<…>`, `!handle!suffix` or `!suffix`. -/
def tag (s : Tokenizer) : Option Tokenizer := do
  let s ← s.saveCandidate
  let finish (handle suffix : List Char) (length : Nat) : Option Tokenizer :=
    let spot := s.spot.skipN length
    if atGap spot.rest then
      some { s.emit (.tag (String.ofList handle) (String.ofList suffix)) s.spot.line with
             spot, keyAllowed := false }
    else none
  match s.spot.rest with
  | _ :: '<' :: rest =>
    let uri := rest.takeWhile isTagChar
    if uri.isEmpty || (rest.drop uri.length).head? ≠ some '>' then none
    finish [] uri (uri.length + 3)
  | _ :: rest =>
    let word := rest.takeWhile isNameChar
    let after := rest.drop word.length
    if after.head? = some '!' then
      let suffix := after.tail.takeWhile isTagChar
      if suffix.isEmpty then none
      finish ('!' :: word ++ ['!']) suffix (word.length + 2 + suffix.length)
    else
      let suffix := rest.takeWhile isTagChar
      if suffix.isEmpty then finish [] ['!'] 1 else finish ['!'] suffix (suffix.length + 1)
  | [] => none

def block (s : Tokenizer) (literal : Bool) : Option Tokenizer := do
  let s ← s.dropCandidate
  let (text, spot) ← blockText literal s.blocks.head? s.spot.skip
  return { s.emit (.scalar (String.ofList text) false) s.spot.line with spot, keyAllowed := true }

def quoted (s : Tokenizer) (quote : Char) : Option Tokenizer := do
  let s ← s.saveCandidate
  let (text, spot) ← quotedText quote (s.spot.rest.length + 1) [] s.spot.skip
  return { s.emit (.scalar (String.ofList text.reverse) false) s.spot.line with
           spot, keyAllowed := false }

def plain (s : Tokenizer) : Option Tokenizer := do
  let s ← s.saveCandidate
  let indent := match s.blocks with
    | [] => 0
    | n :: _ => n + 1
  let p ← Plain.read s.inFlow indent (s.spot.rest.length + 1) { spot := s.spot }
  return { s.emit (.scalar (String.ofList p.text.reverse) true) s.spot.line with
           spot := p.spot, keyAllowed := p.gap.broken }

def isIndicator (c : Char) : Bool := "-?:,[]\x7b\x7d#&*!|>'\"%@\x60".toList.contains c

def token (s : Tokenizer) : Option Tokenizer :=
  match s.spot.rest with
  | [] => none
  | c :: rest =>
    if s.spot.column = 0 && c = '%' then s.directive
    else if s.spot.startsWithMark '-' then s.separator .documentStart
    else if s.spot.startsWithMark '.' then s.separator .documentEnd
    else if c = '[' then s.openFlow .bracketOpen
    else if c = '{' then s.openFlow .braceOpen
    else if c = ']' then s.closeFlow .bracketClose
    else if c = '}' then s.closeFlow .braceClose
    else if c = ',' then s.comma
    else if c = '-' && atGap rest then s.entry
    else if c = '?' && (s.inFlow || atGap rest) then s.explicitKey
    else if c = ':' && (s.inFlow || atGap rest) then s.value
    else if c = '*' then s.named .reference
    else if c = '&' then s.named .anchor
    else if c = '!' then s.tag
    else if c = '|' && !s.inFlow then s.block true
    else if c = '>' && !s.inFlow then s.block false
    else if c = '\'' || c = '"' then s.quoted c
    else if !isIndicator c && !isBlank c then s.plain
    else if c = '-' || (!s.inFlow && (c = '?' || c = ':')) then s.plain
    else none

def finish (s : Tokenizer) : Option Tokenizer := do
  let line := if s.spot.column = 0 then s.spot.line else s.spot.line + 1
  let s := { s with spot := { s.spot with line, column := 0 } }
  return (← (s.closeBlocks fun _ => true).dropCandidate).emit .streamEnd line

/-- Reads all tokens that can be read; the flag tells whether the text goes on with something that
is no token. -/
def run : Nat → Tokenizer → Tokenizer × Bool
  | 0, s => (s, true)
  | fuel + 1, s =>
    let s := s.skipGaps (s.spot.rest.length + 1)
    let s := s.closeBlocks (s.spot.column < ·)
    if s.spot.rest.isEmpty then
      match s.finish with
      | some s => (s, false)
      | none => (s, true)
    else
      match s.token with
      | some s => run fuel s
      | none => (s, true)

end Tokenizer

structure Tokens where
  rest : List Lexeme
  cut : Bool

/-- Reads a text as tokens, unless it holds something that may not stand in a document. A byte order
mark at its beginning is passed over. -/
def Tokens.ofText? (t : Text) : Option Tokens :=
  let t := if t.head? = some (.char '\ufeff') then t.tail else t
  let allowed : Glyph → Bool
    | .char c => isAllowed c
    | .stray _ => false
  if t.all allowed then
    let (s, cut) := Tokenizer.run (t.length + 1) { spot := { rest := t.map Glyph.toChar } }
    some ⟨s.tokens.reverse, cut⟩
  else none

end Terakoya.Document
