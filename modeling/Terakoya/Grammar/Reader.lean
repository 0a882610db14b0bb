import Terakoya.Grammar.Fault
import Terakoya.Source.Cursor

/-! Readers of phrases. A phrase is found, or does not begin here, or begins here and is faulty. -/
namespace Terakoya

inductive Reading (α : Type) where
  | found (value : α) (next : Cursor)
  /-- No such phrase begins here, as is known once `reached` is read; another one may. -/
  | absent (reached : Cursor)
  | refused (error : SyntaxError)
  /-- The nesting allowed for was used up. -/
  | unfinished

def Reader (α : Type) : Type := Cursor → Reading α

namespace Reader

variable {α β : Type}

def pure (a : α) : Reader α := fun c => .found a c

def bind (r : Reader α) (f : α → Reader β) : Reader β := fun c =>
  match r c with
  | .found a next => f a next
  | .absent reached => .absent reached
  | .refused e => .refused e
  | .unfinished => .unfinished

instance : Monad Reader where
  pure := Reader.pure
  bind := Reader.bind

def orElse (r s : Reader α) : Reader α := fun c =>
  match r c with
  | .absent _ => s c
  | result => result

def absent : Reader α := fun c => .absent c

def unfinished : Reader α := fun _ => .unfinished

def firstOf : List (Reader α) → Reader α
  | [] => absent
  | r :: rest => orElse r (firstOf rest)

def here : Reader Nat := fun c => .found c.pos c

def spaces : Reader Unit := fun c => .found () c.skipSpaces

def blank : Reader Unit := fun c => .found () c.skipBlank

def word (w : String) : Reader Unit := fun c =>
  match c.consume? w with
  | some next => .found () next
  | none => .absent c

def tryWord (w : String) : Reader Bool := fun c =>
  match c.consume? w with
  | some next => .found true next
  | none => .found false c

def tryWords (ws : List String) : Reader Bool := fun c =>
  match c.consumeAny? ws with
  | some (_, next) => .found true next
  | none => .found false c

/-- The next character, which stays unread. -/
def peek : Reader Char := fun c => .found c.peek c

def advance : Reader Unit := fun c => .found () c.advance

def refuse (offset : Nat) (fault : SyntaxFault) : Reader α := fun _ => .refused ⟨offset, fault⟩

def shownLength : Nat := 12

def describeNext (c : Cursor) : String :=
  match c.rest with
  | [] => "end of input"
  | g :: _ =>
    if g.is '\n' then "newline"
    else
      let rest := c.restOfLine.map Glyph.toChar
      if shownLength < rest.length then String.ofList (rest.take shownLength) ++ "…"
      else String.ofList rest

def expecting (what : Expectation) : Reader α := fun c =>
  .refused ⟨c.pos, .missing what (describeNext c)⟩

def require (what : Expectation) (r : Reader α) : Reader α := fun c =>
  match r c with
  | .absent reached => expecting what reached
  | result => result

def statementEnd : Reader Unit := fun c =>
  if c.atStatementEnd then .found () c
  else
    let rest := c.skipSpaces
    .refused ⟨rest.pos, .trailing (Text.toString rest.restOfLine)⟩

/-- Runs a loop that reads something each time with more rounds than the text can fill. -/
def fuelled (loop : Nat → Reader α) : Reader α := fun c => loop (c.rest.length + 1) c

end Reader
end Terakoya
