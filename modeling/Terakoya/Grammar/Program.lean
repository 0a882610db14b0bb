import Terakoya.Grammar.Phrase
import Terakoya.Text.Normal

/-! Whole programs. Reading stops at the first fault or, in recovery, goes on with the line after
it. -/
namespace Terakoya

/-- The phrases with at most `depth` phrases nested in one another. -/
def Phrases.upTo (depth : Nat) : Phrases :=
  match depth with
  | 0 => { primary := Reader.unfinished, statement := Reader.unfinished }
  | n + 1 =>
    { primary := fun c => (upTo n).onePrimary c, statement := fun c => (upTo n).oneStatement c }

/-- The nesting that a text of some length can have: each nested phrase begins later, and a
statement may begin with an expression. -/
def Phrases.depthFor (length : Nat) : Nat := 2 * length + 2

structure Parse where
  /-- The text that all offsets refer to. -/
  source : Text
  program : Program
  errors : List SyntaxError
  /-- Whether reading came to an end by itself. -/
  finished : Bool

namespace Parse

structure Progress where
  body : List Stmt
  errors : List SyntaxError
  stop : Nat
  finished : Bool

/-- Reads statements to the end of the text. `n` bounds the number of statements and faults. -/
def run (phrases : Phrases) (recover : Bool) (source : Text) : Nat → Cursor → Progress
  | 0, c => ⟨[], [], c.pos, false⟩
  | n + 1, c =>
    let c := c.skipBlank
    if c.atEnd then ⟨[], [], c.pos, true⟩
    else
      match phrases.statement c with
      | .found s next =>
        let p := run phrases recover source n next
        { p with body := s :: p.body }
      | .refused e =>
        if recover then
          let p := run phrases recover source n (Cursor.lineAfter source e.offset)
          { p with errors := e :: p.errors }
        else ⟨[], [e], c.pos, true⟩
      | .absent _ => ⟨[], [], c.pos, true⟩
      | .unfinished => ⟨[], [], c.pos, false⟩

def ofNormal (recover : Bool) (source : Text) : Parse :=
  let phrases := Phrases.upTo (Phrases.depthFor source.length)
  let p := run phrases recover source (source.length + 1) (.start source)
  { source, program := ⟨p.body, p.stop⟩, errors := p.errors, finished := p.finished }

def strict (t : Text) : Parse := ofNormal false (Text.normalize t)

def recovering (t : Text) : Parse := ofNormal true (Text.normalize t)

def diagnostics (p : Parse) (name : String) : List Diagnostic :=
  p.errors.map fun e => { e.diagnostic p.source with file := name }

end Parse
end Terakoya
