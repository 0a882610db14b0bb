import Terakoya.Session.Basic
import Terakoya.Session.Pending

/-! A session line by line: lines are gathered into fragments, and a history is kept of what was
entered. -/
namespace Terakoya

/-- What was entered, the latest last. -/
abbrev History := List Text

namespace History

def limit : Nat := 1000

def bounded (h : History) : History := h.drop (h.length - limit)

/-- Adds an entry, unless it repeats the one before it. -/
def add (h : History) (entry : Text) : History :=
  if h.getLast? = some entry then h else bounded (h ++ [entry])

/-- The lines of a text. A carriage return before a newline belongs to the end of the line. -/
def lines (t : Text) : List Text :=
  go [] t
where
  /-- The line read so far stands in reverse. -/
  go : Text → Text → List Text
    | [], [] => []
    | line, [] => [line.reverse]
    | line, g :: rest =>
      if g = .newline then
        let line := if line.head? = some (.char '\r') then line.tail else line
        line.reverse :: go [] rest
      else go (g :: line) rest

/-- The length in bytes from which on a line is too long. -/
def tooLong : Nat := 4096

def isEntry (line : Text) : Bool :=
  Text.width line < tooLong && line.all fun
    | .char _ => true
    | .stray _ => false

def ofText (t : Text) : History := bounded ((lines t).takeWhile isEntry)

def toText (h : History) : Text := h.flatMap (· ++ [.newline])

end History

structure Dialogue where
  session : Session
  buffer : Text := []
  history : History := []

namespace Dialogue

def banner (version : String) : String :=
  String.join
    ["\n█▄▀ █▀█ ▀█▀ █▀█\n█░█ █▄█ ░█░ █▄█ v " ++ version ++ "\n\n",
      "Type 'exit' or Ctrl+D to quit\n",
      "Use Tab for completion, ↑↓ for history\n",
      "Type ':help' for REPL commands\n\n"]

def farewell : String := "Goodbye!\n"

def prompt (d : Dialogue) : String := if d.buffer.isEmpty then ">> " else ".. "

def line (d : Dialogue) (input : Text) : Dialogue × String × Bool :=
  let trimmed := Text.trimmed input
  if d.buffer.isEmpty && (trimmed = Text.ofString "exit" || trimmed = Text.ofString "quit") then
    (d, farewell, true)
  else if d.buffer.isEmpty && trimmed.head? = some (.char ':') then
    let command := Session.Command.ofString (Text.toString trimmed)
    let (session, out) := d.session.perform command
    let ended := match command with
      | .quit => true
      | _ => false
    ({ d with session, history := d.history.add trimmed }, if ended then out ++ farewell else out, ended)
  else if d.buffer.isEmpty && trimmed.isEmpty then (d, "", false)
  else
    let fragment := if d.buffer.isEmpty then input else d.buffer ++ .newline :: input
    if Pending.needsMore fragment then ({ d with buffer := fragment }, "", false)
    else
      let (session, out) := d.session.eval fragment
      ({ session, buffer := [], history := d.history.add fragment }, out, false)

def run (d : Dialogue) : List Text → Dialogue × String
  | [] => (d, "\n" ++ farewell)
  | input :: rest =>
    let (d, out, ended) := d.line input
    if ended then (d, out)
    else
      let (d, more) := run d rest
      (d, out ++ more)

end Dialogue
end Terakoya
