import Terakoya.Files.Path
import Terakoya.Text.Glyph

/-! What a command asks for while it runs: files and its standard input. An action is a value, so the
same command can be carried out on a real directory and on one that is given as data. -/
namespace Terakoya

inductive FileFault where
  | missing | notDirectory | isDirectory | nameTooLong
  deriving DecidableEq, Repr

namespace FileFault

/-- A directory can be opened, but not read. -/
def message (path : String) : FileFault → String
  | missing => "open " ++ path ++ ": no such file or directory"
  | notDirectory => "open " ++ path ++ ": not a directory"
  | nameTooLong => "open " ++ path ++ ": file name too long"
  | isDirectory => "read " ++ path ++ ": is a directory"

def reason : FileFault → String
  | missing => "no such file or directory"
  | notDirectory => "not a directory"
  | nameTooLong => "file name too long"
  | isDirectory => "is a directory"

end FileFault

inductive Action (α : Type) where
  | done (a : α)
  | file (path : String) (next : Except FileFault Text → Action α)
  | input (next : Text → Action α)

namespace Action

variable {α β : Type}

def bind : Action α → (α → Action β) → Action β
  | done a, f => f a
  | file path next, f => .file path fun r => (next r).bind f
  | input next, f => .input fun t => (next t).bind f

instance : Monad Action where
  pure := .done
  bind := .bind

def read (path : String) : Action (Except FileFault Text) := .file path .done

def exists? (path : String) : Action (Except FileFault Unit) := do
  match ← read path with
  | .ok _ | .error .isDirectory => return .ok ()
  | .error e => return .error e

def all : Action Text := .input .done

end Action

structure Folder where
  here : List String
  files : List (List String × Text)

namespace Folder

def isDirectory (f : Folder) (path : List String) : Bool :=
  path.isPrefixOf f.here || f.files.any fun (name, _) => path.isPrefixOf name && path ≠ name

def longestName : Nat := 255

def follow (f : Folder) (place : List String) : List String → Except FileFault (List String)
  | [] => .ok place
  | part :: rest =>
    if !f.isDirectory place then .error .notDirectory
    else if part = "" || part = "." then follow f place rest
    else if part = ".." then follow f place.dropLast rest
    else if longestName < part.utf8ByteSize then .error .nameTooLong
    else
      let next := place ++ [part]
      if f.isDirectory next || (f.files.lookup next).isSome then follow f next rest
      else .error .missing

def read (f : Folder) (path : String) : Except FileFault Text :=
  if path = "" then .error .missing
  else
    match f.follow (if Path.isAbsolute path then [] else f.here) (Path.parts path) with
    | .error e => .error e
    | .ok place =>
      match f.files.lookup place with
      | some t => .ok t
      | none => .error .isDirectory

/-- Puts a text under a name. Nothing changes if the directory it would be in is not there, or if the
name is one of a directory. -/
def write (f : Folder) (path : String) (t : Text) : Folder :=
  let parts := Path.parts path
  let start := if Path.isAbsolute path then [] else f.here
  match f.follow start parts.dropLast, parts.getLast? with
  | .ok place, some name =>
    let target := place ++ [name]
    if path = "" || ["", ".", ".."].contains name || !f.isDirectory place || f.isDirectory target then f
    else { f with files := (target, t) :: f.files.filter (·.1 ≠ target) }
  | _, _ => f

def ofFiles (here : String) (files : List (String × Text)) : Folder :=
  let place := Path.cleanParts true [] (Path.parts here)
  ⟨place, files.map fun (name, t) => (Path.cleanParts true [] (place ++ Path.parts name), t)⟩

end Folder

def Action.within {α : Type} (f : Folder) (stdin : Text) : Action α → α
  | .done a => a
  | .file path next => (next (f.read path)).within f stdin
  | .input next => (next stdin).within f stdin

end Terakoya
