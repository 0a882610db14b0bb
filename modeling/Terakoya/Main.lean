import Terakoya.Command.Dispatch

/-! The program itself: files, standard input and output around the commands. -/
namespace Terakoya.Program

def fault : IO.Error → FileFault
  | .inappropriateType .. => .isDirectory
  | .illegalOperation .. => .isDirectory
  | _ => .missing

def readFile (path : String) : IO (Except FileFault Text) := do
  try
    let bytes ← IO.FS.readBinFile path
    return .ok (Text.decode bytes.toList)
  catch e => return .error (fault e)

def writeFile (path : String) (t : Text) : IO Unit := do
  try IO.FS.writeBinFile path ⟨(Text.encode t).toArray⟩ catch _ => pure ()

partial def readRest (input : IO.FS.Stream) (bytes : ByteArray) : IO ByteArray := do
  let more ← input.read 65536
  if more.isEmpty then return bytes else readRest input (bytes ++ more)

def perform {α : Type} : Action α → IO α
  | .done a => pure a
  | .file path next => do perform (next (← readFile path))
  | .input next => do
    let bytes ← readRest (← IO.getStdin) .empty
    perform (next (Text.decode bytes.toList))

def write (o : Outcome) : IO Unit := do
  let output ← IO.getStdout
  output.putStr o.out
  output.flush
  (← IO.getStderr).putStr o.err

def stripped (line : String) : Text := ((History.lines (Text.ofString line)).head?).getD []

partial def talk (input output : IO.FS.Stream) (d : Dialogue) : IO Dialogue := do
  if ← input.isTty then
    output.putStr d.prompt
    output.flush
  let line ← input.getLine
  if line.isEmpty then
    output.putStr ("\n" ++ Dialogue.farewell)
    return d
  let (d, out, ended) := d.line (stripped line)
  output.putStr out
  output.flush
  if ended then return d else talk input output d

def converse (w : Surroundings) (s : Settings) (seed : Seed) : IO UInt32 := do
  match ← perform (Dialogue.opened w s seed) with
  | .error e =>
    let o := Outcome.refused e.message
    write o
    return o.exit.toUInt32
  | .ok d =>
    let output ← IO.getStdout
    output.putStr (Dialogue.banner Command.version)
    let d ← talk (← IO.getStdin) output d
    if s.history ≠ "" then writeFile s.history d.history.toText
    return 0

/-- How long a changed file is left to settle, in milliseconds. -/
def settling : UInt32 := 100

partial def rerun (r : Runner) (path : String) (last : Except FileFault Text) : IO Unit := do
  IO.sleep settling
  let now ← readFile path
  match now, last with
  | .ok a, .ok b => if a = b then rerun r path last else again now
  | .ok _, .error _ => again now
  | .error _, _ => rerun r path now
where
  again (now : Except FileFault Text) : IO Unit := do
    (← IO.getStderr).putStr ("[watch] " ++ path ++ " changed, re-running\n")
    write (← perform (r.runFile path))
    rerun r path now

def watch (w : Surroundings) (r : Runner) (path : String) : IO UInt32 := do
  match ← perform (Runner.announce w path) with
  | .error o =>
    write o
    return o.exit.toUInt32
  | .ok line =>
    (← IO.getStderr).putStr line
    write (← perform (r.runFile path))
    rerun r path (← readFile path)
    return 0

/-- A number that looks like chance, from a start and a count: the bits are stirred twice. -/
def stir (start count : Nat) : Nat :=
  let mix (x : UInt64) (shift : UInt64) (factor : UInt64) : UInt64 := (x ^^^ (x >>> shift)) * factor
  let x := start.toUInt64 + count.toUInt64 * 0x9E3779B97F4A7C15
  let x := mix (mix x 30 0xBF58476D1CE4E5B9) 27 0x94D049BB133111EB
  (x ^^^ (x >>> 31)).toNat

def environmentVariables : IO (List (String × String)) := do
  match ← readFile "/proc/self/environ" with
  | .error _ => return []
  | .ok t =>
    let entries := (Text.toString t).splitOn "\x00"
    return entries.filterMap fun e =>
      match e.splitOn "=" with
      | name :: rest => some (name, "=".intercalate rest)
      | [] => none

def surroundings : IO Surroundings := do
  let known ← environmentVariables
  let lookup (name : String) : String := (known.lookup name).getD ""
  let home := lookup "HOME"
  let start ← IO.rand 0 0xFFFFFFFF
  return {
    directory := (← IO.currentDir).toString
    home := if home = "" then none else some home
    lookup
    interactive := ← (← IO.getStdin).isTty
    random := fun i n => stir start i % n }

def run (arguments : List String) : IO UInt32 := do
  let w ← surroundings
  match ← perform (Command.task w arguments) with
  | .finish o =>
    write o
    return o.exit.toUInt32
  | .converse s seed => converse w s seed
  | .watch r path => watch w r path

end Terakoya.Program

def main (arguments : List String) : IO UInt32 := Terakoya.Program.run arguments
