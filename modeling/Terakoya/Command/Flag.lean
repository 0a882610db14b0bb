import Terakoya.Number.Real
import Terakoya.Text.Quoted

/-! Flags on a command line: `-name`, `--name`, `-name value` or `-name=value`, up to the first
argument that is no flag, or up to `--`. -/
namespace Terakoya

inductive FlagKind where
  | switch | text | whole | real
  deriving DecidableEq, Repr

structure Flag where
  name : String
  kind : FlagKind
  usage : String
  preset : String := ""

inductive FlagValue where
  | switch (b : Bool)
  | text (s : String)
  | whole (n : Int)
  | real (x : Float)

inductive ValueProblem where
  | malformed | outOfRange
  deriving DecidableEq, Repr

def ValueProblem.message : ValueProblem → String
  | malformed => "parse error"
  | outOfRange => "value out of range"

inductive FlagProblem where
  | malformed (argument : String)
  | undefined (name : String)
  | help
  | needsValue (name : String)
  | switchValue (value name : String)
  | badValue (value name : String) (e : ValueProblem)

namespace FlagProblem

def message : FlagProblem → String
  | malformed argument => "bad flag syntax: " ++ argument
  | undefined name => "flag provided but not defined: -" ++ name
  | help => "help requested"
  | needsValue name => "flag needs an argument: -" ++ name
  | switchValue value name =>
    "invalid boolean value " ++ Text.quoted (Text.ofString value) ++ " for -" ++ name ++ ": parse error"
  | badValue value name e =>
    "invalid value " ++ Text.quoted (Text.ofString value) ++ " for flag -" ++ name ++ ": " ++ e.message

end FlagProblem

namespace FlagValue

def switch? (s : String) : Option Bool :=
  if ["1", "t", "T", "TRUE", "true", "True"].contains s then some true
  else if ["0", "f", "F", "FALSE", "false", "False"].contains s then some false
  else none

/-- The digits of a number of at most 64 bits. What follows a number that is too large is not looked
at. -/
def wholeDigits (base : Nat) : Nat → List Char → Except ValueProblem Nat
  | n, [] => .ok n
  | n, c :: rest =>
    if c = '_' then wholeDigits base n rest
    else
      match Number.digit? c with
      | none => .error .malformed
      | some d =>
        if base ≤ d then .error .malformed
        else if Number.greatestUnsigned < base * n + d then .error .outOfRange
        else wholeDigits base (base * n + d) rest

/-- A whole number of 64 bits, with a base before it and underscores between its digits. -/
def readWhole (s : String) : Except ValueProblem Int := do
  let (negative, body) := Number.sign s.toList
  if body.isEmpty then .error .malformed
  let (base, digits) := Number.literalBase body
  let n ← wholeDigits base 0 digits
  if body.contains '_' && (Number.separated? body).isNone then .error .malformed
  let k := Number.signed negative n
  if k < Number.leastSigned || Number.greatestSigned < k then .error .outOfRange
  return k

def readReal (s : String) : Except ValueProblem Float :=
  match Number.real s.toList with
  | .ok x => .ok x
  | .error .malformed => .error .malformed
  | .error .outOfRange => .error .outOfRange

end FlagValue

/-- The flags of a command line with the latest first, and the arguments behind them. -/
structure Arguments where
  flags : List (String × FlagValue) := []
  rest : List String := []

namespace Arguments

def divide (body : List Char) : String × Option String :=
  let name := body.take 1 ++ (body.drop 1).takeWhile (· ≠ '=')
  match body.drop name.length with
  | [] => (String.ofList name, none)
  | _ :: value => (String.ofList name, some (String.ofList value))

def valueOf (f : Flag) (given : Option String) (rest : List String) :
    Except FlagProblem (FlagValue × List String) :=
  match f.kind with
  | .switch =>
    match given with
    | none => .ok (.switch true, rest)
    | some value =>
      match FlagValue.switch? value with
      | some b => .ok (.switch b, rest)
      | none => .error (.switchValue value f.name)
  | kind =>
    let read (value : String) : Except FlagProblem FlagValue :=
      let refused (e : ValueProblem) := FlagProblem.badValue value f.name e
      match kind with
      | .whole => ((FlagValue.readWhole value).map .whole).mapError refused
      | .real => ((FlagValue.readReal value).map .real).mapError refused
      | _ => .ok (.text value)
    match given, rest with
    | some value, rest => (read value).map (·, rest)
    | none, value :: rest => (read value).map (·, rest)
    | none, [] => .error (.needsValue f.name)

def readFlags (known : List Flag) : Nat → Arguments → Except FlagProblem Arguments
  | 0, a => .ok a
  | fuel + 1, a =>
    match a.rest with
    | [] => .ok a
    | argument :: rest =>
      match argument.toList with
      | ['-', '-'] => .ok { a with rest }
      | '-' :: c :: more =>
        let body := if c = '-' then more else c :: more
        if body.head?.all fun c => c = '-' || c = '=' then .error (.malformed argument)
        else
          let (name, given) := divide body
          match known.find? (·.name = name) with
          | none => .error (if name = "help" || name = "h" then .help else .undefined name)
          | some f =>
            match valueOf f given rest with
            | .error e => .error e
            | .ok (value, rest) => readFlags known fuel ⟨(name, value) :: a.flags, rest⟩
      | _ => .ok a

def read (known : List Flag) (arguments : List String) : Except FlagProblem Arguments :=
  readFlags known (arguments.length + 1) { rest := arguments }

def find? (a : Arguments) (names : List String) : Option FlagValue :=
  (a.flags.find? fun (name, _) => names.contains name).map Prod.snd

def switch (a : Arguments) (names : List String) : Bool :=
  match a.find? names with
  | some (.switch b) => b
  | _ => false

def text (a : Arguments) (names : List String) : String :=
  match a.find? names with
  | some (.text s) => s
  | _ => ""

def real (a : Arguments) (names : List String) (preset : Float) : Float :=
  match a.find? names with
  | some (.real x) => x
  | _ => preset

def whole (a : Arguments) (names : List String) (preset : Int) : Int :=
  match a.find? names with
  | some (.whole n) => n
  | _ => preset

end Arguments

namespace Flag

def valueName : FlagKind → String
  | .switch => ""
  | .text => " string"
  | .whole => " int"
  | .real => " float"

/-- The lines that explain a flag. A switch with a name of one letter takes one line. -/
def explain (f : Flag) : String :=
  let head := "  -" ++ f.name ++ valueName f.kind
  head ++ (if head.utf8ByteSize ≤ 4 then "\t" else "\n    \t") ++ f.usage ++
    (if f.preset = "" then "" else " (default " ++ f.preset ++ ")") ++ "\n"

def insert (f : Flag) : List Flag → List Flag
  | [] => [f]
  | g :: rest => if f.name < g.name then f :: g :: rest else g :: insert f rest

def explainAll (title : String) (flags : List Flag) : String :=
  "Usage of " ++ title ++ ":\n" ++ String.join ((flags.foldl (fun l f => insert f l) []).map explain)

end Flag
end Terakoya
