import Terakoya.Number.Integer

/-! Reading numbers with a fraction or an exponent as double-precision floats, decimal or in base
sixteen with a binary exponent. -/
namespace Terakoya.Number

inductive RealFault where
  | malformed | outOfRange
  deriving DecidableEq, Repr

def lowerAscii (c : Char) : Char :=
  if 'A' ≤ c && c ≤ 'Z' then Char.ofNat (c.toNat + 32) else c

def named? (cs : List Char) : Option Float :=
  let (negative, word) := sign cs
  let word := String.ofList (word.map lowerAscii)
  if word = "inf" || word = "infinity" then some (if negative then -1.0 / 0.0 else 1.0 / 0.0)
  else if String.ofList (cs.map lowerAscii) = "nan" then some (0.0 / 0.0)
  else none

/-- The digits of a number with at most one point among them: all digits, and how many stand behind
the point. -/
def mantissa? (base : Nat) (cs : List Char) : Option (Nat × Nat) :=
  let whole := cs.takeWhile (· ≠ '.')
  let fraction := (cs.drop whole.length).tail
  if whole.isEmpty && fraction.isEmpty then none
  else (digitsFrom? base 0 (whole ++ fraction)).map (·, fraction.length)

/-- Past this exponent a number is out of all range. -/
def farExponent : Nat := 100000

def exponent? (cs : List Char) : Option Int :=
  let (negative, digits) := sign cs
  if digits.isEmpty then none
  else (digitsFrom? 10 0 digits).map fun n => signed negative (min n farExponent)

def nearestDecimal (m : Nat) (e : Int) : Float :=
  if m = 0 then 0.0
  else if e < 0 then Float.ofScientific m true e.natAbs else Float.ofScientific m false e.natAbs

def nearestBinary (m : Nat) (e : Int) : Float :=
  if e < 0 then nearestDecimal (m * Nat.pow 5 e.natAbs) e else nearestDecimal (m * Nat.pow 2 e.natAbs) 0

def unsignedReal? (cs : List Char) : Option Float :=
  match cs with
  | '0' :: x :: c :: rest =>
    if x = 'x' || x = 'X' then
      let body := (c :: rest).takeWhile fun c => lowerAscii c ≠ 'p'
      match (c :: rest).drop body.length with
      | [] => none
      | _ :: power => do
        let (m, places) ← mantissa? 16 body
        let e ← exponent? power
        return nearestBinary m (e - 4 * places)
    else decimal cs
  | _ => decimal cs
where
  decimal (cs : List Char) : Option Float := do
    let body := cs.takeWhile fun c => lowerAscii c ≠ 'e'
    let (m, places) ← mantissa? 10 body
    match cs.drop body.length with
    | [] => return nearestDecimal m (-places)
    | _ :: power => return nearestDecimal m ((← exponent? power) - places)

/-- Whether each underscore stands between two digits, or between `0x` and a digit. -/
def underscoresFit (cs : List Char) : Bool :=
  let (hex, known, body) := match (sign cs).2 with
    | '0' :: c :: rest =>
      if lowerAscii c = 'x' then (true, true, rest)
      else if lowerAscii c = 'b' || lowerAscii c = 'o' then (false, true, rest)
      else (false, false, '0' :: c :: rest)
    | body => (false, false, body)
  let isDigit (c : Char) : Bool :=
    ('0' ≤ c && c ≤ '9') || (hex && 'a' ≤ lowerAscii c && lowerAscii c ≤ 'f')
  go isDigit known false body
where
  /-- `digit` and `bar` tell whether a digit or an underscore has just been passed. -/
  go (isDigit : Char → Bool) (digit bar : Bool) : List Char → Bool
    | [] => !bar
    | c :: rest =>
      if isDigit c then go isDigit true false rest
      else if c = '_' then digit && go isDigit false true rest
      else !bar && go isDigit false false rest

def real (cs : List Char) : Except RealFault Float :=
  match named? cs with
  | some x => .ok x
  | none =>
    if cs.contains '_' && !underscoresFit cs then .error .malformed
    else
      let (negative, body) := sign (cs.filter (· ≠ '_'))
      match unsignedReal? body with
      | none => .error .malformed
      | some x =>
        if x == 1.0 / 0.0 then .error .outOfRange else .ok (if negative then -x else x)

end Terakoya.Number
