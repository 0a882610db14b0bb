/-! Reading whole numbers: decimal ones, and literals whose beginning tells their base. -/
namespace Terakoya.Number

def leastSigned : Int := -9223372036854775808

def greatestSigned : Int := 9223372036854775807

def greatestUnsigned : Int := 18446744073709551615

def digit? (c : Char) : Option Nat :=
  if '0' ≤ c && c ≤ '9' then some (c.toNat - '0'.toNat)
  else if 'a' ≤ c && c ≤ 'f' then some (c.toNat - 'a'.toNat + 10)
  else if 'A' ≤ c && c ≤ 'F' then some (c.toNat - 'A'.toNat + 10)
  else none

/-- The number that digits of a base write after the number `n`. -/
def digitsFrom? (base : Nat) (n : Nat) (cs : List Char) : Option Nat :=
  cs.foldlM (fun n c => (digit? c).bind fun d => if d < base then some (base * n + d) else none) n

def sign : List Char → Bool × List Char
  | '-' :: rest => (true, rest)
  | '+' :: rest => (false, rest)
  | cs => (false, cs)

def signed (negative : Bool) (n : Nat) : Int := if negative then -(n : Int) else n

def inBase? (base : Nat) (cs : List Char) : Option Int :=
  let (negative, digits) := sign cs
  if digits.isEmpty then none else (digitsFrom? base 0 digits).map (signed negative)

/-- The base that the beginning of a literal tells, with the digits after it: `0b`, `0o`, `0x`, or a
zero alone for base eight. -/
def literalBase (cs : List Char) : Nat × List Char :=
  match cs with
  | '0' :: c :: d :: rest =>
    if c = 'b' || c = 'B' then (2, d :: rest)
    else if c = 'o' || c = 'O' then (8, d :: rest)
    else if c = 'x' || c = 'X' then (16, d :: rest)
    else (8, c :: d :: rest)
  | '0' :: rest => (8, rest)
  | cs => (10, cs)

def literal? (cs : List Char) : Option Int :=
  let (negative, body) := sign cs
  if body.isEmpty then none
  else
    let (base, digits) := literalBase body
    (digitsFrom? base 0 digits).map (signed negative)

/-- Whether each underscore stands between two digits, or between the base and a digit. -/
def separatorsFit : (afterDigit : Bool) → List Char → Bool
  | afterDigit, [] => afterDigit
  | afterDigit, c :: rest => if c = '_' then afterDigit && separatorsFit false rest
    else separatorsFit true rest

def separated? (cs : List Char) : Option Int :=
  let body := (sign cs).2
  let known := body.head? = some '0'
  let digits := (literalBase body).2
  if digits.isEmpty then literal? cs
  else if separatorsFit known digits then literal? (cs.filter (· ≠ '_'))
  else none

end Terakoya.Number
