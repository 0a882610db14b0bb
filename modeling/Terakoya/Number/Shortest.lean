/-! The fewest digits that name a double-precision float: of the decimals that read back as the
float, one with the least number of digits, and of those the nearest. -/
namespace Terakoya.Number

structure Dyadic where
  mantissa : Nat
  exponent : Int
  deriving DecidableEq, Repr

inductive FloatKind where
  | nan
  | infinite (negative : Bool)
  | finite (negative : Bool) (d : Dyadic)

/-- The first bit of a mantissa, which is not stored. -/
def hiddenBit : Nat := 4503599627370496

def FloatKind.of (x : Float) : FloatKind :=
  let bits := x.toBits.toNat
  let negative := decide (2048 * hiddenBit ≤ bits)
  let power : Nat := bits / hiddenBit % 2048
  let fraction := bits % hiddenBit
  if power = 2047 then if fraction = 0 then .infinite negative else .nan
  else if power = 0 then .finite negative ⟨fraction, -1074⟩
  else .finite negative ⟨hiddenBit + fraction, (power : Int) - 1075⟩

def truncate? (x : Float) : Option Int :=
  match FloatKind.of x with
  | .finite negative d =>
    let n := if d.exponent < 0 then d.mantissa / Nat.pow 2 d.exponent.natAbs
      else d.mantissa * Nat.pow 2 d.exponent.natAbs
    some (if negative then -(n : Int) else n)
  | _ => none

namespace Dyadic

/-- The reals that round to a float, in quarters of its last place: the bounds, and whether these
belong to them. Below a power of two the floats stand closer. -/
def bounds (d : Dyadic) : Nat × Nat × Bool :=
  let below := if d.mantissa = hiddenBit && -1074 < d.exponent then 1 else 2
  (4 * d.mantissa - below, 4 * d.mantissa + 2, d.mantissa % 2 = 0)

/-- Quarters of the last place, and powers of ten to the exponent `t`, brought to one unit: the
factors of the two. -/
def scale (d : Dyadic) (t : Int) : Nat × Nat :=
  let quarter := d.exponent - 2
  (Nat.pow 2 quarter.toNat * Nat.pow 10 (-t).toNat, Nat.pow 10 t.toNat * Nat.pow 2 (-quarter).toNat)

/-- The float in units of ten to the exponent `t`, rounded down. -/
def units (d : Dyadic) (t : Int) : Nat :=
  let (n, u) := d.scale t
  4 * d.mantissa * n / u

/-- Whether so many units of ten to the exponent `t` round to the float. -/
def holds (d : Dyadic) (t : Int) (c : Nat) : Bool :=
  let (n, u) := d.scale t
  let (low, high, closed) := d.bounds
  if closed then low * n ≤ c * u && c * u ≤ high * n else low * n < c * u && c * u < high * n

/-- The nearest of two neighbouring numbers of units, the even one if both are as near. -/
def lowerIsNearer (d : Dyadic) (t : Int) (c : Nat) : Bool :=
  let (n, u) := d.scale t
  let twice := 8 * d.mantissa * n
  let middle := (2 * c + 1) * u
  twice < middle || (twice = middle && c % 2 = 0)

/-- The exponent of the first digit, from the greatest power of ten that may be below the float. -/
def leadingExponent (d : Dyadic) : Nat → Int → Int
  | 0, t => t
  | fuel + 1, t => if d.units t = 0 then leadingExponent d fuel (t - 1) else t

/-- The first decimal that reads back, trying ever more digits: the units and their exponent. -/
def shortestFrom (d : Dyadic) (first : Int) : (more : Nat) → (digits : Nat) → Nat × Int
  | 0, digits => let t := first - digits + 1; (d.units t, t)
  | more + 1, digits =>
    let t := first - digits + 1
    let c := d.units t
    match d.holds t c, d.holds t (c + 1) with
    | true, true => (if d.lowerIsNearer t c then c else c + 1, t)
    | true, false => (c, t)
    | false, true => (c + 1, t)
    | false, false => shortestFrom d first more (digits + 1)

def greatest : Int := 308

def shortest (d : Dyadic) : List Char × Int :=
  let first := d.leadingExponent 700 greatest
  let (c, t) := d.shortestFrom first 17 1
  let digits := (toString c).toList
  let exponent := t + digits.length - 1
  ((digits.reverse.dropWhile (· = '0')).reverse, exponent)

end Dyadic

def exponentText (e : Int) : String :=
  let digits := toString e.natAbs
  (if e < 0 then "e-" else "e+") ++ (if digits.length < 2 then "0" ++ digits else digits)

/-- The least exponent of the first digit from which on a number is written with an exponent. -/
def exponentFrom : Int := 6

/-- The greatest exponent of the first digit up to which a number is written with an exponent. -/
def exponentUpTo : Int := -5

/-- Digits with the point behind the one of exponent zero, or with an exponent if that would take
many zeros. -/
def placed (digits : List Char) (exponent : Int) : String :=
  let s := String.ofList
  if exponent ≤ exponentUpTo || exponentFrom ≤ exponent then
    let rest := digits.drop 1
    s (digits.take 1) ++ (if rest.isEmpty then "" else "." ++ s rest) ++ exponentText exponent
  else if exponent < 0 then
    "0." ++ s (List.replicate (exponent.natAbs - 1) '0') ++ s digits
  else
    let whole := exponent.toNat + 1
    let rest := digits.drop whole
    s (digits.take whole) ++ s (List.replicate (whole - digits.length) '0') ++
      (if rest.isEmpty then "" else "." ++ s rest)

def realText (x : Float) : String :=
  match FloatKind.of x with
  | .nan => "NaN"
  | .infinite negative => if negative then "-Inf" else "+Inf"
  | .finite negative d =>
    let body := if d.mantissa = 0 then "0" else
      let (digits, exponent) := d.shortest
      placed digits exponent
    if negative then "-" ++ body else body

end Terakoya.Number
