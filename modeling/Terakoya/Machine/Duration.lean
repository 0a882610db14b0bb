/-! Spans of time in nanoseconds, as text. -/
namespace Terakoya.Duration

/-- A number of units with the fraction that is left over, without zeros at its end. -/
def withFraction (n unit : Nat) (digits : Nat) : String :=
  let whole := toString (n / unit)
  let rest := (toString (n % unit)).toList
  let fraction := (List.replicate (digits - rest.length) '0' ++ rest).reverse.dropWhile (· = '0')
  if fraction.isEmpty then whole else whole ++ "." ++ String.ofList fraction.reverse

/-- Hours, minutes and seconds from one second on, and the largest smaller unit below. -/
def renderNat (n : Nat) : String :=
  if n = 0 then "0s"
  else if n < 1000 then toString n ++ "ns"
  else if n < 1000000 then withFraction n 1000 3 ++ "µs"
  else if n < 1000000000 then withFraction n 1000000 6 ++ "ms"
  else
    let minutes := n / 60000000000
    let seconds := withFraction (n % 60000000000) 1000000000 9 ++ "s"
    if minutes = 0 then seconds
    else if minutes < 60 then toString minutes ++ "m" ++ seconds
    else toString (minutes / 60) ++ "h" ++ toString (minutes % 60) ++ "m" ++ seconds

def render (ns : Int) : String :=
  if ns < 0 then "-" ++ renderNat ns.natAbs else renderNat ns.toNat

end Terakoya.Duration
