import Terakoya.Document.Node
import Terakoya.Number.Real

/-! What a scalar stands for: nothing, a truth value, a number, a date or a text. -/
namespace Terakoya.Document

inductive Content where
  | null
  | bool (b : Bool)
  | int (n : Int)
  | float (x : Float)
  | timestamp
  /-- The key under which a mapping takes over the entries of another. -/
  | merge
  | text

namespace Content

def tag : Content → String
  | null => "!!null"
  | bool _ => "!!bool"
  | int _ => "!!int"
  | float _ => "!!float"
  | timestamp => "!!timestamp"
  | merge => "!!merge"
  | text => "!!str"

def ofWord? (s : String) : Option Content :=
  if ["", "~", "null", "Null", "NULL"].contains s then some null
  else if ["true", "True", "TRUE"].contains s then some (bool true)
  else if ["false", "False", "FALSE"].contains s then some (bool false)
  else if [".nan", ".NaN", ".NAN"].contains s then some (float (0.0 / 0.0))
  else if [".inf", ".Inf", ".INF", "+.inf", "+.Inf", "+.INF"].contains s then
    some (float (1.0 / 0.0))
  else if ["-.inf", "-.Inf", "-.INF"].contains s then some (float (-1.0 / 0.0))
  else if s = "<<" then some merge
  else none

end Content

namespace Calendar

def isDigit (c : Char) : Bool := '0' ≤ c && c ≤ '9'

def short? : List Char → Option (Nat × List Char)
  | [] => none
  | a :: rest =>
    if !isDigit a then none
    else
      let n := a.toNat - '0'.toNat
      match rest with
      | b :: after => if isDigit b then some (10 * n + (b.toNat - '0'.toNat), after) else some (n, rest)
      | [] => some (n, [])

def expect (c : Char) : List Char → Option (List Char)
  | [] => none
  | d :: rest => if c = d then some rest else none

def isLeap (year : Nat) : Bool := year % 4 = 0 && (year % 100 ≠ 0 || year % 400 = 0)

def daysIn (year month : Nat) : Nat :=
  if month = 2 then if isLeap year then 29 else 28
  else if [4, 6, 9, 11].contains month then 30
  else 31

def date? (cs : List Char) : Option (List Char) := do
  let digits := cs.takeWhile isDigit
  if digits.length ≠ 4 then none
  let year ← Number.digitsFrom? 10 0 digits
  let (month, cs) ← short? (← expect '-' (cs.drop 4))
  if month = 0 || 12 < month then none
  let (day, cs) ← short? (← expect '-' cs)
  if day = 0 || daysIn year month < day then none
  return cs

def time? (cs : List Char) : Option (List Char) := do
  let (hour, cs) ← short? cs
  let (minute, cs) ← short? (← expect ':' cs)
  let (second, cs) ← short? (← expect ':' cs)
  if 24 ≤ hour || 60 ≤ minute || 60 ≤ second then none
  match cs with
  | point :: c :: rest =>
    if (point = '.' || point = ',') && isDigit c then return rest.dropWhile isDigit else return cs
  | _ => return cs

def isZone : List Char → Bool
  | ['Z'] => true
  | [s, a, b, ':', c, d] =>
    (s = '+' || s = '-') && [a, b, c, d].all isDigit &&
      (Number.digitsFrom? 10 0 [a, b]).any (· ≤ 24) && (Number.digitsFrom? 10 0 [c, d]).any (· ≤ 60)
  | _ => false

def isTimestamp (cs : List Char) : Bool :=
  match date? cs with
  | none => false
  | some [] => true
  | some (c :: rest) =>
    if c = 'T' || c = 't' then (time? rest).any isZone
    else if c = ' ' then (time? (rest.dropWhile (· = ' '))).any List.isEmpty
    else false

end Calendar

namespace Content

def isSigned (cs : List Char) : Bool := cs.head?.any fun c => c = '+' || c = '-'

def fitting? (cs : List Char) (n : Option Int) : Option Int :=
  n.filter fun n =>
    Number.leastSigned ≤ n &&
      n ≤ (if isSigned cs then Number.greatestSigned else Number.greatestUnsigned)

/-- A whole number. Behind `0b` and `0o` a sign may stand. -/
def whole? (cs : List Char) : Option Int :=
  match fitting? cs (Number.literal? cs) with
  | some n => some n
  | none =>
    match cs with
    | '0' :: 'b' :: digits => fitting? digits (Number.inBase? 2 digits)
    | '0' :: 'o' :: digits => fitting? digits (Number.inBase? 8 digits)
    | _ => none

/-- Whether a text is a decimal number with an optional fraction and an optional exponent. -/
def isDecimal (cs : List Char) : Bool :=
  let body := (Number.sign cs).2
  let whole := body.takeWhile Calendar.isDigit
  let after := body.drop whole.length
  let fraction := match after with
    | '.' :: rest => rest.takeWhile Calendar.isDigit
    | _ => []
  let after := match after with
    | '.' :: rest => rest.drop fraction.length
    | _ => after
  (!whole.isEmpty || !fraction.isEmpty) &&
    match after with
    | [] => true
    | e :: power =>
      let digits := (Number.sign power).2
      (e = 'e' || e = 'E') && !digits.isEmpty && digits.all Calendar.isDigit

def real? (cs : List Char) : Option Content :=
  match Number.real cs with
  | .ok x => some (float x)
  | .error _ => none

/-- What a text that begins like a number stands for; underscores in it count for nothing. -/
def number? (cs : List Char) : Option Content :=
  if Calendar.isTimestamp cs then some timestamp
  else
    let plain := cs.filter (· ≠ '_')
    match whole? plain with
    | some n => some (int n)
    | none => if isDecimal plain then real? plain else none

def ofPlain (s : String) : Content :=
  match ofWord? s with
  | some c => c
  | none =>
    match s.toList with
    | [] => null
    | c :: rest =>
      if c = '.' then (real? (c :: rest)).getD text
      else if c = '+' || c = '-' || Calendar.isDigit c then (number? (c :: rest)).getD text
      else text

end Content

def scalarTag (tag : Option String) (plain : Bool) (s : String) : String :=
  match tag with
  | some t => if t ≠ "!" then t else if plain then (Content.ofPlain s).tag else "!!str"
  | none => if plain then (Content.ofPlain s).tag else "!!str"

/-- What a scalar stands for; nothing if it cannot stand for what its tag says. A whole number can
stand for a float. -/
def content? (tag : Option String) (plain : Bool) (s : String) : Option Content :=
  let known := scalarTag tag plain s
  if known = "!!str" then some .text
  else
    match Content.ofPlain s with
    | .int n =>
      if known = "!!int" then some (.int n)
      else if known = "!!float" then
        some (.float (if n < 0 then -(Number.nearestDecimal n.natAbs 0) else Number.nearestDecimal n.natAbs 0))
      else none
    | c => if c.tag = known then some c else none

end Terakoya.Document
