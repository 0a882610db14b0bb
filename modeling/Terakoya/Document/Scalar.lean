import Terakoya.Document.Spot

/-! The text of a scalar in each of its written forms: plain, in single or double quotes, and as a
block that keeps or folds its lines. -/
namespace Terakoya.Document

/-- White space inside a scalar: blanks within a line, or line breaks with what follows them. -/
structure Gap where
  /-- In reverse. -/
  blanks : List Char := []
  broken : Bool := false
  first : List Char := []
  more : List Char := []

namespace Gap

/-- What a gap stands for. A single newline is a space, and of several the first is dropped. -/
def fold (g : Gap) : List Char :=
  if g.broken then
    if g.first.head? = some '\n' then
      if g.more.isEmpty then [' '] else g.more
    else g.first ++ g.more
  else g.blanks.reverse

/-- Reads white space. After a line break a tab may not stand left of the column `indent`. -/
def read (indent : Nat) : Nat → Gap → Spot → Option (Gap × Spot)
  | 0, g, s => some (g, s)
  | fuel + 1, g, s =>
    match s.rest with
    | [] => some (g, s)
    | c :: _ =>
      if isBlank c then
        if g.broken && s.column < indent && c = '\t' then none
        else read indent fuel (if g.broken then g else { g with blanks := c :: g.blanks }) s.skip
      else if isBreak c then
        let (b, s) := s.readBreak
        read indent fuel
          (if g.broken then { g with more := g.more ++ b } else { broken := true, first := b }) s
      else some (g, s)

end Gap

def isFlowMark (c : Char) : Bool := c = ',' || c = '[' || c = ']' || c = '{' || c = '}'

def plainEnds (inFlow : Bool) : List Char → Bool
  | [] => true
  | c :: rest =>
    atGap (c :: rest) || (c = ':' && atGap rest) ||
      (inFlow && (isFlowMark c || (c = '?' && atGap rest)))

def plainRun (inFlow : Bool) : List Char → Nat
  | [] => 0
  | c :: rest => if plainEnds inFlow (c :: rest) then 0 else plainRun inFlow rest + 1

structure Plain where
  text : List Char := []
  gap : Gap := {}
  spot : Spot

/-- Reads a plain scalar. Outside brackets its later lines stand right of the column `indent`. -/
def Plain.read (inFlow : Bool) (indent : Nat) : Nat → Plain → Option Plain
  | 0, p => some p
  | fuel + 1, p =>
    if p.spot.atSeparator || p.spot.rest.head? = some '#' then some p
    else
      let n := plainRun inFlow p.spot.rest
      let p : Plain :=
        if n = 0 then p
        else ⟨(p.spot.rest.take n).reverse ++ p.gap.fold.reverse ++ p.text, {}, p.spot.skipN n⟩
      match p.spot.rest with
      | [] => some p
      | c :: rest =>
        if isBlank c || isBreak c then
          match Gap.read indent (rest.length + 1) p.gap p.spot with
          | none => none
          | some (gap, spot) =>
            let p := { p with gap, spot }
            if !inFlow && spot.column < indent then some p else Plain.read inFlow indent fuel p
        else some p

def hexDigit? (c : Char) : Option Nat :=
  if '0' ≤ c && c ≤ '9' then some (c.toNat - '0'.toNat)
  else if 'a' ≤ c && c ≤ 'f' then some (c.toNat - 'a'.toNat + 10)
  else if 'A' ≤ c && c ≤ 'F' then some (c.toNat - 'A'.toNat + 10)
  else none

def hexValue? (cs : List Char) : Option Nat :=
  cs.foldlM (fun n c => (hexDigit? c).map (16 * n + ·)) 0

def escape? : Char → Option Char
  | '0' => some '\x00'
  | 'a' => some '\x07'
  | 'b' => some '\x08'
  | 't' | '\t' => some '\t'
  | 'n' => some '\n'
  | 'v' => some '\x0b'
  | 'f' => some '\x0c'
  | 'r' => some '\r'
  | 'e' => some '\x1b'
  | ' ' => some ' '
  | '"' => some '"'
  | '\'' => some '\''
  | '\\' => some '\\'
  | 'N' => some '\u0085'
  | '_' => some '\u00a0'
  | 'L' => some '\u2028'
  | 'P' => some '\u2029'
  | _ => none

def codeLength? : Char → Option Nat
  | 'x' => some 2
  | 'u' => some 4
  | 'U' => some 8
  | _ => none

def escaped? : List Char → Option (Char × Nat)
  | [] => none
  | c :: rest =>
    match codeLength? c with
    | none => (escape? c).map (·, 1)
    | some n =>
      let digits := rest.take n
      if digits.length < n then none
      else
        match hexValue? digits with
        | none => none
        | some v =>
          if (0xD800 ≤ v && v ≤ 0xDFFF) || 0x10FFFF < v then none else some (Char.ofNat v, n + 1)

inductive Stretch where
  | gap
  | joined
  | closed

def quotedRun (quote : Char) : Nat → List Char → Spot → Option (List Char × Stretch × Spot)
  | 0, text, s => some (text, .gap, s)
  | fuel + 1, text, s =>
    match s.rest with
    | [] => some (text, .gap, s)
    | c :: rest =>
      if isBlank c || isBreak c then some (text, .gap, s)
      else if c = quote then
        if quote = '\'' && rest.head? = some '\'' then
          quotedRun quote fuel ('\'' :: text) (s.skipN 2)
        else some (text, .closed, s.skip)
      else if quote = '"' && c = '\\' then
        if !rest.isEmpty && atBreak rest then some (text, .joined, s.skip.readBreak.2)
        else
          match escaped? rest with
          | none => none
          | some (e, n) => quotedRun quote fuel (e :: text) (s.skipN (n + 1))
      else quotedRun quote fuel (c :: text) s.skip

def quotedText (quote : Char) : Nat → List Char → Spot → Option (List Char × Spot)
  | 0, _, _ => none
  | fuel + 1, text, s =>
    if s.atSeparator || s.rest.isEmpty then none
    else
      match quotedRun quote (s.rest.length + 1) text s with
      | none => none
      | some (text, .closed, s) => some (text, s)
      | some (text, stretch, s) =>
        let joined := match stretch with
          | .joined => true
          | _ => false
        if joined && s.rest.head? = some quote then some (text, s.skip)
        else
          match Gap.read 0 (s.rest.length + 1) { broken := joined } s with
          | none => none
          | some (gap, s) => quotedText quote fuel (gap.fold.reverse ++ text) s

inductive Chomp where
  | strip | clip | keep

/-- The marks after the sign of a block: chomping and a given indentation, in either order. -/
def blockMarks (s : Spot) : Option (Chomp × Nat × Spot) :=
  let chomp (s : Spot) : Option (Chomp × Spot) :=
    match s.rest with
    | '+' :: _ => some (.keep, s.skip)
    | '-' :: _ => some (.strip, s.skip)
    | _ => none
  let digit (s : Spot) : Option (Nat × Spot) :=
    match s.rest with
    | c :: _ => if '0' ≤ c && c ≤ '9' then some (c.toNat - '0'.toNat, s.skip) else none
    | [] => none
  let checked (c : Chomp) (d : Option (Nat × Spot)) (s : Spot) : Option (Chomp × Nat × Spot) :=
    match d with
    | none => some (c, 0, s)
    | some (0, _) => none
    | some (n, s) => some (c, n, s)
  match chomp s with
  | some (c, s) => checked c (digit s) s
  | none =>
    match checked .clip (digit s) s with
    | none => none
    | some (_, 0, s) => some (.clip, 0, s)
    | some (_, n, s) =>
      match chomp s with
      | some (c, s) => some (c, n, s)
      | none => some (.clip, n, s)

structure Lead where
  widest : Nat := 0
  breaks : List Char := []
  spot : Spot

/-- Passes indentation and empty lines. With no indentation known yet every space counts as such. -/
def Lead.read (indent : Nat) : Nat → Lead → Option Lead
  | 0, l => some l
  | fuel + 1, l =>
    let room := if indent = 0 then l.spot.rest.length else indent - l.spot.column
    let spaces := ((l.spot.rest.take room).takeWhile (· = ' ')).length
    let spot := l.spot.skipN spaces
    let l := { l with spot, widest := max l.widest spot.column }
    match spot.rest with
    | [] => some l
    | c :: _ =>
      if (indent = 0 || spot.column < indent) && c = '\t' then none
      else if isBreak c then
        let (b, spot) := spot.readBreak
        Lead.read indent fuel { l with breaks := l.breaks ++ b, spot }
      else some l

structure Folding where
  /-- In reverse. -/
  text : List Char := []
  /-- The line break after the last line. -/
  last : List Char := []
  /-- The breaks of the empty lines after it. -/
  breaks : List Char := []
  indented : Bool := false
  spot : Spot

def Folding.read (literal : Bool) (indent : Nat) : Nat → Folding → Option Folding
  | 0, f => some f
  | fuel + 1, f =>
    match f.spot.rest with
    | [] => some f
    | c :: _ =>
      if f.spot.column ≠ indent then some f
      else
        let blank := isBlank c
        let joint :=
          if !literal && !f.indented && !blank && f.last.head? = some '\n' then
            if f.breaks.isEmpty then [' '] else []
          else f.last
        let line := f.spot.rest.takeWhile (fun c => !isBreak c)
        let (last, spot) := (f.spot.skipN line.length).readBreak
        match Lead.read indent (spot.rest.length + 1) { spot } with
        | none => none
        | some lead =>
          Folding.read literal indent fuel
            { text := line.reverse ++ f.breaks.reverse ++ joint.reverse ++ f.text
              last, breaks := lead.breaks, indented := blank, spot := lead.spot }

/-- Reads a block after its sign. `outer` is the column of the collection it stands in, if any. -/
def blockText (literal : Bool) (outer : Option Nat) (s : Spot) : Option (List Char × Spot) := do
  let (chomp, given, s) ← blockMarks s
  let s := s.skipWhile isBlank
  let s := if s.rest.head? = some '#' then s.skipWhile (fun c => !isBreak c) else s
  if !atBreak s.rest then none
  let s := s.readBreak.2
  let indent := if given = 0 then 0 else outer.getD 0 + given
  let lead ← Lead.read indent (s.rest.length + 1) { spot := s }
  let least := match outer with
    | some n => n + 1
    | none => 0
  let indent := if indent = 0 then max (max lead.widest least) 1 else indent
  let f ← Folding.read literal indent (lead.spot.rest.length + 1)
    { breaks := lead.breaks, spot := lead.spot }
  let text := match chomp with
    | .strip => f.text
    | .clip => f.last.reverse ++ f.text
    | .keep => f.breaks.reverse ++ f.last.reverse ++ f.text
  return (text.reverse, f.spot)

end Terakoya.Document
