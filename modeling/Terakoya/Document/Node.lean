import Terakoya.Document.Token

/-! The tree of a YAML document, built from its tokens. -/
namespace Terakoya.Document

inductive Node where
  | scalar (line : Nat) (tag : Option String) (plain : Bool) (text : String)
  | sequence (line : Nat) (items : List Node)
  | mapping (line : Nat) (entries : List (Node × Node))
  | reference (line : Nat) (name : String) (target : Node)

namespace Node

def line : Node → Nat
  | scalar l _ _ _ => l
  | sequence l _ => l
  | mapping l _ => l
  | reference l _ _ => l

def keyText : Node → String
  | scalar _ _ _ text => text
  | reference _ name _ => name
  | _ => ""

def missing (line : Nat) : Node := scalar line none true ""

end Node

/-- What is left of a document, and the anchors met: an anchor has no node before its end. -/
structure Build where
  tokens : Tokens
  anchors : List (String × Option Node) := []

namespace Build

/-- The next token. Two tokens more have to be readable behind it. -/
def peek? (b : Build) : Option Lexeme :=
  match b.tokens.rest with
  | t :: more => if b.tokens.cut && more.length < 2 then none else some t
  | [] => none

def skip (b : Build) : Build := { b with tokens := { b.tokens with rest := b.tokens.rest.tail } }

def mark (b : Build) (name : Option String) : Build :=
  match name with
  | some name => { b with anchors := (name, none) :: b.anchors }
  | none => b

def settle (name : String) (node : Node) : List (String × Option Node) → List (String × Option Node)
  | [] => []
  | (key, some known) :: rest => (key, some known) :: settle name node rest
  | (key, none) :: rest =>
    if key = name then (key, some node) :: rest else (key, none) :: settle name node rest

def close (b : Build) (name : Option String) (node : Node) : Build :=
  match name with
  | some name => { b with anchors := settle name node b.anchors }
  | none => b

end Build

structure Properties where
  line : Nat
  anchor : Option String := none
  tag : Option String := none

def tagOf? (handle suffix : String) : Option String :=
  if handle = "!!" then some ("!!" ++ suffix)
  else if handle = "!" then some ("!" ++ suffix)
  else if handle = "" then
    let long := "tag:yaml.org,2002:"
    some (if long.isPrefixOf suffix then "!!" ++ suffix.drop long.length else suffix)
  else none

namespace Build

def properties (b : Build) : Option (Properties × Build) := do
  let first ← b.peek?
  match first.token with
  | .anchor name =>
    let b := b.skip
    let next ← b.peek?
    match next.token with
    | .tag handle suffix => return ({ line := first.line, anchor := name, tag := ← tagOf? handle suffix }, b.skip)
    | _ => return ({ line := first.line, anchor := name }, b)
  | .tag handle suffix =>
    let tag ← tagOf? handle suffix
    let b := b.skip
    let next ← b.peek?
    match next.token with
    | .anchor name => return ({ line := first.line, anchor := name, tag }, b.skip)
    | _ => return ({ line := first.line, tag }, b)
  | _ => return ({ line := first.line }, b)

/-- Reads a node; the flags tell whether blocks are open to it, and whether the entries of a sequence
may stand at the column of the mapping it is in. -/
abbrev Child := (block indentless : Bool) → Build → Option (Node × Build)

def optional (child : Build → Option (Node × Build)) (ends : List Token) (line : Nat) (b : Build) :
    Option (Node × Build) := do
  let t ← b.peek?
  if ends.contains t.token then return (.missing line, b) else child b

def blockItems (child : Child) : Nat → Build → Option (List Node × Build)
  | 0, _ => none
  | fuel + 1, b => do
    let t ← b.peek?
    match t.token with
    | .entry =>
      let (item, b) ← optional (child true false) [.entry, .blockClose] t.line b.skip
      let (items, b) ← blockItems child fuel b
      return (item :: items, b)
    | .blockClose => return ([], b.skip)
    | _ => none

def indentlessItems (child : Child) : Nat → Build → Option (List Node × Build)
  | 0, _ => none
  | fuel + 1, b => do
    let t ← b.peek?
    match t.token with
    | .entry =>
      let (item, b) ← optional (child true false) [.entry, .key, .value, .blockClose] t.line b.skip
      let (items, b) ← indentlessItems child fuel b
      return (item :: items, b)
    | _ => return ([], b)

def entryValue (child : Build → Option (Node × Build)) (ends : List Token) (b : Build) :
    Option (Node × Build) := do
  let t ← b.peek?
  match t.token with
  | .value => optional child ends t.line b.skip
  | _ => return (.missing t.line, b)

def blockEntries (child : Child) : Nat → Build → Option (List (Node × Node) × Build)
  | 0, _ => none
  | fuel + 1, b => do
    let t ← b.peek?
    let ends := [Token.key, .value, .blockClose]
    match t.token with
    | .key =>
      let (key, b) ← optional (child true true) ends t.line b.skip
      let (value, b) ← entryValue (child true true) ends b
      let (entries, b) ← blockEntries child fuel b
      return ((key, value) :: entries, b)
    | .blockClose => return ([], b.skip)
    | _ => none

def commaUnless (first : Bool) (b : Build) : Option Build := do
  if first then return b
  let t ← b.peek?
  if t.token = .comma then return b.skip else none

/-- The items of a sequence in brackets. An item with a colon is a mapping of one entry. -/
def flowItems (child : Child) : Nat → Bool → Build → Option (List Node × Build)
  | 0, _, _ => none
  | fuel + 1, first, b => do
    let t ← b.peek?
    if t.token = .bracketClose then return ([], b.skip)
    let b ← b.commaUnless first
    let t ← b.peek?
    match t.token with
    | .bracketClose => return ([], b.skip)
    | .key =>
      let ends := [Token.comma, .bracketClose]
      let (key, b) ← optional (child false false) (.value :: ends) t.line b.skip
      let (value, b) ← entryValue (child false false) ends b
      let (items, b) ← flowItems child fuel false b
      return (.mapping t.line [(key, value)] :: items, b)
    | _ =>
      let (item, b) ← child false false b
      let (items, b) ← flowItems child fuel false b
      return (item :: items, b)

def flowEntries (child : Child) : Nat → Bool → Build → Option (List (Node × Node) × Build)
  | 0, _, _ => none
  | fuel + 1, first, b => do
    let t ← b.peek?
    if t.token = .braceClose then return ([], b.skip)
    let b ← b.commaUnless first
    let t ← b.peek?
    match t.token with
    | .braceClose => return ([], b.skip)
    | .key =>
      let ends := [Token.comma, .braceClose]
      let (key, b) ← optional (child false false) (.value :: ends) t.line b.skip
      let (value, b) ← entryValue (child false false) ends b
      let (entries, b) ← flowEntries child fuel false b
      return ((key, value) :: entries, b)
    | _ =>
      let (key, b) ← child false false b
      let (entries, b) ← flowEntries child fuel false b
      return ((key, .missing t.line) :: entries, b)

def node : Nat → Child
  | 0, _, _, _ => none
  | depth + 1, block, indentless, b => do
    let first ← b.peek?
    match first.token with
    | .reference name =>
      match b.anchors.lookup name with
      | some (some target) => return (.reference first.line name target, b.skip)
      | _ => none
    | _ =>
      let (p, b) ← b.properties
      let t ← b.peek?
      let fuel := b.tokens.rest.length + 1
      let child := node depth
      let opened := b.mark p.anchor
      let sequence (r : List Node × Build) : Node × Build :=
        let n := Node.sequence p.line r.1
        (n, r.2.close p.anchor n)
      let mapping (r : List (Node × Node) × Build) : Node × Build :=
        let n := Node.mapping p.line r.1
        (n, r.2.close p.anchor n)
      let scalar (plain : Bool) (text : String) (b : Build) : Node × Build :=
        let n := Node.scalar p.line p.tag plain text
        (n, b.close p.anchor n)
      match t.token with
      | .entry =>
        if indentless then return sequence (← indentlessItems child fuel opened)
        else if p.anchor.isSome || p.tag.isSome then return scalar true "" opened
        else none
      | .scalar text plain => return scalar plain text opened.skip
      | .bracketOpen => return sequence (← flowItems child fuel true opened.skip)
      | .braceOpen => return mapping (← flowEntries child fuel true opened.skip)
      | .sequenceOpen =>
        if block then return sequence (← blockItems child fuel opened.skip)
        else if p.anchor.isSome || p.tag.isSome then return scalar true "" opened
        else none
      | .mappingOpen =>
        if block then return mapping (← blockEntries child fuel opened.skip)
        else if p.anchor.isSome || p.tag.isSome then return scalar true "" opened
        else none
      | _ => if p.anchor.isSome || p.tag.isSome then return scalar true "" opened else none

end Build

inductive First where
  | absent
  | malformed
  | root (n : Node)

def Build.document (b : Build) : Nat → Option (Option Node)
  | 0 => none
  | fuel + 1 => do
    let t ← b.peek?
    match t.token with
    | .streamEnd => return none
    | .directive =>
      let next ← b.skip.peek?
      match next.token with
      | .documentStart => Build.document b.skip fuel
      | _ => none
    | .documentStart =>
      let b := b.skip
      let t ← b.peek?
      if [Token.directive, .documentStart, .documentEnd, .streamEnd].contains t.token then
        return some (.missing t.line)
      content b
    | _ => content b
where
  content (b : Build) : Option (Option Node) := do
    let (n, b) ← Build.node (b.tokens.rest.length + 1) true false b
    let _ ← b.peek?
    return some n

def first (t : Text) : First :=
  match Tokens.ofText? t with
  | none => .malformed
  | some tokens =>
    match Build.document { tokens } 3 with
    | none => .malformed
    | some none => .absent
    | some (some n) => .root n

end Terakoya.Document
