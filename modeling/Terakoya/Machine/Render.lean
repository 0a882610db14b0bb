import Terakoya.Machine.Value
import Terakoya.Text.Quoted

/-! Values as text. A sequence that is met again inside itself is shown as `[...]`. -/
namespace Terakoya
namespace Heap

def char? (n : Int) : Option Char :=
  if 0 ≤ n ∧ n.toNat.isValidChar then some (Char.ofNat n.toNat) else none

def showFunction (f : Function) : String :=
  "<function " ++ f.name.getD "anonymous" ++ "(" ++ ", ".intercalate f.params ++ ")>"

/-- An element of a text: the character it is the code point of, or the literal of the value. -/
def showElement (literal : Value → String) : Value → String
  | .int n =>
    match char? n with
    | some c => String.singleton c
    | none => literal (.int n)
  | v => literal v

/-- The literal of a value inside the sequences on `path`, going down at most `depth` sequences. -/
def literalAt (h : Heap) : (depth : Nat) → (path : List Nat) → Value → String
  | _, _, .int n => toString n
  | _, _, .null => "?"
  | _, _, .fn id =>
    match h.functions[id]? with
    | some f => showFunction f
    | none => ""
  | 0, _, .seq _ => "[...]"
  | depth + 1, path, .seq id =>
    if id ∈ path then "[...]"
    else
      match h.sequences[id]? with
      | none => ""
      | some s =>
        let inner := literalAt h depth (id :: path)
        if s.isText then
          Text.quoted (Text.ofString (String.join (s.elements.toList.map (showElement inner))))
        else "[" ++ ", ".intercalate (s.elements.toList.map inner) ++ "]"

/-- The literal of a value: texts in quotes, lists in brackets. No path is longer than the number of
sequences. -/
def literal (h : Heap) (v : Value) : String := h.literalAt (h.sequences.size + 1) [] v

/-- A value as it is printed: a text as its characters, anything else as its literal. -/
def printed (h : Heap) (v : Value) : String :=
  match v with
  | .seq id =>
    match h.sequences[id]? with
    | some s =>
      if s.isText then
        String.join (s.elements.toList.map
          (showElement (h.literalAt h.sequences.size [id])))
      else h.literal v
    | none => h.literal v
  | _ => h.literal v

def shownLength : Nat := 40

def describe (h : Heap) (v : Value) : String :=
  let cs := (h.literal v).toList
  if shownLength < cs.length then String.ofList (cs.take shownLength) ++ "…" else String.ofList cs

def typeWord (h : Heap) : Value → String
  | .int _ => "integer"
  | .null => "?"
  | .seq id =>
    match h.sequences[id]? with
    | some s => if s.isText then "text" else "sequence"
    | none => "sequence"
  | .fn _ => "function"

end Heap

def Value.typeName : Value → String
  | .int _ => "INTEGER"
  | .null => "NULL"
  | .seq _ => "SEQUENCE"
  | .fn _ => "FUNCTION"

end Terakoya
