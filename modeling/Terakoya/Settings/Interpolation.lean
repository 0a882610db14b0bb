import Terakoya.Text.Glyph

/-! Variables in a text: `${NAME}` and `${NAME:-FALLBACK}` are replaced in one pass from left to
right. What is put in is not looked at again, and anything else stays as it is. -/
namespace Terakoya.Interpolation

structure Variable where
  name : Text
  /-- Empty if there is none. -/
  fallback : Text
  deriving DecidableEq

def inName (g : Glyph) : Bool := !g.is '}' && !g.is ':'

def inFallback (g : Glyph) : Bool := !g.is '}'

def occurrence? : Text → Option (Variable × Nat)
  | .char '$' :: .char '{' :: rest =>
    let name := rest.takeWhile inName
    if name.isEmpty then none
    else
      match rest.drop name.length with
      | .char '}' :: _ => some (⟨name, []⟩, name.length + 3)
      | .char ':' :: .char '-' :: more =>
        let fallback := more.takeWhile inFallback
        match more.drop fallback.length with
        | .char '}' :: _ => some (⟨name, fallback⟩, name.length + fallback.length + 5)
        | _ => none
      | _ => none
  | _ => none

def Variable.value (lookup : Text → Text) (v : Variable) : Text :=
  let value := lookup v.name
  if value.isEmpty then v.fallback else value

/-- Replaces variables in a text whose first `skip` glyphs belong to an occurrence already replaced. -/
def after (lookup : Text → Text) : (skip : Nat) → Text → Text
  | _, [] => []
  | skip + 1, _ :: rest => after lookup skip rest
  | 0, g :: rest =>
    match occurrence? (g :: rest) with
    | some (v, length) => v.value lookup ++ after lookup (length - 1) rest
    | none => g :: after lookup 0 rest

/-- Stray bytes that come to stand side by side may make up a character. -/
def expand (lookup : Text → Text) (t : Text) : Text := Text.decode (Text.encode (after lookup 0 t))

/-- Variables whose names and values are strings: a name with a stray byte is the name of none. -/
def ofStrings (lookup : String → String) (name : Text) : Text :=
  if name = Text.ofString (Text.toString name) then Text.ofString (lookup (Text.toString name)) else []

def interpolate (lookup : String → String) (t : Text) : Text := expand (ofStrings lookup) t

end Terakoya.Interpolation
