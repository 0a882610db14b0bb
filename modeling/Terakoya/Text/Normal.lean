import Terakoya.Text.Canonical
import Terakoya.Text.WidthFold

/-! The form in which programs are read: composed, with every character in its normal width and
with straight double quotes. -/
namespace Terakoya.Text

def straighten (c : Char) : Char := if c = '“' ∨ c = '”' then '"' else c

def mapChars (f : Char → Char) (t : Text) : Text :=
  t.map fun
    | .char c => .char (f c)
    | .stray b => .stray b

/-- Composes, then folds widths, then straightens quotes. What folding makes is not composed
again. -/
def normalize (t : Text) : Text := mapChars straighten (mapChars foldChar (canonical t))

end Terakoya.Text
