import Terakoya.Source.Cursor
import Terakoya.Text.Normal

/-! Names that a program can refer to. -/
namespace Terakoya

/-- Whether a text, once normalized, is read back whole as one name, unchanged. -/
def isIdentifier (name : Text) : Bool :=
  let (read, next) := (Cursor.start (Text.normalize name)).readIdentifier
  name ≠ [] && Text.ofString read = name && next.atEnd

end Terakoya
