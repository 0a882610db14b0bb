import Terakoya.Tree

/-! Pieces that both dialects write alike. -/
namespace Terakoya.Emit

def escape : Char → List Char
  | '"' => ['\\', '"']
  | '\\' => ['\\', '\\']
  | '\n' => ['\\', 'n']
  | '\t' => ['\\', 't']
  | '\r' => ['\\', 'r']
  | c => [c]

def quote (s : String) : String := String.ofList ('"' :: s.toList.flatMap escape ++ ['"'])

def indentation (level : Nat) : String := String.ofList (List.replicate (4 * level) ' ')

def parameters (params : List String) : String := ", ".intercalate params

end Terakoya.Emit
