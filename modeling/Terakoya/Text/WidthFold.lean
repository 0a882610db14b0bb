import Terakoya.Text.CodeMap

/-! Width folding (Unicode 15.0): full-width forms become plain ones, half-width kana,
jamo and symbols become the forms of normal width. -/
namespace Terakoya.Text

open CodeMap (moved)

def foldRuns : CodeMap Run :=
  moved (moved (moved (moved .leaf (0x3000,1,1,0x20) .leaf) (0xFF01,94,1,0x21) (.fifteen moved (0xFF5F,2,1,0x2985)
  (0xFF61,1,1,0x3002) (0xFF62,2,1,0x300C) (0xFF64,1,1,0x3001) (0xFF65,1,1,0x30FB) (0xFF66,1,1,0x30F2)
  (0xFF67,1,1,0x30A1) (0xFF68,1,1,0x30A3) (0xFF69,1,1,0x30A5) (0xFF6A,1,1,0x30A7) (0xFF6B,1,1,0x30A9)
  (0xFF6C,1,1,0x30E3) (0xFF6D,1,1,0x30E5) (0xFF6E,1,1,0x30E7) (0xFF6F,1,1,0x30C3))) (0xFF70,1,1,0x30FC) (.fifteen moved
  (0xFF71,1,1,0x30A2) (0xFF72,1,1,0x30A4) (0xFF73,1,1,0x30A6) (0xFF74,1,1,0x30A8) (0xFF75,2,1,0x30AA)
  (0xFF77,1,1,0x30AD) (0xFF78,1,1,0x30AF) (0xFF79,1,1,0x30B1) (0xFF7A,1,1,0x30B3) (0xFF7B,1,1,0x30B5)
  (0xFF7C,1,1,0x30B7) (0xFF7D,1,1,0x30B9) (0xFF7E,1,1,0x30BB) (0xFF7F,1,1,0x30BD) (0xFF80,1,1,0x30BF)))
  (0xFF81,1,1,0x30C1) (moved (.fifteen moved (0xFF82,1,1,0x30C4) (0xFF83,1,1,0x30C6) (0xFF84,1,1,0x30C8)
  (0xFF85,6,1,0x30CA) (0xFF8B,1,1,0x30D2) (0xFF8C,1,1,0x30D5) (0xFF8D,1,1,0x30D8) (0xFF8E,1,1,0x30DB)
  (0xFF8F,5,1,0x30DE) (0xFF94,1,1,0x30E4) (0xFF95,1,1,0x30E6) (0xFF96,6,1,0x30E8) (0xFF9C,1,1,0x30EF)
  (0xFF9D,1,1,0x30F3) (0xFF9E,2,1,0x3099)) (0xFFA0,1,1,0x3164) (.fifteen moved (0xFFA1,30,1,0x3131) (0xFFC2,6,1,0x314F)
  (0xFFCA,6,1,0x3155) (0xFFD2,6,1,0x315B) (0xFFDA,3,1,0x3161) (0xFFE0,2,1,0xA2) (0xFFE2,1,1,0xAC) (0xFFE3,1,1,0xAF)
  (0xFFE4,1,1,0xA6) (0xFFE5,1,1,0xA5) (0xFFE6,1,1,0x20A9) (0xFFE8,1,1,0x2502) (0xFFE9,4,1,0x2190) (0xFFED,1,1,0x25A0)
  (0xFFEE,1,1,0x25CB)))

def foldChar (c : Char) : Char := foldRuns.shift c

end Terakoya.Text
