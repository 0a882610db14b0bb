import Terakoya.Text.CombiningClass
import Terakoya.Text.Decomposition

/-! How many combining marks a character begins and ends with once it is taken apart,
compatibility forms included (Unicode 15.0). Characters that join with the one before
them count as marks. -/
namespace Terakoya.Text

open CodeMap (ranged valued)

def attached : CodeMap Unit :=
  ranged (.seven ranged (0x9BE,1) (0x9D7,1) (0xB3E,1) (0xB56,2) (0xBBE,1) (0xBD7,1) (0xCC2,1)) (0xCD5,2) (ranged
  (.fifteen ranged (0xD3E,1) (0xD57,1) (0xDCF,1) (0xDDF,1) (0x102E,1) (0x1161,21) (0x11A8,27) (0x1B35,1) (0x11127,1)
  (0x1133E,1) (0x11357,1) (0x114B0,1) (0x114BA,1) (0x114BD,1) (0x115AF,1)) (0x11930,1) .leaf)

def isMark (c : Char) : Bool := combiningClass c ≠ 0 || attached.contains c.toNat

/-- Leading and trailing marks of the forms for compatibility, which have other parts. -/
def compatible : CodeMap (Nat × Nat) :=
  valued (valued (valued (.three valued (0xA8,1,0,1) (0xAF,1,0,1) (0xB4,1,0,1)) (0xB8,1,0,1) (.seven valued
  (0x1C4,3,0,1) (0x2D8,6,0,1) (0x37A,1,0,1) (0x384,1,0,1) (0x385,1,0,2) (0xF77,1,0,2) (0xF79,1,0,2))) (0x1FBD,1,0,1)
  (.fifteen valued (0x1FBF,2,0,1) (0x1FC1,1,0,2) (0x1FCD,3,0,2) (0x1FDD,3,0,2) (0x1FED,2,0,2) (0x1FFD,2,0,1)
  (0x2017,1,0,1) (0x203E,1,0,1) (0x309B,2,0,1) (0x3133,1,1,1) (0x3135,2,1,1) (0x313A,6,1,1) (0x314F,21,1,1)
  (0x326E,17,0,1) (0x3304,1,0,1))) (0x3307,1,0,1) (valued (.fifteen valued (0x3310,1,0,1) (0x331E,1,0,1) (0x3321,1,0,1)
  (0x3332,1,0,1) (0x333B,1,0,1) (0x3340,1,0,1) (0x334B,1,0,1) (0x334E,1,0,1) (0xFBA4,2,0,1) (0xFBB0,2,0,1)
  (0xFC5B,3,0,1) (0xFC5E,6,0,2) (0xFC90,1,0,1) (0xFCD9,1,0,1) (0xFCF2,3,0,2)) (0xFD3C,2,0,1) (valued (.fifteen valued
  (0xFE49,4,0,1) (0xFE70,3,0,1) (0xFE74,1,0,1) (0xFE76,10,0,1) (0xFE81,12,0,1) (0xFEF5,6,0,1) (0xFF9E,2,1,1)
  (0xFFA3,1,1,1) (0xFFA5,2,1,1) (0xFFAA,6,1,1) (0xFFC2,6,1,1) (0xFFCA,6,1,1) (0xFFD2,6,1,1) (0xFFDA,3,1,1)
  (0xFFE3,1,0,1)) (0x1F213,1,0,1) .leaf))

def markCounts (c : Char) : Nat × Nat :=
  match compatible.value? c.toNat with
  | some counts => counts
  | none =>
    let parts := (decompositions.value? c.toNat).getD [c]
    ((parts.takeWhile isMark).length, (parts.reverse.takeWhile isMark).length)

end Terakoya.Text
