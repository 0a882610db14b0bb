import Terakoya.Text.CodeMap

/-! Characters that take two cells of a terminal (East Asian wide and full-width,
Unicode 15.0). -/
namespace Terakoya.Text

open CodeMap (ranged)

def wides : CodeMap Unit :=
  ranged (ranged (ranged (ranged (ranged .leaf (0x1100,96) .leaf) (0x231A,2) (.seven ranged (0x2329,2) (0x23E9,4)
  (0x23F0,1) (0x23F3,1) (0x25FD,2) (0x2614,2) (0x2648,12))) (0x267F,1) (.fifteen ranged (0x2693,1) (0x26A1,1) (0x26AA,2)
  (0x26BD,2) (0x26C4,2) (0x26CE,1) (0x26D4,1) (0x26EA,1) (0x26F2,2) (0x26F5,1) (0x26FA,1) (0x26FD,1) (0x2705,1)
  (0x270A,2) (0x2728,1))) (0x274C,1) (ranged (.fifteen ranged (0x274E,1) (0x2753,3) (0x2757,1) (0x2795,3) (0x27B0,1)
  (0x27BF,1) (0x2B1B,2) (0x2B50,1) (0x2B55,1) (0x2E80,26) (0x2E9B,89) (0x2F00,214) (0x2FF0,12) (0x3000,63) (0x3041,86))
  (0x3099,103) (.fifteen ranged (0x3105,43) (0x3131,94) (0x3190,84) (0x31F0,47) (0x3220,40) (0x3250,7024) (0x4E00,22157)
  (0xA490,55) (0xA960,29) (0xAC00,11172) (0xF900,512) (0xFE10,10) (0xFE30,35) (0xFE54,19) (0xFE68,4)))) (0xFF01,96)
  (ranged (ranged (.fifteen ranged (0xFFE0,7) (0x16FE0,5) (0x16FF0,2) (0x17000,6136) (0x18800,1238) (0x18D00,9)
  (0x1AFF0,4) (0x1AFF5,7) (0x1AFFD,2) (0x1B000,291) (0x1B132,1) (0x1B150,3) (0x1B155,1) (0x1B164,4) (0x1B170,396))
  (0x1F004,1) (.fifteen ranged (0x1F0CF,1) (0x1F18E,1) (0x1F191,10) (0x1F200,3) (0x1F210,44) (0x1F240,9) (0x1F250,2)
  (0x1F260,6) (0x1F300,33) (0x1F32D,9) (0x1F337,70) (0x1F37E,22) (0x1F3A0,43) (0x1F3CF,5) (0x1F3E0,17))) (0x1F3F4,1)
  (ranged (.fifteen ranged (0x1F3F8,71) (0x1F440,1) (0x1F442,187) (0x1F4FF,63) (0x1F54B,4) (0x1F550,24) (0x1F57A,1)
  (0x1F595,2) (0x1F5A4,1) (0x1F5FB,85) (0x1F680,70) (0x1F6CC,1) (0x1F6D0,3) (0x1F6D5,3) (0x1F6DC,4)) (0x1F6EB,2)
  (.fifteen ranged (0x1F6F4,9) (0x1F7E0,12) (0x1F7F0,1) (0x1F90C,47) (0x1F93C,10) (0x1F947,185) (0x1FA70,13) (0x1FA80,9)
  (0x1FA90,46) (0x1FABF,7) (0x1FACE,14) (0x1FAE0,9) (0x1FAF0,9) (0x20000,65534) (0x30000,65534))))

def isWide (c : Char) : Bool := wides.contains c.toNat

end Terakoya.Text
