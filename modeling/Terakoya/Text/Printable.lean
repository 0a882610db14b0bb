import Terakoya.Text.Letter

/-! Characters that are shown as themselves inside quotes: letters, marks, numbers,
punctuation, symbols and the plain space (Unicode 17.0). -/
namespace Terakoya.Text

open CodeMap (ranged)

def printablesFrom0020 : CodeMap Unit :=
  ranged (ranged (ranged (ranged (ranged .leaf (0x20,95) .leaf) (0xA1,12) (.fifteen ranged (0xAE,714) (0x37A,6)
  (0x384,7) (0x3A3,397) (0x559,50) (0x58D,3) (0x591,55) (0x5EF,6) (0x606,22) (0x61D,192) (0x6DE,48) (0x710,59)
  (0x74D,101) (0x7C0,59) (0x7FD,49))) (0x830,15) (ranged (.fifteen ranged (0x840,28) (0x85E,1) (0x870,32) (0x897,75)
  (0x8E3,161) (0x9BC,9) (0x9C7,2) (0x9CB,4) (0x9D7,1) (0x9DF,5) (0x9E6,25) (0xA01,3) (0xA3C,1) (0xA3E,5) (0xA47,2))
  (0xA4B,3) (.fifteen ranged (0xA51,1) (0xA66,17) (0xA81,3) (0xABC,10) (0xAC7,3) (0xACB,3) (0xAE0,4) (0xAE6,12)
  (0xAF9,7) (0xB01,3) (0xB3C,9) (0xB47,2) (0xB4B,3) (0xB55,3) (0xB5F,5)))) (0xB66,18) (ranged (.fifteen ranged (0xB82,2)
  (0xBBE,5) (0xBC6,3) (0xBCA,4) (0xBD7,1) (0xBE6,21) (0xC00,13) (0xC3C,9) (0xC46,3) (0xC4A,4) (0xC55,2) (0xC60,4)
  (0xC66,10) (0xC77,22) (0xCBC,9)) (0xCC6,3) (ranged (.fifteen ranged (0xCCA,4) (0xCD5,2) (0xCE0,4) (0xCE6,10) (0xCF1,3)
  (0xD00,13) (0xD12,51) (0xD46,3) (0xD4A,6) (0xD54,16) (0xD66,26) (0xD81,3) (0xDCA,1) (0xDCF,6) (0xDD6,1)) (0xDD8,8)
  (.fifteen ranged (0xDE6,10) (0xDF2,3) (0xE01,58) (0xE3F,29) (0xEA7,23) (0xEC8,7) (0xED0,10) (0xF00,72) (0xF71,39)
  (0xF99,36) (0xFBE,15) (0xFCE,13) (0x1000,198) (0x10D0,377) (0x135D,32))))) (0x1380,26) (ranged (ranged
  (.fifteen ranged (0x1400,640) (0x1681,28) (0x16A0,89) (0x1700,22) (0x171F,24) (0x1740,20) (0x1772,2) (0x1780,94)
  (0x17E0,10) (0x17F0,10) (0x1800,14) (0x180F,11) (0x1880,43) (0x1920,12) (0x1930,12)) (0x1940,1) (ranged
  (.fifteen ranged (0x1944,42) (0x19D0,11) (0x19DE,62) (0x1A1E,65) (0x1A60,29) (0x1A7F,11) (0x1A90,10) (0x1AA0,14)
  (0x1AB0,46) (0x1AE0,12) (0x1B00,77) (0x1B4E,166) (0x1BFC,60) (0x1C3B,15) (0x1C4D,62)) (0x1CBD,11) (.fifteen ranged
  (0x1CD0,43) (0x1D00,534) (0x1FB6,15) (0x1FC6,14) (0x1FDD,19) (0x1FF6,9) (0x2010,24) (0x2030,47) (0x2070,2) (0x2074,27)
  (0x20A0,34) (0x20D0,33) (0x2100,140) (0x2190,666) (0x2440,11)))) (0x2460,1812) (ranged (ranged (.fifteen ranged
  (0x2B76,382) (0x2CF9,45) (0x2D6F,2) (0x2D7F,24) (0x2DE0,126) (0x2E80,26) (0x2E9B,89) (0x2F00,214) (0x2FF0,16)
  (0x3001,63) (0x3099,103) (0x3190,86) (0x31EF,48) (0x3220,29293) (0xA490,55)) (0xA4D0,348) (.fifteen ranged
  (0xA640,184) (0xA700,221) (0xA7F1,60) (0xA830,10) (0xA840,56) (0xA880,70) (0xA8CE,12) (0xA8E0,116) (0xA95F,30)
  (0xA980,78) (0xA9CF,11) (0xA9DE,33) (0xAA00,55) (0xAA40,14) (0xAA50,10))) (0xAA5C,103) (ranged (.fifteen ranged
  (0xAADB,28) (0xAB30,60) (0xAB70,126) (0xABF0,10) (0xFB1D,26) (0xFB46,650) (0xFDF0,42) (0xFE20,51) (0xFE54,19)
  (0xFE68,4) (0xFF01,190) (0xFFE0,7) (0xFFE8,7) (0xFFFC,2) (0x10100,3)) (0x10107,45) (.fifteen ranged (0x10137,88)
  (0x10190,13) (0x101A0,1) (0x101D0,46) (0x102E0,28) (0x10300,36) (0x1032D,30) (0x10350,43) (0x1039F,37) (0x103C8,14)
  (0x104A0,10) (0x1056F,12) (0x10857,72) (0x108A7,9) (0x108FB,33)))))

def printablesFrom1093F : CodeMap Unit :=
  ranged (ranged (ranged (.fifteen ranged (0x1093F,27) (0x109BC,20) (0x109D2,50) (0x10A05,2) (0x10A0C,8) (0x10A38,3)
  (0x10A3F,10) (0x10A50,9) (0x10A60,64) (0x10AC0,39) (0x10AEB,12) (0x10B39,29) (0x10B58,27) (0x10B78,26) (0x10B99,4))
  (0x10BA9,7) (ranged (.fifteen ranged (0x10CFA,46) (0x10D30,10) (0x10D40,38) (0x10D69,29) (0x10D8E,2) (0x10E60,31)
  (0x10EAB,3) (0x10ED0,9) (0x10EFA,46) (0x10F30,42) (0x10F70,26) (0x10FB0,28) (0x11000,78) (0x11052,36) (0x1107F,62))
  (0x110BE,5) (.fifteen ranged (0x110F0,10) (0x11100,53) (0x11136,18) (0x11150,39) (0x11180,96) (0x111E1,20)
  (0x11213,47) (0x1129F,11) (0x112B0,59) (0x112F0,10) (0x11300,4) (0x1133B,10) (0x11347,2) (0x1134B,3) (0x11357,1))))
  (0x1135D,7) (ranged (.fifteen ranged (0x11366,7) (0x11370,5) (0x113B7,10) (0x113C2,1) (0x113C5,1) (0x113C7,4)
  (0x113CC,10) (0x113D7,2) (0x113E1,2) (0x11400,92) (0x1145D,5) (0x11480,72) (0x114D0,10) (0x11580,54) (0x115B8,38))
  (0x11600,69) (ranged (.fifteen ranged (0x11650,10) (0x11660,13) (0x11680,58) (0x116C0,10) (0x116D0,20) (0x1171D,15)
  (0x11730,23) (0x11800,60) (0x118A0,83) (0x11918,30) (0x11937,2) (0x1193B,12) (0x11950,10) (0x119AA,46) (0x119DA,11))
  (0x11A00,72) (.fifteen ranged (0x11A50,83) (0x11B00,10) (0x11B60,8) (0x11BC0,34) (0x11BF0,10) (0x11C0A,45)
  (0x11C38,14) (0x11C50,29) (0x11C70,32) (0x11C92,22) (0x11CA9,14) (0x11D0B,44) (0x11D3A,1) (0x11D3C,2) (0x11D3F,9)))))
  (0x11D50,10) (ranged (ranged (.fifteen ranged (0x11D6A,37) (0x11D90,2) (0x11D93,6) (0x11DA0,10) (0x11DE0,10)
  (0x11EE0,25) (0x11F00,17) (0x11F12,41) (0x11F3E,29) (0x11FC0,50) (0x11FFF,923) (0x12400,111) (0x12470,5) (0x12F90,99)
  (0x13440,22)) (0x16100,58) (ranged (.fifteen ranged (0x16A60,10) (0x16A6E,81) (0x16AC0,10) (0x16AF0,6) (0x16B00,70)
  (0x16B50,10) (0x16B5B,7) (0x16D40,58) (0x16E40,91) (0x16F4F,57) (0x16F8F,17) (0x16FE0,5) (0x16FF0,7) (0x1BC9C,4)
  (0x1CC00,253)) (0x1CD00,436) (.fifteen ranged (0x1CEBA,23) (0x1CEE0,17) (0x1CF00,46) (0x1CF30,23) (0x1CF50,116)
  (0x1D000,246) (0x1D100,39) (0x1D129,74) (0x1D17B,112) (0x1D200,70) (0x1D2C0,20) (0x1D2E0,20) (0x1D300,87) (0x1D360,25)
  (0x1D6A8,292)))) (0x1D7CE,702) (ranged (ranged (.fifteen ranged (0x1DA9B,5) (0x1DAA1,15) (0x1E000,7) (0x1E008,17)
  (0x1E01B,7) (0x1E023,2) (0x1E026,5) (0x1E08F,1) (0x1E130,14) (0x1E140,10) (0x1E14E,2) (0x1E290,31) (0x1E2C0,58)
  (0x1E2FF,1) (0x1E4D0,42)) (0x1E5D0,43) (.fifteen ranged (0x1E5FF,1) (0x1E6E0,22) (0x1E8C7,16) (0x1E900,76)
  (0x1E950,10) (0x1E95E,2) (0x1EC71,68) (0x1ED01,61) (0x1EEF0,2) (0x1F000,44) (0x1F030,100) (0x1F0A0,15) (0x1F0B1,15)
  (0x1F0C1,15) (0x1F0D1,37))) (0x1F100,174) (ranged (.fifteen ranged (0x1F1E6,29) (0x1F210,44) (0x1F240,9) (0x1F250,2)
  (0x1F260,6) (0x1F300,985) (0x1F6DC,17) (0x1F6F0,13) (0x1F700,218) (0x1F7E0,12) (0x1F7F0,1) (0x1F800,12) (0x1F810,56)
  (0x1F850,10) (0x1F860,40)) (0x1F890,30) (.fifteen ranged (0x1F8B0,12) (0x1F8C0,2) (0x1F8D0,9) (0x1F900,344)
  (0x1FA60,14) (0x1FA70,13) (0x1FA80,11) (0x1FA8E,57) (0x1FAC8,1) (0x1FACD,16) (0x1FADF,12) (0x1FAEF,10) (0x1FB00,147)
  (0x1FB94,103) (0xE0100,240)))))

def printables : CodeMap Unit :=
  ranged printablesFrom0020 (0x1091F,27) printablesFrom1093F

def isPrintable (c : Char) : Bool := isLetter c || printables.contains c.toNat

end Terakoya.Text
