import Terakoya.Text.CodeMap

/-! Canonical combining classes (Unicode 15.0). -/
namespace Terakoya.Text

open CodeMap (valued)

def combiningClassesFrom0300 : CodeMap Nat :=
  valued (valued (valued (valued (.three valued (0x300,21,230) (0x315,1,232) (0x316,4,220)) (0x31A,1,232)
  (.fifteen valued (0x31B,1,216) (0x31C,5,220) (0x321,2,202) (0x323,4,220) (0x327,2,202) (0x329,11,220) (0x334,5,1)
  (0x339,4,220) (0x33D,8,230) (0x345,1,240) (0x346,1,230) (0x347,3,220) (0x34A,3,230) (0x34D,2,220) (0x350,3,230)))
  (0x353,4,220) (valued (.fifteen valued (0x357,1,230) (0x358,1,232) (0x359,2,220) (0x35B,1,230) (0x35C,1,233)
  (0x35D,2,234) (0x35F,1,233) (0x360,2,234) (0x362,1,233) (0x363,13,230) (0x483,5,230) (0x591,1,220) (0x592,4,230)
  (0x596,1,220) (0x597,3,230)) (0x59A,1,222) (.fifteen valued (0x59B,1,220) (0x59C,6,230) (0x5A2,6,220) (0x5A8,2,230)
  (0x5AA,1,220) (0x5AB,2,230) (0x5AD,1,222) (0x5AE,1,228) (0x5AF,1,230) (0x5B0,1,10) (0x5B1,1,11) (0x5B2,1,12)
  (0x5B3,1,13) (0x5B4,1,14) (0x5B5,1,15)))) (0x5B6,1,16) (valued (.fifteen valued (0x5B7,1,17) (0x5B8,1,18) (0x5B9,2,19)
  (0x5BB,1,20) (0x5BC,1,21) (0x5BD,1,22) (0x5BF,1,23) (0x5C1,1,24) (0x5C2,1,25) (0x5C4,1,230) (0x5C5,1,220) (0x5C7,1,18)
  (0x610,8,230) (0x618,1,30) (0x619,1,31)) (0x61A,1,32) (valued (.fifteen valued (0x64B,1,27) (0x64C,1,28) (0x64D,1,29)
  (0x64E,1,30) (0x64F,1,31) (0x650,1,32) (0x651,1,33) (0x652,1,34) (0x653,2,230) (0x655,2,220) (0x657,5,230)
  (0x65C,1,220) (0x65D,2,230) (0x65F,1,220) (0x670,1,35)) (0x6D6,7,230) (.fifteen valued (0x6DF,4,230) (0x6E3,1,220)
  (0x6E4,1,230) (0x6E7,2,230) (0x6EA,1,220) (0x6EB,2,230) (0x6ED,1,220) (0x711,1,36) (0x730,1,230) (0x731,1,220)
  (0x732,2,230) (0x734,1,220) (0x735,2,230) (0x737,3,220) (0x73A,1,230))))) (0x73B,2,220) (valued (valued
  (.fifteen valued (0x73D,1,230) (0x73E,1,220) (0x73F,3,230) (0x742,1,220) (0x743,1,230) (0x744,1,220) (0x745,1,230)
  (0x746,1,220) (0x747,1,230) (0x748,1,220) (0x749,2,230) (0x7EB,7,230) (0x7F2,1,220) (0x7F3,1,230) (0x7FD,1,220))
  (0x816,4,230) (valued (.fifteen valued (0x81B,9,230) (0x825,3,230) (0x829,5,230) (0x859,3,220) (0x898,1,230)
  (0x899,3,220) (0x89C,4,230) (0x8CA,5,230) (0x8CF,5,220) (0x8D4,14,230) (0x8E3,1,220) (0x8E4,2,230) (0x8E6,1,220)
  (0x8E7,2,230) (0x8E9,1,220)) (0x8EA,3,230) (.fifteen valued (0x8ED,3,220) (0x8F0,1,27) (0x8F1,1,28) (0x8F2,1,29)
  (0x8F3,3,230) (0x8F6,1,220) (0x8F7,2,230) (0x8F9,2,220) (0x8FB,5,230) (0x93C,1,7) (0x94D,1,9) (0x951,1,230)
  (0x952,1,220) (0x953,2,230) (0x9BC,1,7)))) (0x9CD,1,9) (valued (.fifteen valued (0x9FE,1,230) (0xA3C,1,7) (0xA4D,1,9)
  (0xABC,1,7) (0xACD,1,9) (0xB3C,1,7) (0xB4D,1,9) (0xBCD,1,9) (0xC3C,1,7) (0xC4D,1,9) (0xC55,1,84) (0xC56,1,91)
  (0xCBC,1,7) (0xCCD,1,9) (0xD3B,2,9)) (0xD4D,1,9) (valued (.fifteen valued (0xDCA,1,9) (0xE38,2,103) (0xE3A,1,9)
  (0xE48,4,107) (0xEB8,2,118) (0xEBA,1,9) (0xEC8,4,122) (0xF18,2,220) (0xF35,1,220) (0xF37,1,220) (0xF39,1,216)
  (0xF71,1,129) (0xF72,1,130) (0xF74,1,132) (0xF7A,4,130)) (0xF80,1,130) (.fifteen valued (0xF82,2,230) (0xF84,1,9)
  (0xF86,2,230) (0xFC6,1,220) (0x1037,1,7) (0x1039,2,9) (0x108D,1,220) (0x135D,3,230) (0x1714,2,9) (0x1734,1,9)
  (0x17D2,1,9) (0x17DD,1,230) (0x18A9,1,228) (0x1939,1,222) (0x193A,1,230)))))

def combiningClassesFrom1A17 : CodeMap Nat :=
  valued (valued (valued (.fifteen valued (0x1A17,1,230) (0x1A18,1,220) (0x1A60,1,9) (0x1A75,8,230) (0x1A7F,1,220)
  (0x1AB0,5,230) (0x1AB5,6,220) (0x1ABB,2,230) (0x1ABD,1,220) (0x1ABF,2,220) (0x1AC1,2,230) (0x1AC3,2,220)
  (0x1AC5,5,230) (0x1ACA,1,220) (0x1ACB,4,230)) (0x1B34,1,7) (valued (.fifteen valued (0x1B44,1,9) (0x1B6B,1,230)
  (0x1B6C,1,220) (0x1B6D,7,230) (0x1BAA,2,9) (0x1BE6,1,7) (0x1BF2,2,9) (0x1C37,1,7) (0x1CD0,3,230) (0x1CD4,1,1)
  (0x1CD5,5,220) (0x1CDA,2,230) (0x1CDC,4,220) (0x1CE0,1,230) (0x1CE2,7,1)) (0x1CED,1,220) (.fifteen valued
  (0x1CF4,1,230) (0x1CF8,2,230) (0x1DC0,2,230) (0x1DC2,1,220) (0x1DC3,7,230) (0x1DCA,1,220) (0x1DCB,2,230)
  (0x1DCD,1,234) (0x1DCE,1,214) (0x1DCF,1,220) (0x1DD0,1,202) (0x1DD1,37,230) (0x1DF6,1,232) (0x1DF7,2,228)
  (0x1DF9,1,220)))) (0x1DFA,1,218) (valued (.fifteen valued (0x1DFB,1,230) (0x1DFC,1,233) (0x1DFD,1,220) (0x1DFE,1,230)
  (0x1DFF,1,220) (0x20D0,2,230) (0x20D2,2,1) (0x20D4,4,230) (0x20D8,3,1) (0x20DB,2,230) (0x20E1,1,230) (0x20E5,2,1)
  (0x20E7,1,230) (0x20E8,1,220) (0x20E9,1,230)) (0x20EA,2,1) (valued (.fifteen valued (0x20EC,4,220) (0x20F0,1,230)
  (0x2CEF,3,230) (0x2D7F,1,9) (0x2DE0,32,230) (0x302A,1,218) (0x302B,1,228) (0x302C,1,232) (0x302D,1,222) (0x302E,2,224)
  (0x3099,2,8) (0xA66F,1,230) (0xA674,10,230) (0xA69E,2,230) (0xA6F0,2,230)) (0xA806,1,9) (.fifteen valued (0xA82C,1,9)
  (0xA8C4,1,9) (0xA8E0,18,230) (0xA92B,3,220) (0xA953,1,9) (0xA9B3,1,7) (0xA9C0,1,9) (0xAAB0,1,230) (0xAAB2,2,230)
  (0xAAB4,1,220) (0xAAB7,2,230) (0xAABE,2,230) (0xAAC1,1,230) (0xAAF6,1,9) (0xABED,1,9))))) (0xFB1E,1,26) (valued
  (valued (.fifteen valued (0xFE20,7,230) (0xFE27,7,220) (0xFE2E,2,230) (0x101FD,1,220) (0x102E0,1,220) (0x10376,5,230)
  (0x10A0D,1,220) (0x10A0F,1,230) (0x10A38,1,230) (0x10A39,1,1) (0x10A3A,1,220) (0x10A3F,1,9) (0x10AE5,1,230)
  (0x10AE6,1,220) (0x10D24,4,230)) (0x10EAB,2,230) (valued (.fifteen valued (0x10EFD,3,220) (0x10F46,2,220)
  (0x10F48,3,230) (0x10F4B,1,220) (0x10F4C,1,230) (0x10F4D,4,220) (0x10F82,1,230) (0x10F83,1,220) (0x10F84,1,230)
  (0x10F85,1,220) (0x11046,1,9) (0x11070,1,9) (0x1107F,1,9) (0x110B9,1,9) (0x110BA,1,7)) (0x11100,3,230)
  (.fifteen valued (0x11133,2,9) (0x11173,1,7) (0x111C0,1,9) (0x111CA,1,7) (0x11235,1,9) (0x11236,1,7) (0x112E9,1,7)
  (0x112EA,1,9) (0x1133B,2,7) (0x1134D,1,9) (0x11366,7,230) (0x11370,5,230) (0x11442,1,9) (0x11446,1,7)
  (0x1145E,1,230)))) (0x114C2,1,9) (valued (valued (.fifteen valued (0x114C3,1,7) (0x115BF,1,9) (0x115C0,1,7)
  (0x1163F,1,9) (0x116B6,1,9) (0x116B7,1,7) (0x1172B,1,9) (0x11839,1,9) (0x1183A,1,7) (0x1193D,2,9) (0x11943,1,7)
  (0x119E0,1,9) (0x11A34,1,9) (0x11A47,1,9) (0x11A99,1,9)) (0x11C3F,1,9) (.fifteen valued (0x11D42,1,7) (0x11D44,2,9)
  (0x11D97,1,9) (0x11F41,2,9) (0x16AF0,5,1) (0x16B30,7,230) (0x16FF0,2,6) (0x1BC9E,1,1) (0x1D165,2,216) (0x1D167,3,1)
  (0x1D16D,1,226) (0x1D16E,5,216) (0x1D17B,8,220) (0x1D185,5,230) (0x1D18A,2,220))) (0x1D1AA,4,230) (valued
  (.fifteen valued (0x1D242,3,230) (0x1E000,7,230) (0x1E008,17,230) (0x1E01B,7,230) (0x1E023,2,230) (0x1E026,5,230)
  (0x1E08F,1,230) (0x1E130,7,230) (0x1E2AE,1,230) (0x1E2EC,4,230) (0x1E4EC,2,232) (0x1E4EE,1,220) (0x1E4EF,1,230)
  (0x1E8D0,7,220) (0x1E944,6,230)) (0x1E94A,1,7) .leaf)))

def combiningClasses : CodeMap Nat :=
  valued combiningClassesFrom0300 (0x193B,1,220) combiningClassesFrom1A17

def combiningClass (c : Char) : Nat := (combiningClasses.value? c.toNat).getD 0

end Terakoya.Text
