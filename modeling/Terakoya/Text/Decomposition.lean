import Terakoya.Text.CodeMap

/-! Full canonical decompositions, Hangul syllables apart (Unicode 15.0). -/
namespace Terakoya.Text

open CodeMap (pointed)

def decompositionsFrom00C0 : CodeMap (List Char) :=
  pointed (pointed (pointed (pointed (pointed (.seven pointed (0xC0,['A','\u0300']) (0xC1,['A','\u0301'])
  (0xC2,['A','\u0302']) (0xC3,['A','\u0303']) (0xC4,['A','\u0308']) (0xC5,['A','\u030a']) (0xC7,['C','\u0327']))
  (0xC8,['E','\u0300']) (.row7 0xC9 ['E','\u0301'] ['E','\u0302'] ['E','\u0308'] ['I','\u0300'] ['I','\u0301']
  ['I','\u0302'] ['I','\u0308'])) (0xD1,['N','\u0303']) (pointed (pointed .leaf (0xD2,['O','\u0300']) .leaf)
  (0xD3,['O','\u0301']) (.fifteen pointed (0xD4,['O','\u0302']) (0xD5,['O','\u0303']) (0xD6,['O','\u0308'])
  (0xD9,['U','\u0300']) (0xDA,['U','\u0301']) (0xDB,['U','\u0302']) (0xDC,['U','\u0308']) (0xDD,['Y','\u0301'])
  (0xE0,['a','\u0300']) (0xE1,['a','\u0301']) (0xE2,['a','\u0302']) (0xE3,['a','\u0303']) (0xE4,['a','\u0308'])
  (0xE5,['a','\u030a']) (0xE7,['c','\u0327'])))) (0xE8,['e','\u0300']) (pointed (pointed (.row7 0xE9 ['e','\u0301']
  ['e','\u0302'] ['e','\u0308'] ['i','\u0300'] ['i','\u0301'] ['i','\u0302'] ['i','\u0308']) (0xF1,['n','\u0303'])
  (pointed (.row3 0xF2 ['o','\u0300'] ['o','\u0301'] ['o','\u0302']) (0xF5,['o','\u0303']) (.seven pointed
  (0xF6,['o','\u0308']) (0xF9,['u','\u0300']) (0xFA,['u','\u0301']) (0xFB,['u','\u0302']) (0xFC,['u','\u0308'])
  (0xFD,['y','\u0301']) (0xFF,['y','\u0308'])))) (0x100,['A','\u0304']) (pointed (.row15 0x101 ['a','\u0304']
  ['A','\u0306'] ['a','\u0306'] ['A','\u0328'] ['a','\u0328'] ['C','\u0301'] ['c','\u0301'] ['C','\u0302']
  ['c','\u0302'] ['C','\u0307'] ['c','\u0307'] ['C','\u030c'] ['c','\u030c'] ['D','\u030c'] ['d','\u030c'])
  (0x112,['E','\u0304']) (.row3 0x113 ['e','\u0304'] ['E','\u0306'] ['e','\u0306'])))) (0x116,['E','\u0307']) (pointed
  (pointed (.row15 0x117 ['e','\u0307'] ['E','\u0328'] ['e','\u0328'] ['E','\u030c'] ['e','\u030c'] ['G','\u0302']
  ['g','\u0302'] ['G','\u0306'] ['g','\u0306'] ['G','\u0307'] ['g','\u0307'] ['G','\u0327'] ['g','\u0327']
  ['H','\u0302'] ['h','\u0302']) (0x128,['I','\u0303']) (pointed (.row7 0x129 ['i','\u0303'] ['I','\u0304']
  ['i','\u0304'] ['I','\u0306'] ['i','\u0306'] ['I','\u0328'] ['i','\u0328']) (0x130,['I','\u0307']) (pointed
  (.row3 0x134 ['J','\u0302'] ['j','\u0302'] ['K','\u0327']) (0x137,['k','\u0327']) (.row3 0x139 ['L','\u0301']
  ['l','\u0301'] ['L','\u0327'])))) (0x13C,['l','\u0327']) (pointed (.fifteen pointed (0x13D,['L','\u030c'])
  (0x13E,['l','\u030c']) (0x143,['N','\u0301']) (0x144,['n','\u0301']) (0x145,['N','\u0327']) (0x146,['n','\u0327'])
  (0x147,['N','\u030c']) (0x148,['n','\u030c']) (0x14C,['O','\u0304']) (0x14D,['o','\u0304']) (0x14E,['O','\u0306'])
  (0x14F,['o','\u0306']) (0x150,['O','\u030b']) (0x151,['o','\u030b']) (0x154,['R','\u0301'])) (0x155,['r','\u0301'])
  (pointed (.row15 0x156 ['R','\u0327'] ['r','\u0327'] ['R','\u030c'] ['r','\u030c'] ['S','\u0301'] ['s','\u0301']
  ['S','\u0302'] ['s','\u0302'] ['S','\u0327'] ['s','\u0327'] ['S','\u030c'] ['s','\u030c'] ['T','\u0327']
  ['t','\u0327'] ['T','\u030c']) (0x165,['t','\u030c']) (.row7 0x168 ['U','\u0303'] ['u','\u0303'] ['U','\u0304']
  ['u','\u0304'] ['U','\u0306'] ['u','\u0306'] ['U','\u030a']))))) (0x16F,['u','\u030a']) (pointed (pointed (pointed
  (.row15 0x170 ['U','\u030b'] ['u','\u030b'] ['U','\u0328'] ['u','\u0328'] ['W','\u0302'] ['w','\u0302'] ['Y','\u0302']
  ['y','\u0302'] ['Y','\u0308'] ['Z','\u0301'] ['z','\u0301'] ['Z','\u0307'] ['z','\u0307'] ['Z','\u030c']
  ['z','\u030c']) (0x1A0,['O','\u031b']) (pointed (.three pointed (0x1A1,['o','\u031b']) (0x1AF,['U','\u031b'])
  (0x1B0,['u','\u031b'])) (0x1CD,['A','\u030c']) (.row15 0x1CE ['a','\u030c'] ['I','\u030c'] ['i','\u030c']
  ['O','\u030c'] ['o','\u030c'] ['U','\u030c'] ['u','\u030c'] ['U','\u0308','\u0304'] ['u','\u0308','\u0304']
  ['U','\u0308','\u0301'] ['u','\u0308','\u0301'] ['U','\u0308','\u030c'] ['u','\u0308','\u030c']
  ['U','\u0308','\u0300'] ['u','\u0308','\u0300']))) (0x1DE,['A','\u0308','\u0304']) (pointed (pointed (pointed
  (pointed .leaf (0x1DF,['a','\u0308','\u0304']) .leaf) (0x1E0,['A','\u0307','\u0304']) (.row3 0x1E1
  ['a','\u0307','\u0304'] ['Æ','\u0304'] ['æ','\u0304'])) (0x1E6,['G','\u030c']) (pointed (.row7 0x1E7 ['g','\u030c']
  ['K','\u030c'] ['k','\u030c'] ['O','\u0328'] ['o','\u0328'] ['O','\u0328','\u0304'] ['o','\u0328','\u0304'])
  (0x1EE,['Ʒ','\u030c']) (.three pointed (0x1EF,['ʒ','\u030c']) (0x1F0,['j','\u030c']) (0x1F4,['G','\u0301']))))
  (0x1F5,['g','\u0301']) (pointed (.row3 0x1F8 ['N','\u0300'] ['n','\u0300'] ['A','\u030a','\u0301'])
  (0x1FB,['a','\u030a','\u0301']) (.row15 0x1FC ['Æ','\u0301'] ['æ','\u0301'] ['Ø','\u0301'] ['ø','\u0301']
  ['A','\u030f'] ['a','\u030f'] ['A','\u0311'] ['a','\u0311'] ['E','\u030f'] ['e','\u030f'] ['E','\u0311']
  ['e','\u0311'] ['I','\u030f'] ['i','\u030f'] ['I','\u0311'])))) (0x20B,['i','\u0311']) (pointed (pointed (.row15 0x20C
  ['O','\u030f'] ['o','\u030f'] ['O','\u0311'] ['o','\u0311'] ['R','\u030f'] ['r','\u030f'] ['R','\u0311']
  ['r','\u0311'] ['U','\u030f'] ['u','\u030f'] ['U','\u0311'] ['u','\u0311'] ['S','\u0326'] ['s','\u0326']
  ['T','\u0326']) (0x21B,['t','\u0326']) (pointed (pointed (.three pointed (0x21E,['H','\u030c']) (0x21F,['h','\u030c'])
  (0x226,['A','\u0307'])) (0x227,['a','\u0307']) (.row3 0x228 ['E','\u0327'] ['e','\u0327'] ['O','\u0308','\u0304']))
  (0x22B,['o','\u0308','\u0304']) (.row7 0x22C ['O','\u0303','\u0304'] ['o','\u0303','\u0304'] ['O','\u0307']
  ['o','\u0307'] ['O','\u0307','\u0304'] ['o','\u0307','\u0304'] ['Y','\u0304']))) (0x233,['y','\u0304']) (pointed
  (pointed (.fifteen pointed (0x340,['\u0300']) (0x341,['\u0301']) (0x343,['\u0313']) (0x344,['\u0308','\u0301'])
  (0x374,['\u02b9']) (0x37E,[';']) (0x385,['\u00a8','\u0301']) (0x386,['Α','\u0301']) (0x387,['\u00b7'])
  (0x388,['Ε','\u0301']) (0x389,['Η','\u0301']) (0x38A,['Ι','\u0301']) (0x38C,['Ο','\u0301']) (0x38E,['Υ','\u0301'])
  (0x38F,['Ω','\u0301'])) (0x390,['ι','\u0308','\u0301']) (.row7 0x3AA ['Ι','\u0308'] ['Υ','\u0308'] ['α','\u0301']
  ['ε','\u0301'] ['η','\u0301'] ['ι','\u0301'] ['υ','\u0308','\u0301'])) (0x3CA,['ι','\u0308']) (pointed (pointed
  (.row3 0x3CB ['υ','\u0308'] ['ο','\u0301'] ['υ','\u0301']) (0x3CE,['ω','\u0301']) (.three pointed
  (0x3D3,['ϒ','\u0301']) (0x3D4,['ϒ','\u0308']) (0x400,['Е','\u0300']))) (0x401,['Е','\u0308']) (.fifteen pointed
  (0x403,['Г','\u0301']) (0x407,['І','\u0308']) (0x40C,['К','\u0301']) (0x40D,['И','\u0300']) (0x40E,['У','\u0306'])
  (0x419,['И','\u0306']) (0x439,['и','\u0306']) (0x450,['е','\u0300']) (0x451,['е','\u0308']) (0x453,['г','\u0301'])
  (0x457,['і','\u0308']) (0x45C,['к','\u0301']) (0x45D,['и','\u0300']) (0x45E,['у','\u0306'])
  (0x476,['Ѵ','\u030f']))))))

def decompositionsFrom04C1 : CodeMap (List Char) :=
  pointed (pointed (pointed (pointed (.fifteen pointed (0x4C1,['Ж','\u0306']) (0x4C2,['ж','\u0306'])
  (0x4D0,['А','\u0306']) (0x4D1,['а','\u0306']) (0x4D2,['А','\u0308']) (0x4D3,['а','\u0308']) (0x4D6,['Е','\u0306'])
  (0x4D7,['е','\u0306']) (0x4DA,['Ә','\u0308']) (0x4DB,['ә','\u0308']) (0x4DC,['Ж','\u0308']) (0x4DD,['ж','\u0308'])
  (0x4DE,['З','\u0308']) (0x4DF,['з','\u0308']) (0x4E2,['И','\u0304'])) (0x4E3,['и','\u0304']) (pointed (pointed
  (.row3 0x4E4 ['И','\u0308'] ['и','\u0308'] ['О','\u0308']) (0x4E7,['о','\u0308']) (.row3 0x4EA ['Ө','\u0308']
  ['ө','\u0308'] ['Э','\u0308'])) (0x4ED,['э','\u0308']) (pointed (.row7 0x4EE ['У','\u0304'] ['у','\u0304']
  ['У','\u0308'] ['у','\u0308'] ['У','\u030b'] ['у','\u030b'] ['Ч','\u0308']) (0x4F5,['ч','\u0308']) (pointed .leaf
  (0x4F8,['Ы','\u0308']) .leaf)))) (0x4F9,['ы','\u0308']) (pointed (pointed (pointed (.row3 0x622 ['\u0627','\u0653']
  ['\u0627','\u0654'] ['\u0648','\u0654']) (0x625,['\u0627','\u0655']) (.seven pointed (0x626,['\u064a','\u0654'])
  (0x6C0,['\u06d5','\u0654']) (0x6C2,['\u06c1','\u0654']) (0x6D3,['\u06d2','\u0654']) (0x929,['न','\u093c'])
  (0x931,['र','\u093c']) (0x934,['ळ','\u093c']))) (0x958,['क','\u093c']) (.row7 0x959 ['ख','\u093c'] ['ग','\u093c']
  ['ज','\u093c'] ['ड','\u093c'] ['ढ','\u093c'] ['फ','\u093c'] ['य','\u093c'])) (0x9CB,['\u09c7','\u09be'])
  (.fifteen pointed (0x9CC,['\u09c7','\u09d7']) (0x9DC,['ড','\u09bc']) (0x9DD,['ঢ','\u09bc']) (0x9DF,['য','\u09bc'])
  (0xA33,['ਲ','\u0a3c']) (0xA36,['ਸ','\u0a3c']) (0xA59,['ਖ','\u0a3c']) (0xA5A,['ਗ','\u0a3c']) (0xA5B,['ਜ','\u0a3c'])
  (0xA5E,['ਫ','\u0a3c']) (0xB48,['\u0b47','\u0b56']) (0xB4B,['\u0b47','\u0b3e']) (0xB4C,['\u0b47','\u0b57'])
  (0xB5C,['ଡ','\u0b3c']) (0xB5D,['ଢ','\u0b3c'])))) (0xB94,['ஒ','\u0bd7']) (pointed (pointed (.fifteen pointed
  (0xBCA,['\u0bc6','\u0bbe']) (0xBCB,['\u0bc7','\u0bbe']) (0xBCC,['\u0bc6','\u0bd7']) (0xC48,['\u0c46','\u0c56'])
  (0xCC0,['\u0cbf','\u0cd5']) (0xCC7,['\u0cc6','\u0cd5']) (0xCC8,['\u0cc6','\u0cd6']) (0xCCA,['\u0cc6','\u0cc2'])
  (0xCCB,['\u0cc6','\u0cc2','\u0cd5']) (0xD4A,['\u0d46','\u0d3e']) (0xD4B,['\u0d47','\u0d3e'])
  (0xD4C,['\u0d46','\u0d57']) (0xDDA,['\u0dd9','\u0dca']) (0xDDC,['\u0dd9','\u0dcf'])
  (0xDDD,['\u0dd9','\u0dcf','\u0dca'])) (0xDDE,['\u0dd9','\u0ddf']) (.fifteen pointed (0xF43,['ག','\u0fb7'])
  (0xF4D,['ཌ','\u0fb7']) (0xF52,['ད','\u0fb7']) (0xF57,['བ','\u0fb7']) (0xF5C,['ཛ','\u0fb7']) (0xF69,['ཀ','\u0fb5'])
  (0xF73,['\u0f71','\u0f72']) (0xF75,['\u0f71','\u0f74']) (0xF76,['\u0fb2','\u0f80']) (0xF78,['\u0fb3','\u0f80'])
  (0xF81,['\u0f71','\u0f80']) (0xF93,['\u0f92','\u0fb7']) (0xF9D,['\u0f9c','\u0fb7']) (0xFA2,['\u0fa1','\u0fb7'])
  (0xFA7,['\u0fa6','\u0fb7']))) (0xFAC,['\u0fab','\u0fb7']) (pointed (.fifteen pointed (0xFB9,['\u0f90','\u0fb5'])
  (0x1026,['ဥ','\u102e']) (0x1B06,['ᬅ','\u1b35']) (0x1B08,['ᬇ','\u1b35']) (0x1B0A,['ᬉ','\u1b35'])
  (0x1B0C,['ᬋ','\u1b35']) (0x1B0E,['ᬍ','\u1b35']) (0x1B12,['ᬑ','\u1b35']) (0x1B3B,['\u1b3a','\u1b35'])
  (0x1B3D,['\u1b3c','\u1b35']) (0x1B40,['\u1b3e','\u1b35']) (0x1B41,['\u1b3f','\u1b35']) (0x1B43,['\u1b42','\u1b35'])
  (0x1E00,['A','\u0325']) (0x1E01,['a','\u0325'])) (0x1E02,['B','\u0307']) (pointed (.row7 0x1E03 ['b','\u0307']
  ['B','\u0323'] ['b','\u0323'] ['B','\u0331'] ['b','\u0331'] ['C','\u0327','\u0301'] ['c','\u0327','\u0301'])
  (0x1E0A,['D','\u0307']) (.row15 0x1E0B ['d','\u0307'] ['D','\u0323'] ['d','\u0323'] ['D','\u0331'] ['d','\u0331']
  ['D','\u0327'] ['d','\u0327'] ['D','\u032d'] ['d','\u032d'] ['E','\u0304','\u0300'] ['e','\u0304','\u0300']
  ['E','\u0304','\u0301'] ['e','\u0304','\u0301'] ['E','\u032d'] ['e','\u032d']))))) (0x1E1A,['E','\u0330']) (pointed
  (pointed (pointed (.row15 0x1E1B ['e','\u0330'] ['E','\u0327','\u0306'] ['e','\u0327','\u0306'] ['F','\u0307']
  ['f','\u0307'] ['G','\u0304'] ['g','\u0304'] ['H','\u0307'] ['h','\u0307'] ['H','\u0323'] ['h','\u0323']
  ['H','\u0308'] ['h','\u0308'] ['H','\u0327'] ['h','\u0327']) (0x1E2A,['H','\u032e']) (.row15 0x1E2B ['h','\u032e']
  ['I','\u0330'] ['i','\u0330'] ['I','\u0308','\u0301'] ['i','\u0308','\u0301'] ['K','\u0301'] ['k','\u0301']
  ['K','\u0323'] ['k','\u0323'] ['K','\u0331'] ['k','\u0331'] ['L','\u0323'] ['l','\u0323'] ['L','\u0323','\u0304']
  ['l','\u0323','\u0304'])) (0x1E3A,['L','\u0331']) (pointed (.row15 0x1E3B ['l','\u0331'] ['L','\u032d'] ['l','\u032d']
  ['M','\u0301'] ['m','\u0301'] ['M','\u0307'] ['m','\u0307'] ['M','\u0323'] ['m','\u0323'] ['N','\u0307']
  ['n','\u0307'] ['N','\u0323'] ['n','\u0323'] ['N','\u0331'] ['n','\u0331']) (0x1E4A,['N','\u032d']) (pointed
  (.row15 0x1E4B ['n','\u032d'] ['O','\u0303','\u0301'] ['o','\u0303','\u0301'] ['O','\u0303','\u0308']
  ['o','\u0303','\u0308'] ['O','\u0304','\u0300'] ['o','\u0304','\u0300'] ['O','\u0304','\u0301']
  ['o','\u0304','\u0301'] ['P','\u0301'] ['p','\u0301'] ['P','\u0307'] ['p','\u0307'] ['R','\u0307'] ['r','\u0307'])
  (0x1E5A,['R','\u0323']) (.row15 0x1E5B ['r','\u0323'] ['R','\u0323','\u0304'] ['r','\u0323','\u0304'] ['R','\u0331']
  ['r','\u0331'] ['S','\u0307'] ['s','\u0307'] ['S','\u0323'] ['s','\u0323'] ['S','\u0301','\u0307']
  ['s','\u0301','\u0307'] ['S','\u030c','\u0307'] ['s','\u030c','\u0307'] ['S','\u0323','\u0307']
  ['s','\u0323','\u0307'])))) (0x1E6A,['T','\u0307']) (pointed (pointed (.row15 0x1E6B ['t','\u0307'] ['T','\u0323']
  ['t','\u0323'] ['T','\u0331'] ['t','\u0331'] ['T','\u032d'] ['t','\u032d'] ['U','\u0324'] ['u','\u0324']
  ['U','\u0330'] ['u','\u0330'] ['U','\u032d'] ['u','\u032d'] ['U','\u0303','\u0301'] ['u','\u0303','\u0301'])
  (0x1E7A,['U','\u0304','\u0308']) (.row15 0x1E7B ['u','\u0304','\u0308'] ['V','\u0303'] ['v','\u0303'] ['V','\u0323']
  ['v','\u0323'] ['W','\u0300'] ['w','\u0300'] ['W','\u0301'] ['w','\u0301'] ['W','\u0308'] ['w','\u0308']
  ['W','\u0307'] ['w','\u0307'] ['W','\u0323'] ['w','\u0323'])) (0x1E8A,['X','\u0307']) (pointed (.row15 0x1E8B
  ['x','\u0307'] ['X','\u0308'] ['x','\u0308'] ['Y','\u0307'] ['y','\u0307'] ['Z','\u0302'] ['z','\u0302']
  ['Z','\u0323'] ['z','\u0323'] ['Z','\u0331'] ['z','\u0331'] ['h','\u0331'] ['t','\u0308'] ['w','\u030a']
  ['y','\u030a']) (0x1E9B,['ſ','\u0307']) (pointed (.row7 0x1EA0 ['A','\u0323'] ['a','\u0323'] ['A','\u0309']
  ['a','\u0309'] ['A','\u0302','\u0301'] ['a','\u0302','\u0301'] ['A','\u0302','\u0300'])
  (0x1EA7,['a','\u0302','\u0300']) (.row15 0x1EA8 ['A','\u0302','\u0309'] ['a','\u0302','\u0309']
  ['A','\u0302','\u0303'] ['a','\u0302','\u0303'] ['A','\u0323','\u0302'] ['a','\u0323','\u0302']
  ['A','\u0306','\u0301'] ['a','\u0306','\u0301'] ['A','\u0306','\u0300'] ['a','\u0306','\u0300']
  ['A','\u0306','\u0309'] ['a','\u0306','\u0309'] ['A','\u0306','\u0303'] ['a','\u0306','\u0303']
  ['A','\u0323','\u0306'])))))

def decompositionsFrom1EB8 : CodeMap (List Char) :=
  pointed (pointed (pointed (pointed (.row15 0x1EB8 ['E','\u0323'] ['e','\u0323'] ['E','\u0309'] ['e','\u0309']
  ['E','\u0303'] ['e','\u0303'] ['E','\u0302','\u0301'] ['e','\u0302','\u0301'] ['E','\u0302','\u0300']
  ['e','\u0302','\u0300'] ['E','\u0302','\u0309'] ['e','\u0302','\u0309'] ['E','\u0302','\u0303']
  ['e','\u0302','\u0303'] ['E','\u0323','\u0302']) (0x1EC7,['e','\u0323','\u0302']) (.row15 0x1EC8 ['I','\u0309']
  ['i','\u0309'] ['I','\u0323'] ['i','\u0323'] ['O','\u0323'] ['o','\u0323'] ['O','\u0309'] ['o','\u0309']
  ['O','\u0302','\u0301'] ['o','\u0302','\u0301'] ['O','\u0302','\u0300'] ['o','\u0302','\u0300']
  ['O','\u0302','\u0309'] ['o','\u0302','\u0309'] ['O','\u0302','\u0303'])) (0x1ED7,['o','\u0302','\u0303']) (pointed
  (.row15 0x1ED8 ['O','\u0323','\u0302'] ['o','\u0323','\u0302'] ['O','\u031b','\u0301'] ['o','\u031b','\u0301']
  ['O','\u031b','\u0300'] ['o','\u031b','\u0300'] ['O','\u031b','\u0309'] ['o','\u031b','\u0309']
  ['O','\u031b','\u0303'] ['o','\u031b','\u0303'] ['O','\u031b','\u0323'] ['o','\u031b','\u0323'] ['U','\u0323']
  ['u','\u0323'] ['U','\u0309']) (0x1EE7,['u','\u0309']) (pointed (.row15 0x1EE8 ['U','\u031b','\u0301']
  ['u','\u031b','\u0301'] ['U','\u031b','\u0300'] ['u','\u031b','\u0300'] ['U','\u031b','\u0309']
  ['u','\u031b','\u0309'] ['U','\u031b','\u0303'] ['u','\u031b','\u0303'] ['U','\u031b','\u0323']
  ['u','\u031b','\u0323'] ['Y','\u0300'] ['y','\u0300'] ['Y','\u0323'] ['y','\u0323'] ['Y','\u0309'])
  (0x1EF7,['y','\u0309']) (.three pointed (0x1EF8,['Y','\u0303']) (0x1EF9,['y','\u0303']) (0x1F00,['α','\u0313'])))))
  (0x1F01,['α','\u0314']) (pointed (pointed (pointed (.row3 0x1F02 ['α','\u0313','\u0300'] ['α','\u0314','\u0300']
  ['α','\u0313','\u0301']) (0x1F05,['α','\u0314','\u0301']) (.row15 0x1F06 ['α','\u0313','\u0342']
  ['α','\u0314','\u0342'] ['Α','\u0313'] ['Α','\u0314'] ['Α','\u0313','\u0300'] ['Α','\u0314','\u0300']
  ['Α','\u0313','\u0301'] ['Α','\u0314','\u0301'] ['Α','\u0313','\u0342'] ['Α','\u0314','\u0342'] ['ε','\u0313']
  ['ε','\u0314'] ['ε','\u0313','\u0300'] ['ε','\u0314','\u0300'] ['ε','\u0313','\u0301']))
  (0x1F15,['ε','\u0314','\u0301']) (pointed (.row3 0x1F18 ['Ε','\u0313'] ['Ε','\u0314'] ['Ε','\u0313','\u0300'])
  (0x1F1B,['Ε','\u0314','\u0300']) (pointed (.three pointed (0x1F1C,['Ε','\u0313','\u0301'])
  (0x1F1D,['Ε','\u0314','\u0301']) (0x1F20,['η','\u0313'])) (0x1F21,['η','\u0314']) (.row3 0x1F22
  ['η','\u0313','\u0300'] ['η','\u0314','\u0300'] ['η','\u0313','\u0301'])))) (0x1F25,['η','\u0314','\u0301']) (pointed
  (.row15 0x1F26 ['η','\u0313','\u0342'] ['η','\u0314','\u0342'] ['Η','\u0313'] ['Η','\u0314'] ['Η','\u0313','\u0300']
  ['Η','\u0314','\u0300'] ['Η','\u0313','\u0301'] ['Η','\u0314','\u0301'] ['Η','\u0313','\u0342']
  ['Η','\u0314','\u0342'] ['ι','\u0313'] ['ι','\u0314'] ['ι','\u0313','\u0300'] ['ι','\u0314','\u0300']
  ['ι','\u0313','\u0301']) (0x1F35,['ι','\u0314','\u0301']) (pointed (.row15 0x1F36 ['ι','\u0313','\u0342']
  ['ι','\u0314','\u0342'] ['Ι','\u0313'] ['Ι','\u0314'] ['Ι','\u0313','\u0300'] ['Ι','\u0314','\u0300']
  ['Ι','\u0313','\u0301'] ['Ι','\u0314','\u0301'] ['Ι','\u0313','\u0342'] ['Ι','\u0314','\u0342'] ['ο','\u0313']
  ['ο','\u0314'] ['ο','\u0313','\u0300'] ['ο','\u0314','\u0300'] ['ο','\u0313','\u0301'])
  (0x1F45,['ο','\u0314','\u0301']) (.row3 0x1F48 ['Ο','\u0313'] ['Ο','\u0314'] ['Ο','\u0313','\u0300'])))))
  (0x1F4B,['Ο','\u0314','\u0300']) (pointed (pointed (pointed (pointed (.fifteen pointed
  (0x1F4C,['Ο','\u0313','\u0301']) (0x1F4D,['Ο','\u0314','\u0301']) (0x1F50,['υ','\u0313']) (0x1F51,['υ','\u0314'])
  (0x1F52,['υ','\u0313','\u0300']) (0x1F53,['υ','\u0314','\u0300']) (0x1F54,['υ','\u0313','\u0301'])
  (0x1F55,['υ','\u0314','\u0301']) (0x1F56,['υ','\u0313','\u0342']) (0x1F57,['υ','\u0314','\u0342'])
  (0x1F59,['Υ','\u0314']) (0x1F5B,['Υ','\u0314','\u0300']) (0x1F5D,['Υ','\u0314','\u0301'])
  (0x1F5F,['Υ','\u0314','\u0342']) (0x1F60,['ω','\u0313'])) (0x1F61,['ω','\u0314']) (.row3 0x1F62
  ['ω','\u0313','\u0300'] ['ω','\u0314','\u0300'] ['ω','\u0313','\u0301'])) (0x1F65,['ω','\u0314','\u0301']) (pointed
  (.row7 0x1F66 ['ω','\u0313','\u0342'] ['ω','\u0314','\u0342'] ['Ω','\u0313'] ['Ω','\u0314'] ['Ω','\u0313','\u0300']
  ['Ω','\u0314','\u0300'] ['Ω','\u0313','\u0301']) (0x1F6D,['Ω','\u0314','\u0301']) (.row15 0x1F6E
  ['Ω','\u0313','\u0342'] ['Ω','\u0314','\u0342'] ['α','\u0300'] ['α','\u0301'] ['ε','\u0300'] ['ε','\u0301']
  ['η','\u0300'] ['η','\u0301'] ['ι','\u0300'] ['ι','\u0301'] ['ο','\u0300'] ['ο','\u0301'] ['υ','\u0300']
  ['υ','\u0301'] ['ω','\u0300']))) (0x1F7D,['ω','\u0301']) (pointed (pointed (.row3 0x1F80 ['α','\u0313','\u0345']
  ['α','\u0314','\u0345'] ['α','\u0313','\u0300','\u0345']) (0x1F83,['α','\u0314','\u0300','\u0345']) (.row15 0x1F84
  ['α','\u0313','\u0301','\u0345'] ['α','\u0314','\u0301','\u0345'] ['α','\u0313','\u0342','\u0345']
  ['α','\u0314','\u0342','\u0345'] ['Α','\u0313','\u0345'] ['Α','\u0314','\u0345'] ['Α','\u0313','\u0300','\u0345']
  ['Α','\u0314','\u0300','\u0345'] ['Α','\u0313','\u0301','\u0345'] ['Α','\u0314','\u0301','\u0345']
  ['Α','\u0313','\u0342','\u0345'] ['Α','\u0314','\u0342','\u0345'] ['η','\u0313','\u0345'] ['η','\u0314','\u0345']
  ['η','\u0313','\u0300','\u0345'])) (0x1F93,['η','\u0314','\u0300','\u0345']) (.row15 0x1F94
  ['η','\u0313','\u0301','\u0345'] ['η','\u0314','\u0301','\u0345'] ['η','\u0313','\u0342','\u0345']
  ['η','\u0314','\u0342','\u0345'] ['Η','\u0313','\u0345'] ['Η','\u0314','\u0345'] ['Η','\u0313','\u0300','\u0345']
  ['Η','\u0314','\u0300','\u0345'] ['Η','\u0313','\u0301','\u0345'] ['Η','\u0314','\u0301','\u0345']
  ['Η','\u0313','\u0342','\u0345'] ['Η','\u0314','\u0342','\u0345'] ['ω','\u0313','\u0345'] ['ω','\u0314','\u0345']
  ['ω','\u0313','\u0300','\u0345']))) (0x1FA3,['ω','\u0314','\u0300','\u0345']) (pointed (pointed (.row15 0x1FA4
  ['ω','\u0313','\u0301','\u0345'] ['ω','\u0314','\u0301','\u0345'] ['ω','\u0313','\u0342','\u0345']
  ['ω','\u0314','\u0342','\u0345'] ['Ω','\u0313','\u0345'] ['Ω','\u0314','\u0345'] ['Ω','\u0313','\u0300','\u0345']
  ['Ω','\u0314','\u0300','\u0345'] ['Ω','\u0313','\u0301','\u0345'] ['Ω','\u0314','\u0301','\u0345']
  ['Ω','\u0313','\u0342','\u0345'] ['Ω','\u0314','\u0342','\u0345'] ['α','\u0306'] ['α','\u0304']
  ['α','\u0300','\u0345']) (0x1FB3,['α','\u0345']) (pointed (.fifteen pointed (0x1FB4,['α','\u0301','\u0345'])
  (0x1FB6,['α','\u0342']) (0x1FB7,['α','\u0342','\u0345']) (0x1FB8,['Α','\u0306']) (0x1FB9,['Α','\u0304'])
  (0x1FBA,['Α','\u0300']) (0x1FBB,['Α','\u0301']) (0x1FBC,['Α','\u0345']) (0x1FBE,['ι']) (0x1FC1,['\u00a8','\u0342'])
  (0x1FC2,['η','\u0300','\u0345']) (0x1FC3,['η','\u0345']) (0x1FC4,['η','\u0301','\u0345']) (0x1FC6,['η','\u0342'])
  (0x1FC7,['η','\u0342','\u0345'])) (0x1FC8,['Ε','\u0300']) (.row3 0x1FC9 ['Ε','\u0301'] ['Η','\u0300']
  ['Η','\u0301']))) (0x1FCC,['Η','\u0345']) (pointed (pointed (.row7 0x1FCD ['\u1fbf','\u0300'] ['\u1fbf','\u0301']
  ['\u1fbf','\u0342'] ['ι','\u0306'] ['ι','\u0304'] ['ι','\u0308','\u0300'] ['ι','\u0308','\u0301'])
  (0x1FD6,['ι','\u0342']) (pointed (.row3 0x1FD7 ['ι','\u0308','\u0342'] ['Ι','\u0306'] ['Ι','\u0304'])
  (0x1FDA,['Ι','\u0300']) (.three pointed (0x1FDB,['Ι','\u0301']) (0x1FDD,['\u1ffe','\u0300'])
  (0x1FDE,['\u1ffe','\u0301'])))) (0x1FDF,['\u1ffe','\u0342']) (pointed (.row15 0x1FE0 ['υ','\u0306'] ['υ','\u0304']
  ['υ','\u0308','\u0300'] ['υ','\u0308','\u0301'] ['ρ','\u0313'] ['ρ','\u0314'] ['υ','\u0342'] ['υ','\u0308','\u0342']
  ['Υ','\u0306'] ['Υ','\u0304'] ['Υ','\u0300'] ['Υ','\u0301'] ['Ρ','\u0314'] ['\u00a8','\u0300'] ['\u00a8','\u0301'])
  (0x1FEF,['`']) (.row3 0x1FF2 ['ω','\u0300','\u0345'] ['ω','\u0345'] ['ω','\u0301','\u0345'])))))

def decompositionsFrom1FF7 : CodeMap (List Char) :=
  pointed (pointed (pointed (pointed (pointed (.row7 0x1FF7 ['ω','\u0342','\u0345'] ['Ο','\u0300'] ['Ο','\u0301']
  ['Ω','\u0300'] ['Ω','\u0301'] ['Ω','\u0345'] ['\u00b4']) (0x2000,['\u2002']) (.three pointed (0x2001,['\u2003'])
  (0x2126,['Ω']) (0x212A,['K']))) (0x212B,['A','\u030a']) (.fifteen pointed (0x219A,['\u2190','\u0338'])
  (0x219B,['\u2192','\u0338']) (0x21AE,['\u2194','\u0338']) (0x21CD,['\u21d0','\u0338']) (0x21CE,['\u21d4','\u0338'])
  (0x21CF,['\u21d2','\u0338']) (0x2204,['\u2203','\u0338']) (0x2209,['\u2208','\u0338']) (0x220C,['\u220b','\u0338'])
  (0x2224,['\u2223','\u0338']) (0x2226,['\u2225','\u0338']) (0x2241,['\u223c','\u0338']) (0x2244,['\u2243','\u0338'])
  (0x2247,['\u2245','\u0338']) (0x2249,['\u2248','\u0338']))) (0x2260,['=','\u0338']) (pointed (pointed
  (.fifteen pointed (0x2262,['\u2261','\u0338']) (0x226D,['\u224d','\u0338']) (0x226E,['<','\u0338'])
  (0x226F,['>','\u0338']) (0x2270,['\u2264','\u0338']) (0x2271,['\u2265','\u0338']) (0x2274,['\u2272','\u0338'])
  (0x2275,['\u2273','\u0338']) (0x2278,['\u2276','\u0338']) (0x2279,['\u2277','\u0338']) (0x2280,['\u227a','\u0338'])
  (0x2281,['\u227b','\u0338']) (0x2284,['\u2282','\u0338']) (0x2285,['\u2283','\u0338']) (0x2288,['\u2286','\u0338']))
  (0x2289,['\u2287','\u0338']) (.row3 0x22AC ['\u22a2','\u0338'] ['\u22a8','\u0338'] ['\u22a9','\u0338']))
  (0x22AF,['\u22ab','\u0338']) (pointed (pointed (.row3 0x22E0 ['\u227c','\u0338'] ['\u227d','\u0338']
  ['\u2291','\u0338']) (0x22E3,['\u2292','\u0338']) (.row3 0x22EA ['\u22b2','\u0338'] ['\u22b3','\u0338']
  ['\u22b4','\u0338'])) (0x22ED,['\u22b5','\u0338']) (.fifteen pointed (0x2329,['\u3008']) (0x232A,['\u3009'])
  (0x2ADC,['\u2add','\u0338']) (0x304C,['か','\u3099']) (0x304E,['き','\u3099']) (0x3050,['く','\u3099'])
  (0x3052,['け','\u3099']) (0x3054,['こ','\u3099']) (0x3056,['さ','\u3099']) (0x3058,['し','\u3099'])
  (0x305A,['す','\u3099']) (0x305C,['せ','\u3099']) (0x305E,['そ','\u3099']) (0x3060,['た','\u3099'])
  (0x3062,['ち','\u3099']))))) (0x3065,['つ','\u3099']) (pointed (pointed (.fifteen pointed (0x3067,['て','\u3099'])
  (0x3069,['と','\u3099']) (0x3070,['は','\u3099']) (0x3071,['は','\u309a']) (0x3073,['ひ','\u3099'])
  (0x3074,['ひ','\u309a']) (0x3076,['ふ','\u3099']) (0x3077,['ふ','\u309a']) (0x3079,['へ','\u3099'])
  (0x307A,['へ','\u309a']) (0x307C,['ほ','\u3099']) (0x307D,['ほ','\u309a']) (0x3094,['う','\u3099'])
  (0x309E,['ゝ','\u3099']) (0x30AC,['カ','\u3099'])) (0x30AE,['キ','\u3099']) (.fifteen pointed (0x30B0,['ク','\u3099'])
  (0x30B2,['ケ','\u3099']) (0x30B4,['コ','\u3099']) (0x30B6,['サ','\u3099']) (0x30B8,['シ','\u3099'])
  (0x30BA,['ス','\u3099']) (0x30BC,['セ','\u3099']) (0x30BE,['ソ','\u3099']) (0x30C0,['タ','\u3099'])
  (0x30C2,['チ','\u3099']) (0x30C5,['ツ','\u3099']) (0x30C7,['テ','\u3099']) (0x30C9,['ト','\u3099'])
  (0x30D0,['ハ','\u3099']) (0x30D1,['ハ','\u309a']))) (0x30D3,['ヒ','\u3099']) (pointed (pointed (.fifteen pointed
  (0x30D4,['ヒ','\u309a']) (0x30D6,['フ','\u3099']) (0x30D7,['フ','\u309a']) (0x30D9,['ヘ','\u3099'])
  (0x30DA,['ヘ','\u309a']) (0x30DC,['ホ','\u3099']) (0x30DD,['ホ','\u309a']) (0x30F4,['ウ','\u3099'])
  (0x30F7,['ワ','\u3099']) (0x30F8,['ヰ','\u3099']) (0x30F9,['ヱ','\u3099']) (0x30FA,['ヲ','\u3099'])
  (0x30FE,['ヽ','\u3099']) (0xF900,['豈']) (0xF901,['更'])) (0xF902,['車']) (.lone3 0xF903 '賈' '滑' '串')) (0xF906,['句'])
  (pointed (.lone7 0xF907 '龜' '龜' '契' '金' '喇' '奈' '懶') (0xF90E,['癩']) (.lone15 0xF90F '羅' '蘿' '螺' '裸' '邏' '樂' '洛' '烙'
  '珞' '落' '酪' '駱' '亂' '卵' '欄'))))) (0xF91E,['爛']) (pointed (pointed (pointed (.lone15 0xF91F '蘭' '鸞' '嵐' '濫' '藍' '襤' '拉'
  '臘' '蠟' '廊' '朗' '浪' '狼' '郎' '來') (0xF92E,['冷']) (.lone15 0xF92F '勞' '擄' '櫓' '爐' '盧' '老' '蘆' '虜' '路' '露' '魯' '鷺' '碌'
  '祿' '綠')) (0xF93E,['菉']) (pointed (.lone15 0xF93F '錄' '鹿' '論' '壟' '弄' '籠' '聾' '牢' '磊' '賂' '雷' '壘' '屢' '樓' '淚')
  (0xF94E,['漏']) (.lone15 0xF94F '累' '縷' '陋' '勒' '肋' '凜' '凌' '稜' '綾' '菱' '陵' '讀' '拏' '樂' '諾'))) (0xF95E,['丹']) (pointed
  (pointed (.lone15 0xF95F '寧' '怒' '率' '異' '北' '磻' '便' '復' '不' '泌' '數' '索' '參' '塞' '省') (0xF96E,['葉']) (.lone15 0xF96F
  '說' '殺' '辰' '沈' '拾' '若' '掠' '略' '亮' '兩' '凉' '梁' '糧' '良' '諒')) (0xF97E,['量']) (pointed (.lone15 0xF97F '勵' '呂' '女' '廬'
  '旅' '濾' '礪' '閭' '驪' '麗' '黎' '力' '曆' '歷' '轢') (0xF98E,['年']) (pointed (.lone15 0xF98F '憐' '戀' '撚' '漣' '煉' '璉' '秊' '練'
  '聯' '輦' '蓮' '連' '鍊' '列' '劣') (0xF99E,['咽']) (.lone15 0xF99F '烈' '裂' '說' '廉' '念' '捻' '殮' '簾' '獵' '令' '囹' '寧' '嶺' '怜'
  '玲')))))

def decompositionsFromF9AF : CodeMap (List Char) :=
  pointed (pointed (pointed (pointed (.lone15 0xF9AF '羚' '聆' '鈴' '零' '靈' '領' '例' '禮' '醴' '隸' '惡' '了' '僚' '寮' '尿')
  (0xF9BE,['料']) (.lone15 0xF9BF '樂' '燎' '療' '蓼' '遼' '龍' '暈' '阮' '劉' '杻' '柳' '流' '溜' '琉' '留')) (0xF9CE,['硫']) (pointed
  (.lone15 0xF9CF '紐' '類' '六' '戮' '陸' '倫' '崙' '淪' '輪' '律' '慄' '栗' '率' '隆' '利') (0xF9DE,['吏']) (pointed (.lone15 0xF9DF
  '履' '易' '李' '梨' '泥' '理' '痢' '罹' '裏' '裡' '里' '離' '匿' '溺' '吝') (0xF9EE,['燐']) (.lone15 0xF9EF '璘' '藺' '隣' '鱗' '麟' '林'
  '淋' '臨' '立' '笠' '粒' '狀' '炙' '識' '什')))) (0xF9FE,['茶']) (pointed (pointed (.lone15 0xF9FF '刺' '切' '度' '拓' '糖' '宅' '洞'
  '暴' '輻' '行' '降' '見' '廓' '兀' '嗀') (0xFA10,['塚']) (pointed (.three pointed (0xFA12,['晴']) (0xFA15,['凞']) (0xFA16,['猪']))
  (0xFA17,['益']) (pointed (.lone7 0xFA18 '礼' '神' '祥' '福' '靖' '精' '羽') (0xFA20,['蘒']) (.three pointed (0xFA22,['諸'])
  (0xFA25,['逸']) (0xFA26,['都']))))) (0xFA2A,['飯']) (pointed (pointed (.lone3 0xFA2B '飼' '館' '鶴') (0xFA2E,['郞'])
  (.lone15 0xFA2F '隷' '侮' '僧' '免' '勉' '勤' '卑' '喝' '嘆' '器' '塀' '墨' '層' '屮' '悔')) (0xFA3E,['慨']) (.lone15 0xFA3F '憎' '懲'
  '敏' '既' '暑' '梅' '海' '渚' '漢' '煮' '爫' '琢' '碑' '社' '祉')))) (0xFA4E,['祈']) (pointed (pointed (pointed (.lone15 0xFA4F '祐'
  '祖' '祝' '禍' '禎' '穀' '突' '節' '練' '縉' '繁' '署' '者' '臭' '艹') (0xFA5E,['艹']) (.lone15 0xFA5F '著' '褐' '視' '謁' '謹' '賓' '贈'
  '辶' '逸' '難' '響' '頻' '恵' '𤋮' '舘')) (0xFA70,['並']) (pointed (pointed (.lone7 0xFA71 '况' '全' '侀' '充' '冀' '勇' '勺')
  (0xFA78,['喝']) (.lone15 0xFA79 '啕' '喙' '嗢' '塚' '墳' '奄' '奔' '婢' '嬨' '廒' '廙' '彩' '徭' '惘' '慎')) (0xFA88,['愈'])
  (.lone15 0xFA89 '憎' '慠' '懲' '戴' '揄' '搜' '摒' '敖' '晴' '朗' '望' '杖' '歹' '殺' '流'))) (0xFA98,['滛']) (pointed (pointed
  (.lone15 0xFA99 '滋' '漢' '瀞' '煮' '瞧' '爵' '犯' '猪' '瑱' '甆' '画' '瘝' '瘟' '益' '盛') (0xFAA8,['直']) (.lone15 0xFAA9 '睊' '着'
  '磌' '窱' '節' '类' '絛' '練' '缾' '者' '荒' '華' '蝹' '襁' '覆')) (0xFAB8,['視']) (pointed (.lone15 0xFAB9 '調' '諸' '請' '謁' '諾' '諭'
  '謹' '變' '贈' '輸' '遲' '醙' '鉶' '陼' '難') (0xFAC8,['靖']) (pointed (.lone15 0xFAC9 '韛' '響' '頋' '頻' '鬒' '龜' '𢡊' '𢡄' '𣏕' '㮝'
  '䀘' '䀹' '𥉉' '𥳐' '𧻓') (0xFAD8,['齃']) (.three pointed (0xFAD9,['龎']) (0xFB1D,['\u05d9','\u05b4'])
  (0xFB1F,['\u05f2','\u05b7']))))))

def decompositionsFromFB2B : CodeMap (List Char) :=
  pointed (pointed (pointed (pointed (pointed (.row3 0xFB2B ['\u05e9','\u05c2'] ['\u05e9','\u05bc','\u05c1']
  ['\u05e9','\u05bc','\u05c2']) (0xFB2E,['\u05d0','\u05b7']) (pointed (.row7 0xFB2F ['\u05d0','\u05b8']
  ['\u05d0','\u05bc'] ['\u05d1','\u05bc'] ['\u05d2','\u05bc'] ['\u05d3','\u05bc'] ['\u05d4','\u05bc']
  ['\u05d5','\u05bc']) (0xFB36,['\u05d6','\u05bc']) (.row3 0xFB38 ['\u05d8','\u05bc'] ['\u05d9','\u05bc']
  ['\u05da','\u05bc']))) (0xFB3B,['\u05db','\u05bc']) (pointed (.seven pointed (0xFB3C,['\u05dc','\u05bc'])
  (0xFB3E,['\u05de','\u05bc']) (0xFB40,['\u05e0','\u05bc']) (0xFB41,['\u05e1','\u05bc']) (0xFB43,['\u05e3','\u05bc'])
  (0xFB44,['\u05e4','\u05bc']) (0xFB46,['\u05e6','\u05bc'])) (0xFB47,['\u05e7','\u05bc']) (pointed (.row7 0xFB48
  ['\u05e8','\u05bc'] ['\u05e9','\u05bc'] ['\u05ea','\u05bc'] ['\u05d5','\u05b9'] ['\u05d1','\u05bf']
  ['\u05db','\u05bf'] ['\u05e4','\u05bf']) (0x1109A,[Char.ofNat 0x11099,Char.ofNat 0x110BA]) (.three pointed
  (0x1109C,[Char.ofNat 0x1109B,Char.ofNat 0x110BA]) (0x110AB,[Char.ofNat 0x110A5,Char.ofNat 0x110BA])
  (0x1112E,[Char.ofNat 0x11131,Char.ofNat 0x11127]))))) (0x1112F,[Char.ofNat 0x11132,Char.ofNat 0x11127]) (pointed
  (pointed (.seven pointed (0x1134B,[Char.ofNat 0x11347,Char.ofNat 0x1133E])
  (0x1134C,[Char.ofNat 0x11347,Char.ofNat 0x11357]) (0x114BB,[Char.ofNat 0x114B9,Char.ofNat 0x114BA])
  (0x114BC,[Char.ofNat 0x114B9,Char.ofNat 0x114B0]) (0x114BE,[Char.ofNat 0x114B9,Char.ofNat 0x114BD])
  (0x115BA,[Char.ofNat 0x115B8,Char.ofNat 0x115AF]) (0x115BB,[Char.ofNat 0x115B9,Char.ofNat 0x115AF]))
  (0x11938,[Char.ofNat 0x11935,Char.ofNat 0x11930]) (.row7 0x1D15E [Char.ofNat 0x1D157,Char.ofNat 0x1D165]
  [Char.ofNat 0x1D158,Char.ofNat 0x1D165] [Char.ofNat 0x1D158,Char.ofNat 0x1D165,Char.ofNat 0x1D16E]
  [Char.ofNat 0x1D158,Char.ofNat 0x1D165,Char.ofNat 0x1D16F] [Char.ofNat 0x1D158,Char.ofNat 0x1D165,Char.ofNat 0x1D170]
  [Char.ofNat 0x1D158,Char.ofNat 0x1D165,Char.ofNat 0x1D171]
  [Char.ofNat 0x1D158,Char.ofNat 0x1D165,Char.ofNat 0x1D172])) (0x1D1BB,[Char.ofNat 0x1D1B9,Char.ofNat 0x1D165])
  (pointed (pointed (.row3 0x1D1BC [Char.ofNat 0x1D1BA,Char.ofNat 0x1D165]
  [Char.ofNat 0x1D1B9,Char.ofNat 0x1D165,Char.ofNat 0x1D16E] [Char.ofNat 0x1D1BA,Char.ofNat 0x1D165,Char.ofNat 0x1D16E])
  (0x1D1BF,[Char.ofNat 0x1D1B9,Char.ofNat 0x1D165,Char.ofNat 0x1D16F]) (.three pointed
  (0x1D1C0,[Char.ofNat 0x1D1BA,Char.ofNat 0x1D165,Char.ofNat 0x1D16F]) (0x2F800,['丽']) (0x2F801,['丸']))) (0x2F802,['乁'])
  (pointed (.lone3 0x2F803 '𠄢' '你' '侮') (0x2F806,['侻']) (.lone7 0x2F807 '倂' '偺' '備' '僧' '像' '㒞' '𠘺'))))) (0x2F80E,['免'])
  (pointed (pointed (.lone15 0x2F80F '兔' '兤' '具' '𠔜' '㒹' '內' '再' '𠕋' '冗' '冤' '仌' '冬' '况' '𩇟' '凵') (0x2F81E,['刃'])
  (.lone15 0x2F81F '㓟' '刻' '剆' '割' '剷' '㔕' '勇' '勉' '勤' '勺' '包' '匆' '北' '卉' '卑')) (0x2F82E,['博']) (pointed
  (.lone15 0x2F82F '即' '卽' '卿' '卿' '卿' '𠨬' '灰' '及' '叟' '𠭣' '叫' '叱' '吆' '咞' '吸') (0x2F83E,['呈']) (pointed
  (.lone15 0x2F83F '周' '咢' '哶' '唐' '啓' '啣' '善' '善' '喙' '喫' '喳' '嗂' '圖' '嘆' '圗') (0x2F84E,['噑']) (.lone15 0x2F84F '噴' '切'
  '壮' '城' '埴' '堍' '型' '堲' '報' '墬' '𡓤' '売' '壷' '夆' '多'))))) (0x2F85E,['夢']) (pointed (pointed (pointed (.lone15 0x2F85F
  '奢' '𡚨' '𡛪' '姬' '娛' '娧' '姘' '婦' '㛮' '㛼' '嬈' '嬾' '嬾' '𡧈' '寃') (0x2F86E,['寘']) (.lone15 0x2F86F '寧' '寳' '𡬘' '寿' '将' '当'
  '尢' '㞁' '屠' '屮' '峀' '岍' '𡷤' '嵃' '𡷦')) (0x2F87E,['嵮']) (pointed (.lone15 0x2F87F '嵫' '嵼' '巡' '巢' '㠯' '巽' '帨' '帽' '幩'
  '㡢' '𢆃' '㡼' '庰' '庳' '庶') (0x2F88E,['廊']) (.lone15 0x2F88F '𪎒' '廾' '𢌱' '𢌱' '舁' '弢' '弢' '㣇' '𣊸' '𦇚' '形' '彫' '㣣' '徚'
  '忍'))) (0x2F89E,['志']) (pointed (pointed (.lone15 0x2F89F '忹' '悁' '㤺' '㤜' '悔' '𢛔' '惇' '慈' '慌' '慎' '慌' '慺' '憎' '憲' '憤')
  (0x2F8AE,['憯']) (.lone15 0x2F8AF '懞' '懲' '懶' '成' '戛' '扝' '抱' '拔' '捐' '𢬌' '挽' '拼' '捨' '掃' '揤')) (0x2F8BE,['𢯱'])
  (pointed (.lone15 0x2F8BF '搢' '揅' '掩' '㨮' '摩' '摾' '撝' '摷' '㩬' '敏' '敬' '𣀊' '旣' '書' '晉') (0x2F8CE,['㬙']) (pointed
  (.lone15 0x2F8CF '暑' '㬈' '㫤' '冒' '冕' '最' '暜' '肭' '䏙' '朗' '望' '朡' '杞' '杓' '𣏃') (0x2F8DE,['㭉']) (.lone15 0x2F8DF '柺' '枅'
  '桒' '梅' '𣑭' '梎' '栟' '椔' '㮝' '楂' '榣' '槪' '檨' '𣚣' '櫛')))))

def decompositionsFrom2F8EF : CodeMap (List Char) :=
  pointed (pointed (pointed (pointed (.lone15 0x2F8EF '次' '𣢧' '歔' '㱎' '歲' '殟' '殺' '殻' '𣪍' '𡴋' '𣫺' '汎' '𣲼' '沿' '泍')
  (0x2F8FE,['汧']) (.lone15 0x2F8FF '洖' '派' '海' '流' '浩' '浸' '涅' '𣴞' '洴' '港' '湮' '㴳' '滋' '滇' '𣻑')) (0x2F90E,['淹'])
  (pointed (.lone15 0x2F90F '潮' '𣽞' '𣾎' '濆' '瀹' '瀞' '瀛' '㶖' '灊' '災' '灷' '炭' '𠔥' '煅' '𤉣') (0x2F91E,['熜'])
  (.lone15 0x2F91F '𤎫' '爨' '爵' '牐' '𤘈' '犀' '犕' '𤜵' '𤠔' '獺' '王' '㺬' '玥' '㺸' '㺸'))) (0x2F92E,['瑇']) (pointed (pointed
  (.lone15 0x2F92F '瑜' '瑱' '璅' '瓊' '㼛' '甤' '𤰶' '甾' '𤲒' '異' '𢆟' '瘐' '𤾡' '𤾸' '𥁄') (0x2F93E,['㿼']) (.lone15 0x2F93F '䀈' '直'
  '𥃳' '𥃲' '𥄙' '𥄳' '眞' '真' '真' '睊' '䀹' '瞋' '䁆' '䂖' '𥐝')) (0x2F94E,['硎']) (pointed (.lone15 0x2F94F '碌' '磌' '䃣' '𥘦' '祖'
  '𥚚' '𥛅' '福' '秫' '䄯' '穀' '穊' '穏' '𥥼' '𥪧') (0x2F95E,['𥪧']) (pointed (.lone15 0x2F95F '竮' '䈂' '𥮫' '篆' '築' '䈧' '𥲀' '糒' '䊠'
  '糨' '糣' '紀' '𥾆' '絣' '䌁') (0x2F96E,['緇']) (.lone15 0x2F96F '縂' '繅' '䌴' '𦈨' '𦉇' '䍙' '𦋙' '罺' '𦌾' '羕' '翺' '者' '𦓚' '𦔣'
  '聠'))))) (0x2F97E,['𦖨']) (pointed (pointed (pointed (.lone15 0x2F97F '聰' '𣍟' '䏕' '育' '脃' '䐋' '脾' '媵' '𦞧' '𦞵' '𣎓' '𣎜'
  '舁' '舄' '辞') (0x2F98E,['䑫']) (.lone15 0x2F98F '芑' '芋' '芝' '劳' '花' '芳' '芽' '苦' '𦬼' '若' '茝' '荣' '莭' '茣' '莽'))
  (0x2F99E,['菧']) (pointed (.lone15 0x2F99F '著' '荓' '菊' '菌' '菜' '𦰶' '𦵫' '𦳕' '䔫' '蓱' '蓳' '蔖' '𧏊' '蕤' '𦼬') (0x2F9AE,['䕝'])
  (pointed (.lone15 0x2F9AF '䕡' '𦾱' '𧃒' '䕫' '虐' '虜' '虧' '虩' '蚩' '蚈' '蜎' '蛢' '蝹' '蜨' '蝫') (0x2F9BE,['螆'])
  (.lone15 0x2F9BF '䗗' '蟡' '蠁' '䗹' '衠' '衣' '𧙧' '裗' '裞' '䘵' '裺' '㒻' '𧢮' '𧥦' '䚾')))) (0x2F9CE,['䛇']) (pointed (pointed
  (.lone15 0x2F9CF '誠' '諭' '變' '豕' '𧲨' '貫' '賁' '贛' '起' '𧼯' '𠠄' '跋' '趼' '跰' '𠣞') (0x2F9DE,['軔']) (.lone15 0x2F9DF '輸' '𨗒'
  '𨗭' '邔' '郱' '鄑' '𨜮' '鄛' '鈸' '鋗' '鋘' '鉼' '鏹' '鐕' '𨯺')) (0x2F9EE,['開']) (pointed (.lone15 0x2F9EF '䦕' '閷' '𨵷' '䧦' '雃'
  '嶲' '霣' '𩅅' '𩈚' '䩮' '䩶' '韠' '𩐊' '䪲' '𩒖') (0x2F9FE,['頋']) (pointed (.lone15 0x2F9FF '頋' '頩' '𩖶' '飢' '䬳' '餩' '馧' '駂' '駾'
  '䯎' '𩬰' '鬒' '鱀' '鳽' '䳎') (0x2FA0E,['䳭']) (.lone15 0x2FA0F '鵧' '𪃎' '䳸' '𪄅' '𪈎' '𪊑' '麻' '䵖' '黹' '黾' '鼅' '鼏' '鼖' '鼻'
  '𪘀')))))

def decompositions : CodeMap (List Char) :=
  pointed (pointed decompositionsFrom00C0 (0x477,['ѵ','\u030f']) (pointed decompositionsFrom04C1
  (0x1EB7,['a','\u0323','\u0306']) decompositionsFrom1EB8)) (0x1FF6,['ω','\u0342']) (pointed (pointed
  decompositionsFrom1FF7 (0xF9AE,['瑩']) decompositionsFromF9AF) (0xFB2A,['\u05e9','\u05c1']) (pointed
  decompositionsFromFB2B (0x2F8EE,['㰘']) decompositionsFrom2F8EF))

end Terakoya.Text
