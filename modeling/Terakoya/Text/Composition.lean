import Terakoya.Text.Decomposition

/-! Primary composites: pairs of characters that canonical composition joins, Hangul
syllables apart (Unicode 15.0). -/
namespace Terakoya.Text

open CodeMap (pointed)

def compositesFrom003C : CodeMap (List Char) :=
  pointed (pointed (pointed (pointed (.row3 0x3C ['\u226e'] ['\u2260'] ['\u226f'])
  (0x41,['À','Á','Â','Ã','Ā','Ă','Ȧ','Ä','Ả','Å','Ǎ','Ȁ','Ȃ','Ạ','Ḁ','Ą']) (.row15 0x42 ['Ḃ','Ḅ','Ḇ']
  ['Ć','Ĉ','Ċ','Č','Ç'] ['Ḋ','Ď','Ḍ','Ḑ','Ḓ','Ḏ'] ['È','É','Ê','Ẽ','Ē','Ĕ','Ė','Ë','Ẻ','Ě','Ȅ','Ȇ','Ẹ','Ȩ','Ę','Ḙ','Ḛ']
  ['Ḟ'] ['Ǵ','Ĝ','Ḡ','Ğ','Ġ','Ǧ','Ģ'] ['Ĥ','Ḣ','Ḧ','Ȟ','Ḥ','Ḩ','Ḫ']
  ['Ì','Í','Î','Ĩ','Ī','Ĭ','İ','Ï','Ỉ','Ǐ','Ȉ','Ȋ','Ị','Į','Ḭ'] ['Ĵ'] ['Ḱ','Ǩ','Ḳ','Ķ','Ḵ'] ['Ĺ','Ľ','Ḷ','Ļ','Ḽ','Ḻ']
  ['Ḿ','Ṁ','Ṃ'] ['Ǹ','Ń','Ñ','Ṅ','Ň','Ṇ','Ņ','Ṋ','Ṉ'] ['Ò','Ó','Ô','Õ','Ō','Ŏ','Ȯ','Ö','Ỏ','Ő','Ǒ','Ȍ','Ȏ','Ơ','Ọ','Ǫ']
  ['Ṕ','Ṗ'])) (0x52,['Ŕ','Ṙ','Ř','Ȑ','Ȓ','Ṛ','Ŗ','Ṟ']) (.row7 0x53 ['Ś','Ŝ','Ṡ','Š','Ṣ','Ș','Ş']
  ['Ṫ','Ť','Ṭ','Ț','Ţ','Ṱ','Ṯ'] ['Ù','Ú','Û','Ũ','Ū','Ŭ','Ü','Ủ','Ů','Ű','Ǔ','Ȕ','Ȗ','Ư','Ụ','Ṳ','Ų','Ṷ','Ṵ'] ['Ṽ','Ṿ']
  ['Ẁ','Ẃ','Ŵ','Ẇ','Ẅ','Ẉ'] ['Ẋ','Ẍ'] ['Ỳ','Ý','Ŷ','Ỹ','Ȳ','Ẏ','Ÿ','Ỷ','Ỵ'])) (0x5A,['Ź','Ẑ','Ż','Ž','Ẓ','Ẕ']) (pointed
  (.row15 0x61 ['à','á','â','ã','ā','ă','ȧ','ä','ả','å','ǎ','ȁ','ȃ','ạ','ḁ','ą'] ['ḃ','ḅ','ḇ'] ['ć','ĉ','ċ','č','ç']
  ['ḋ','ď','ḍ','ḑ','ḓ','ḏ'] ['è','é','ê','ẽ','ē','ĕ','ė','ë','ẻ','ě','ȅ','ȇ','ẹ','ȩ','ę','ḙ','ḛ'] ['ḟ']
  ['ǵ','ĝ','ḡ','ğ','ġ','ǧ','ģ'] ['ĥ','ḣ','ḧ','ȟ','ḥ','ḩ','ḫ','ẖ']
  ['ì','í','î','ĩ','ī','ĭ','ï','ỉ','ǐ','ȉ','ȋ','ị','į','ḭ'] ['ĵ','ǰ'] ['ḱ','ǩ','ḳ','ķ','ḵ'] ['ĺ','ľ','ḷ','ļ','ḽ','ḻ']
  ['ḿ','ṁ','ṃ'] ['ǹ','ń','ñ','ṅ','ň','ṇ','ņ','ṋ','ṉ'] ['ò','ó','ô','õ','ō','ŏ','ȯ','ö','ỏ','ő','ǒ','ȍ','ȏ','ơ','ọ','ǫ'])
  (0x70,['ṕ','ṗ']) (pointed (.row7 0x72 ['ŕ','ṙ','ř','ȑ','ȓ','ṛ','ŗ','ṟ'] ['ś','ŝ','ṡ','š','ṣ','ș','ş']
  ['ṫ','ẗ','ť','ṭ','ț','ţ','ṱ','ṯ'] ['ù','ú','û','ũ','ū','ŭ','ü','ủ','ů','ű','ǔ','ȕ','ȗ','ư','ụ','ṳ','ų','ṷ','ṵ']
  ['ṽ','ṿ'] ['ẁ','ẃ','ŵ','ẇ','ẅ','ẘ','ẉ'] ['ẋ','ẍ']) (0x79,['ỳ','ý','ŷ','ỹ','ȳ','ẏ','ÿ','ỷ','ẙ','ỵ']) (.fifteen pointed
  (0x7A,['ź','ẑ','ż','ž','ẓ','ẕ']) (0xA8,['\u1fed','\u0385','\u1fc1']) (0xC2,['Ầ','Ấ','Ẫ','Ẩ']) (0xC4,['Ǟ'])
  (0xC5,['Ǻ']) (0xC6,['Ǽ','Ǣ']) (0xC7,['Ḉ']) (0xCA,['Ề','Ế','Ễ','Ể']) (0xCF,['Ḯ']) (0xD4,['Ồ','Ố','Ỗ','Ổ'])
  (0xD5,['Ṍ','Ȭ','Ṏ']) (0xD6,['Ȫ']) (0xD8,['Ǿ']) (0xDC,['Ǜ','Ǘ','Ǖ','Ǚ']) (0xE2,['ầ','ấ','ẫ','ẩ']))))) (0xE4,['ǟ'])
  (pointed (pointed (.row3 0xE5 ['ǻ'] ['ǽ','ǣ'] ['ḉ']) (0xEA,['ề','ế','ễ','ể']) (pointed (.fifteen pointed (0xEF,['ḯ'])
  (0xF4,['ồ','ố','ỗ','ổ']) (0xF5,['ṍ','ȭ','ṏ']) (0xF6,['ȫ']) (0xF8,['ǿ']) (0xFC,['ǜ','ǘ','ǖ','ǚ'])
  (0x102,['Ằ','Ắ','Ẵ','Ẳ']) (0x103,['ằ','ắ','ẵ','ẳ']) (0x112,['Ḕ','Ḗ']) (0x113,['ḕ','ḗ']) (0x14C,['Ṑ','Ṓ'])
  (0x14D,['ṑ','ṓ']) (0x15A,['Ṥ']) (0x15B,['ṥ']) (0x160,['Ṧ'])) (0x161,['ṧ']) (.row3 0x168 ['Ṹ'] ['ṹ'] ['Ṻ'])))
  (0x16B,['ṻ']) (pointed (.fifteen pointed (0x17F,['ẛ']) (0x1A0,['Ờ','Ớ','Ỡ','Ở','Ợ']) (0x1A1,['ờ','ớ','ỡ','ở','ợ'])
  (0x1AF,['Ừ','Ứ','Ữ','Ử','Ự']) (0x1B0,['ừ','ứ','ữ','ử','ự']) (0x1B7,['Ǯ']) (0x1EA,['Ǭ']) (0x1EB,['ǭ']) (0x226,['Ǡ'])
  (0x227,['ǡ']) (0x228,['Ḝ']) (0x229,['ḝ']) (0x22E,['Ȱ']) (0x22F,['ȱ']) (0x292,['ǯ']))
  (0x391,['Ὰ','Ά','Ᾱ','Ᾰ','Ἀ','Ἁ','ᾼ']) (.fifteen pointed (0x395,['Ὲ','Έ','Ἐ','Ἑ']) (0x397,['Ὴ','Ή','Ἠ','Ἡ','ῌ'])
  (0x399,['Ὶ','Ί','Ῑ','Ῐ','Ϊ','Ἰ','Ἱ']) (0x39F,['Ὸ','Ό','Ὀ','Ὁ']) (0x3A1,['Ῥ']) (0x3A5,['Ὺ','Ύ','Ῡ','Ῠ','Ϋ','Ὑ'])
  (0x3A9,['Ὼ','Ώ','Ὠ','Ὡ','ῼ']) (0x3AC,['ᾴ']) (0x3AE,['ῄ']) (0x3B1,['ὰ','ά','ᾱ','ᾰ','ἀ','ἁ','ᾶ','ᾳ'])
  (0x3B5,['ὲ','έ','ἐ','ἑ']) (0x3B7,['ὴ','ή','ἠ','ἡ','ῆ','ῃ']) (0x3B9,['ὶ','ί','ῑ','ῐ','ϊ','ἰ','ἱ','ῖ'])
  (0x3BF,['ὸ','ό','ὀ','ὁ']) (0x3C1,['ῤ','ῥ']))))

def compositesFrom03C9 : CodeMap (List Char) :=
  pointed (pointed (pointed (pointed (pointed (.row3 0x3C9 ['ὼ','ώ','ὠ','ὡ','ῶ','ῳ'] ['ῒ','ΐ','ῗ'] ['ῢ','ΰ','ῧ'])
  (0x3CE,['ῴ']) (pointed .leaf (0x3D2,['ϓ','ϔ']) .leaf)) (0x406,['Ї']) (.fifteen pointed (0x410,['Ӑ','Ӓ']) (0x413,['Ѓ'])
  (0x415,['Ѐ','Ӗ','Ё']) (0x416,['Ӂ','Ӝ']) (0x417,['Ӟ']) (0x418,['Ѝ','Ӣ','Й','Ӥ']) (0x41A,['Ќ']) (0x41E,['Ӧ'])
  (0x423,['Ӯ','Ў','Ӱ','Ӳ']) (0x427,['Ӵ']) (0x42B,['Ӹ']) (0x42D,['Ӭ']) (0x430,['ӑ','ӓ']) (0x433,['ѓ'])
  (0x435,['ѐ','ӗ','ё']))) (0x436,['ӂ','ӝ']) (.fifteen pointed (0x437,['ӟ']) (0x438,['ѝ','ӣ','й','ӥ']) (0x43A,['ќ'])
  (0x43E,['ӧ']) (0x443,['ӯ','ў','ӱ','ӳ']) (0x447,['ӵ']) (0x44B,['ӹ']) (0x44D,['ӭ']) (0x456,['ї']) (0x474,['Ѷ'])
  (0x475,['ѷ']) (0x4D8,['Ӛ']) (0x4D9,['ӛ']) (0x4E8,['Ӫ']) (0x4E9,['ӫ']))) (0x627,['\u0622','\u0623','\u0625']) (pointed
  (.fifteen pointed (0x648,['\u0624']) (0x64A,['\u0626']) (0x6C1,['\u06c2']) (0x6D2,['\u06d3']) (0x6D5,['\u06c0'])
  (0x928,['ऩ']) (0x930,['ऱ']) (0x933,['ऴ']) (0x9C7,['\u09cb','\u09cc']) (0xB47,['\u0b4b','\u0b48','\u0b4c'])
  (0xB92,['ஔ']) (0xBC6,['\u0bca','\u0bcc']) (0xBC7,['\u0bcb']) (0xC46,['\u0c48']) (0xCBF,['\u0cc0']))
  (0xCC6,['\u0cca','\u0cc7','\u0cc8']) (.fifteen pointed (0xCCA,['\u0ccb']) (0xD46,['\u0d4a','\u0d4c'])
  (0xD47,['\u0d4b']) (0xDD9,['\u0dda','\u0ddc','\u0dde']) (0xDDC,['\u0ddd']) (0x1025,['ဦ']) (0x1B05,['ᬆ'])
  (0x1B07,['ᬈ']) (0x1B09,['ᬊ']) (0x1B0B,['ᬌ']) (0x1B0D,['ᬎ']) (0x1B11,['ᬒ']) (0x1B3A,['\u1b3b']) (0x1B3C,['\u1b3d'])
  (0x1B3E,['\u1b40'])))) (0x1B3F,['\u1b41']) (pointed (pointed (.fifteen pointed (0x1B42,['\u1b43']) (0x1E36,['Ḹ'])
  (0x1E37,['ḹ']) (0x1E5A,['Ṝ']) (0x1E5B,['ṝ']) (0x1E62,['Ṩ']) (0x1E63,['ṩ']) (0x1EA0,['Ậ','Ặ']) (0x1EA1,['ậ','ặ'])
  (0x1EB8,['Ệ']) (0x1EB9,['ệ']) (0x1ECC,['Ộ']) (0x1ECD,['ộ']) (0x1F00,['ἂ','ἄ','ἆ','ᾀ']) (0x1F01,['ἃ','ἅ','ἇ','ᾁ']))
  (0x1F02,['ᾂ']) (.row15 0x1F03 ['ᾃ'] ['ᾄ'] ['ᾅ'] ['ᾆ'] ['ᾇ'] ['Ἂ','Ἄ','Ἆ','ᾈ'] ['Ἃ','Ἅ','Ἇ','ᾉ'] ['ᾊ'] ['ᾋ'] ['ᾌ']
  ['ᾍ'] ['ᾎ'] ['ᾏ'] ['ἒ','ἔ'] ['ἓ','ἕ'])) (0x1F18,['Ἒ','Ἔ']) (pointed (pointed (.three pointed (0x1F19,['Ἓ','Ἕ'])
  (0x1F20,['ἢ','ἤ','ἦ','ᾐ']) (0x1F21,['ἣ','ἥ','ἧ','ᾑ'])) (0x1F22,['ᾒ']) (.row15 0x1F23 ['ᾓ'] ['ᾔ'] ['ᾕ'] ['ᾖ'] ['ᾗ']
  ['Ἢ','Ἤ','Ἦ','ᾘ'] ['Ἣ','Ἥ','Ἧ','ᾙ'] ['ᾚ'] ['ᾛ'] ['ᾜ'] ['ᾝ'] ['ᾞ'] ['ᾟ'] ['ἲ','ἴ','ἶ'] ['ἳ','ἵ','ἷ']))
  (0x1F38,['Ἲ','Ἴ','Ἶ']) (.seven pointed (0x1F39,['Ἳ','Ἵ','Ἷ']) (0x1F40,['ὂ','ὄ']) (0x1F41,['ὃ','ὅ']) (0x1F48,['Ὂ','Ὄ'])
  (0x1F49,['Ὃ','Ὅ']) (0x1F50,['ὒ','ὔ','ὖ']) (0x1F51,['ὓ','ὕ','ὗ']))))

def compositesFrom1F60 : CodeMap (List Char) :=
  pointed (pointed (pointed (.row15 0x1F60 ['ὢ','ὤ','ὦ','ᾠ'] ['ὣ','ὥ','ὧ','ᾡ'] ['ᾢ'] ['ᾣ'] ['ᾤ'] ['ᾥ'] ['ᾦ'] ['ᾧ']
  ['Ὢ','Ὤ','Ὦ','ᾨ'] ['Ὣ','Ὥ','Ὧ','ᾩ'] ['ᾪ'] ['ᾫ'] ['ᾬ'] ['ᾭ'] ['ᾮ']) (0x1F6F,['ᾯ']) (.fifteen pointed (0x1F70,['ᾲ'])
  (0x1F74,['ῂ']) (0x1F7C,['ῲ']) (0x1FB6,['ᾷ']) (0x1FBF,['\u1fcd','\u1fce','\u1fcf']) (0x1FC6,['ῇ']) (0x1FF6,['ῷ'])
  (0x1FFE,['\u1fdd','\u1fde','\u1fdf']) (0x2190,['\u219a']) (0x2192,['\u219b']) (0x2194,['\u21ae']) (0x21D0,['\u21cd'])
  (0x21D2,['\u21cf']) (0x21D4,['\u21ce']) (0x2203,['\u2204']))) (0x2208,['\u2209']) (pointed (.fifteen pointed
  (0x220B,['\u220c']) (0x2223,['\u2224']) (0x2225,['\u2226']) (0x223C,['\u2241']) (0x2243,['\u2244'])
  (0x2245,['\u2247']) (0x2248,['\u2249']) (0x224D,['\u226d']) (0x2261,['\u2262']) (0x2264,['\u2270'])
  (0x2265,['\u2271']) (0x2272,['\u2274']) (0x2273,['\u2275']) (0x2276,['\u2278']) (0x2277,['\u2279']))
  (0x227A,['\u2280']) (pointed (.row3 0x227B ['\u2281'] ['\u22e0'] ['\u22e1']) (0x2282,['\u2284']) (.seven pointed
  (0x2283,['\u2285']) (0x2286,['\u2288']) (0x2287,['\u2289']) (0x2291,['\u22e2']) (0x2292,['\u22e3'])
  (0x22A2,['\u22ac']) (0x22A8,['\u22ad']))))) (0x22A9,['\u22ae']) (pointed (pointed (.fifteen pointed
  (0x22AB,['\u22af']) (0x22B2,['\u22ea']) (0x22B3,['\u22eb']) (0x22B4,['\u22ec']) (0x22B5,['\u22ed']) (0x3046,['ゔ'])
  (0x304B,['が']) (0x304D,['ぎ']) (0x304F,['ぐ']) (0x3051,['げ']) (0x3053,['ご']) (0x3055,['ざ']) (0x3057,['じ'])
  (0x3059,['ず']) (0x305B,['ぜ'])) (0x305D,['ぞ']) (.fifteen pointed (0x305F,['だ']) (0x3061,['ぢ']) (0x3064,['づ'])
  (0x3066,['で']) (0x3068,['ど']) (0x306F,['ば','ぱ']) (0x3072,['び','ぴ']) (0x3075,['ぶ','ぷ']) (0x3078,['べ','ぺ'])
  (0x307B,['ぼ','ぽ']) (0x309D,['ゞ']) (0x30A6,['ヴ']) (0x30AB,['ガ']) (0x30AD,['ギ']) (0x30AF,['グ']))) (0x30B1,['ゲ'])
  (pointed (.fifteen pointed (0x30B3,['ゴ']) (0x30B5,['ザ']) (0x30B7,['ジ']) (0x30B9,['ズ']) (0x30BB,['ゼ']) (0x30BD,['ゾ'])
  (0x30BF,['ダ']) (0x30C1,['ヂ']) (0x30C4,['ヅ']) (0x30C6,['デ']) (0x30C8,['ド']) (0x30CF,['バ','パ']) (0x30D2,['ビ','ピ'])
  (0x30D5,['ブ','プ']) (0x30D8,['ベ','ペ'])) (0x30DB,['ボ','ポ']) (.fifteen pointed (0x30EF,['ヷ']) (0x30F0,['ヸ'])
  (0x30F1,['ヹ']) (0x30F2,['ヺ']) (0x30FD,['ヾ']) (0x11099,[Char.ofNat 0x1109A]) (0x1109B,[Char.ofNat 0x1109C])
  (0x110A5,[Char.ofNat 0x110AB]) (0x11131,[Char.ofNat 0x1112E]) (0x11132,[Char.ofNat 0x1112F])
  (0x11347,[Char.ofNat 0x1134B,Char.ofNat 0x1134C]) (0x114B9,[Char.ofNat 0x114BC,Char.ofNat 0x114BB,Char.ofNat 0x114BE])
  (0x115B8,[Char.ofNat 0x115BA]) (0x115B9,[Char.ofNat 0x115BB]) (0x11935,[Char.ofNat 0x11938]))))

def composites : CodeMap (List Char) :=
  pointed compositesFrom003C (0x3C5,['ὺ','ύ','ῡ','ῠ','ϋ','ὐ','ὑ','ῦ']) (pointed compositesFrom03C9
  (0x1F59,['Ὓ','Ὕ','Ὗ']) compositesFrom1F60)

/-- Each of them with the second character, which it ends with once it is taken apart. -/
def paired (made : List Char) : List (Char × Char) :=
  made.map fun c => (((decompositions.value? c.toNat).getD []).getLastD c, c)

end Terakoya.Text
