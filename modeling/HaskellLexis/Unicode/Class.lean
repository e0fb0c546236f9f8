/-!
# Classes of characters beyond ASCII

The four classes that lexemes are made of, as ranges of code points of the
Unicode character database, version 14. A code point lies in at most one
range, so the classes are disjoint.
-/

namespace HaskellLexis

/-- `letter` is general category L; `numeric` is any other character with a
numeric value; `symbol` is punctuation other than brackets and quotes, and
every symbol category; `blank` is white space. -/
inductive CharClass where
  | letter
  | numeric
  | symbol
  | blank
  deriving DecidableEq

/-- A run of neighbouring code points, both ends included. -/
structure CharRange where
  first : Nat
  last : Nat
  cls : CharClass

namespace CharClass

/-- Ranges are sorted, so the search stops at the first one past `n`. -/
def find? (n : Nat) : List CharRange → Option CharClass
  | [] => none
  | r :: rs => if n < r.first then none else if n ≤ r.last then some r.cls else find? n rs

private def l (a b : Nat) : CharRange := ⟨a, b, letter⟩

private def n (a b : Nat) : CharRange := ⟨a, b, numeric⟩

private def s (a b : Nat) : CharRange := ⟨a, b, symbol⟩

private def w (a b : Nat) : CharRange := ⟨a, b, blank⟩

/-- Up to the Indic scripts. -/
def alphabets : List CharRange := [
  w 0x85 0x85, w 0xA0 0xA0, s 0xA1 0xA9, l 0xAA 0xAA, s 0xAC 0xAC, s 0xAE 0xB1, n 0xB2 0xB3,
  s 0xB4 0xB4, l 0xB5 0xB5, s 0xB6 0xB8, n 0xB9 0xB9, l 0xBA 0xBA, n 0xBC 0xBE, s 0xBF 0xBF,
  l 0xC0 0xD6, s 0xD7 0xD7, l 0xD8 0xF6, s 0xF7 0xF7, l 0xF8 0x2C1, s 0x2C2 0x2C5, l 0x2C6 0x2D1,
  s 0x2D2 0x2DF, l 0x2E0 0x2E4, s 0x2E5 0x2EB, l 0x2EC 0x2EC, s 0x2ED 0x2ED, l 0x2EE 0x2EE,
  s 0x2EF 0x2FF, l 0x370 0x374, s 0x375 0x375, l 0x376 0x377, l 0x37A 0x37D, s 0x37E 0x37E,
  l 0x37F 0x37F, s 0x384 0x385, l 0x386 0x386, s 0x387 0x387, l 0x388 0x38A, l 0x38C 0x38C,
  l 0x38E 0x3A1, l 0x3A3 0x3F5, s 0x3F6 0x3F6, l 0x3F7 0x481, s 0x482 0x482, l 0x48A 0x52F,
  l 0x531 0x556, l 0x559 0x559, s 0x55A 0x55F, l 0x560 0x588, s 0x589 0x58A, s 0x58D 0x58F,
  s 0x5BE 0x5BE, s 0x5C0 0x5C0, s 0x5C3 0x5C3, s 0x5C6 0x5C6, l 0x5D0 0x5EA, l 0x5EF 0x5F2,
  s 0x5F3 0x5F4, s 0x606 0x60F, s 0x61B 0x61B, s 0x61D 0x61F, l 0x620 0x64A, n 0x660 0x669,
  s 0x66A 0x66D, l 0x66E 0x66F, l 0x671 0x6D3, s 0x6D4 0x6D4, l 0x6D5 0x6D5, s 0x6DE 0x6DE,
  l 0x6E5 0x6E6, s 0x6E9 0x6E9, l 0x6EE 0x6EF, n 0x6F0 0x6F9, l 0x6FA 0x6FC, s 0x6FD 0x6FE,
  l 0x6FF 0x6FF, s 0x700 0x70D, l 0x710 0x710, l 0x712 0x72F, l 0x74D 0x7A5, l 0x7B1 0x7B1,
  n 0x7C0 0x7C9, l 0x7CA 0x7EA, l 0x7F4 0x7F5, s 0x7F6 0x7F9, l 0x7FA 0x7FA, s 0x7FE 0x7FF,
  l 0x800 0x815, l 0x81A 0x81A, l 0x824 0x824, l 0x828 0x828, s 0x830 0x83E, l 0x840 0x858,
  s 0x85E 0x85E, l 0x860 0x86A, l 0x870 0x887, s 0x888 0x888, l 0x889 0x88E, l 0x8A0 0x8C9,
  l 0x904 0x939, l 0x93D 0x93D, l 0x950 0x950, l 0x958 0x961, s 0x964 0x965, n 0x966 0x96F,
  s 0x970 0x970, l 0x971 0x980, l 0x985 0x98C, l 0x98F 0x990, l 0x993 0x9A8, l 0x9AA 0x9B0,
  l 0x9B2 0x9B2, l 0x9B6 0x9B9, l 0x9BD 0x9BD, l 0x9CE 0x9CE, l 0x9DC 0x9DD, l 0x9DF 0x9E1,
  n 0x9E6 0x9EF, l 0x9F0 0x9F1, s 0x9F2 0x9F3, n 0x9F4 0x9F9, s 0x9FA 0x9FB, l 0x9FC 0x9FC,
  s 0x9FD 0x9FD, l 0xA05 0xA0A, l 0xA0F 0xA10, l 0xA13 0xA28, l 0xA2A 0xA30, l 0xA32 0xA33,
  l 0xA35 0xA36, l 0xA38 0xA39, l 0xA59 0xA5C, l 0xA5E 0xA5E, n 0xA66 0xA6F, l 0xA72 0xA74,
  s 0xA76 0xA76, l 0xA85 0xA8D, l 0xA8F 0xA91, l 0xA93 0xAA8, l 0xAAA 0xAB0, l 0xAB2 0xAB3,
  l 0xAB5 0xAB9, l 0xABD 0xABD, l 0xAD0 0xAD0, l 0xAE0 0xAE1, n 0xAE6 0xAEF, s 0xAF0 0xAF1,
  l 0xAF9 0xAF9, l 0xB05 0xB0C, l 0xB0F 0xB10, l 0xB13 0xB28, l 0xB2A 0xB30, l 0xB32 0xB33,
  l 0xB35 0xB39, l 0xB3D 0xB3D, l 0xB5C 0xB5D, l 0xB5F 0xB61, n 0xB66 0xB6F, s 0xB70 0xB70,
  l 0xB71 0xB71, n 0xB72 0xB77, l 0xB83 0xB83, l 0xB85 0xB8A, l 0xB8E 0xB90, l 0xB92 0xB95,
  l 0xB99 0xB9A, l 0xB9C 0xB9C, l 0xB9E 0xB9F, l 0xBA3 0xBA4, l 0xBA8 0xBAA, l 0xBAE 0xBB9,
  l 0xBD0 0xBD0, n 0xBE6 0xBF2, s 0xBF3 0xBFA, l 0xC05 0xC0C, l 0xC0E 0xC10, l 0xC12 0xC28,
  l 0xC2A 0xC39, l 0xC3D 0xC3D, l 0xC58 0xC5A, l 0xC5D 0xC5D, l 0xC60 0xC61, n 0xC66 0xC6F,
  s 0xC77 0xC77, n 0xC78 0xC7E, s 0xC7F 0xC7F, l 0xC80 0xC80, s 0xC84 0xC84, l 0xC85 0xC8C,
  l 0xC8E 0xC90, l 0xC92 0xCA8, l 0xCAA 0xCB3, l 0xCB5 0xCB9, l 0xCBD 0xCBD, l 0xCDD 0xCDE,
  l 0xCE0 0xCE1, n 0xCE6 0xCEF, l 0xCF1 0xCF2, l 0xD04 0xD0C, l 0xD0E 0xD10, l 0xD12 0xD3A,
  l 0xD3D 0xD3D, l 0xD4E 0xD4E, s 0xD4F 0xD4F, l 0xD54 0xD56, n 0xD58 0xD5E, l 0xD5F 0xD61,
  n 0xD66 0xD78, s 0xD79 0xD79, l 0xD7A 0xD7F, l 0xD85 0xD96, l 0xD9A 0xDB1, l 0xDB3 0xDBB,
  l 0xDBD 0xDBD, l 0xDC0 0xDC6, n 0xDE6 0xDEF, s 0xDF4 0xDF4]

/-- Up to the general punctuation. -/
def scripts : List CharRange := [
  l 0xE01 0xE30, l 0xE32 0xE33, s 0xE3F 0xE3F, l 0xE40 0xE46, s 0xE4F 0xE4F, n 0xE50 0xE59,
  s 0xE5A 0xE5B, l 0xE81 0xE82, l 0xE84 0xE84, l 0xE86 0xE8A, l 0xE8C 0xEA3, l 0xEA5 0xEA5,
  l 0xEA7 0xEB0, l 0xEB2 0xEB3, l 0xEBD 0xEBD, l 0xEC0 0xEC4, l 0xEC6 0xEC6, n 0xED0 0xED9,
  l 0xEDC 0xEDF, l 0xF00 0xF00, s 0xF01 0xF17, s 0xF1A 0xF1F, n 0xF20 0xF33, s 0xF34 0xF34,
  s 0xF36 0xF36, s 0xF38 0xF38, l 0xF40 0xF47, l 0xF49 0xF6C, s 0xF85 0xF85, l 0xF88 0xF8C,
  s 0xFBE 0xFC5, s 0xFC7 0xFCC, s 0xFCE 0xFDA, l 0x1000 0x102A, l 0x103F 0x103F, n 0x1040 0x1049,
  s 0x104A 0x104F, l 0x1050 0x1055, l 0x105A 0x105D, l 0x1061 0x1061, l 0x1065 0x1066,
  l 0x106E 0x1070, l 0x1075 0x1081, l 0x108E 0x108E, n 0x1090 0x1099, s 0x109E 0x109F,
  l 0x10A0 0x10C5, l 0x10C7 0x10C7, l 0x10CD 0x10CD, l 0x10D0 0x10FA, s 0x10FB 0x10FB,
  l 0x10FC 0x1248, l 0x124A 0x124D, l 0x1250 0x1256, l 0x1258 0x1258, l 0x125A 0x125D,
  l 0x1260 0x1288, l 0x128A 0x128D, l 0x1290 0x12B0, l 0x12B2 0x12B5, l 0x12B8 0x12BE,
  l 0x12C0 0x12C0, l 0x12C2 0x12C5, l 0x12C8 0x12D6, l 0x12D8 0x1310, l 0x1312 0x1315,
  l 0x1318 0x135A, s 0x1360 0x1368, n 0x1369 0x137C, l 0x1380 0x138F, s 0x1390 0x1399,
  l 0x13A0 0x13F5, l 0x13F8 0x13FD, s 0x1400 0x1400, l 0x1401 0x166C, s 0x166D 0x166E,
  l 0x166F 0x167F, w 0x1680 0x1680, l 0x1681 0x169A, l 0x16A0 0x16EA, s 0x16EB 0x16ED,
  n 0x16EE 0x16F0, l 0x16F1 0x16F8, l 0x1700 0x1711, l 0x171F 0x1731, s 0x1735 0x1736,
  l 0x1740 0x1751, l 0x1760 0x176C, l 0x176E 0x1770, l 0x1780 0x17B3, s 0x17D4 0x17D6,
  l 0x17D7 0x17D7, s 0x17D8 0x17DB, l 0x17DC 0x17DC, n 0x17E0 0x17E9, n 0x17F0 0x17F9,
  s 0x1800 0x180A, n 0x1810 0x1819, l 0x1820 0x1878, l 0x1880 0x1884, l 0x1887 0x18A8,
  l 0x18AA 0x18AA, l 0x18B0 0x18F5, l 0x1900 0x191E, s 0x1940 0x1940, s 0x1944 0x1945,
  n 0x1946 0x194F, l 0x1950 0x196D, l 0x1970 0x1974, l 0x1980 0x19AB, l 0x19B0 0x19C9,
  n 0x19D0 0x19DA, s 0x19DE 0x19FF, l 0x1A00 0x1A16, s 0x1A1E 0x1A1F, l 0x1A20 0x1A54,
  n 0x1A80 0x1A89, n 0x1A90 0x1A99, s 0x1AA0 0x1AA6, l 0x1AA7 0x1AA7, s 0x1AA8 0x1AAD,
  l 0x1B05 0x1B33, l 0x1B45 0x1B4C, n 0x1B50 0x1B59, s 0x1B5A 0x1B6A, s 0x1B74 0x1B7E,
  l 0x1B83 0x1BA0, l 0x1BAE 0x1BAF, n 0x1BB0 0x1BB9, l 0x1BBA 0x1BE5, s 0x1BFC 0x1BFF,
  l 0x1C00 0x1C23, s 0x1C3B 0x1C3F, n 0x1C40 0x1C49, l 0x1C4D 0x1C4F, n 0x1C50 0x1C59,
  l 0x1C5A 0x1C7D, s 0x1C7E 0x1C7F, l 0x1C80 0x1C88, l 0x1C90 0x1CBA, l 0x1CBD 0x1CBF,
  s 0x1CC0 0x1CC7, s 0x1CD3 0x1CD3, l 0x1CE9 0x1CEC, l 0x1CEE 0x1CF3, l 0x1CF5 0x1CF6,
  l 0x1CFA 0x1CFA, l 0x1D00 0x1DBF, l 0x1E00 0x1F15, l 0x1F18 0x1F1D, l 0x1F20 0x1F45,
  l 0x1F48 0x1F4D, l 0x1F50 0x1F57, l 0x1F59 0x1F59, l 0x1F5B 0x1F5B, l 0x1F5D 0x1F5D,
  l 0x1F5F 0x1F7D, l 0x1F80 0x1FB4, l 0x1FB6 0x1FBC, s 0x1FBD 0x1FBD, l 0x1FBE 0x1FBE,
  s 0x1FBF 0x1FC1, l 0x1FC2 0x1FC4, l 0x1FC6 0x1FCC, s 0x1FCD 0x1FCF, l 0x1FD0 0x1FD3,
  l 0x1FD6 0x1FDB, s 0x1FDD 0x1FDF, l 0x1FE0 0x1FEC, s 0x1FED 0x1FEF, l 0x1FF2 0x1FF4,
  l 0x1FF6 0x1FFC, s 0x1FFD 0x1FFE]

/-- The rest of the basic plane. -/
def symbols : List CharRange := [
  w 0x2000 0x200A, s 0x2010 0x2017, s 0x2020 0x2027, w 0x2028 0x2029, w 0x202F 0x202F,
  s 0x2030 0x2038, s 0x203B 0x2044, s 0x2047 0x205E, w 0x205F 0x205F, n 0x2070 0x2070,
  l 0x2071 0x2071, n 0x2074 0x2079, s 0x207A 0x207C, l 0x207F 0x207F, n 0x2080 0x2089,
  s 0x208A 0x208C, l 0x2090 0x209C, s 0x20A0 0x20C0, s 0x2100 0x2101, l 0x2102 0x2102,
  s 0x2103 0x2106, l 0x2107 0x2107, s 0x2108 0x2109, l 0x210A 0x2113, s 0x2114 0x2114,
  l 0x2115 0x2115, s 0x2116 0x2118, l 0x2119 0x211D, s 0x211E 0x2123, l 0x2124 0x2124,
  s 0x2125 0x2125, l 0x2126 0x2126, s 0x2127 0x2127, l 0x2128 0x2128, s 0x2129 0x2129,
  l 0x212A 0x212D, s 0x212E 0x212E, l 0x212F 0x2139, s 0x213A 0x213B, l 0x213C 0x213F,
  s 0x2140 0x2144, l 0x2145 0x2149, s 0x214A 0x214D, l 0x214E 0x214E, s 0x214F 0x214F,
  n 0x2150 0x2182, l 0x2183 0x2184, n 0x2185 0x2189, s 0x218A 0x218B, s 0x2190 0x2307,
  s 0x230C 0x2328, s 0x232B 0x2426, s 0x2440 0x244A, n 0x2460 0x249B, s 0x249C 0x24E9,
  n 0x24EA 0x24FF, s 0x2500 0x2767, n 0x2776 0x2793, s 0x2794 0x27C4, s 0x27C7 0x27E5,
  s 0x27F0 0x2982, s 0x2999 0x29D7, s 0x29DC 0x29FB, s 0x29FE 0x2B73, s 0x2B76 0x2B95,
  s 0x2B97 0x2BFF, l 0x2C00 0x2CE4, s 0x2CE5 0x2CEA, l 0x2CEB 0x2CEE, l 0x2CF2 0x2CF3,
  s 0x2CF9 0x2CFC, n 0x2CFD 0x2CFD, s 0x2CFE 0x2CFF, l 0x2D00 0x2D25, l 0x2D27 0x2D27,
  l 0x2D2D 0x2D2D, l 0x2D30 0x2D67, l 0x2D6F 0x2D6F, s 0x2D70 0x2D70, l 0x2D80 0x2D96,
  l 0x2DA0 0x2DA6, l 0x2DA8 0x2DAE, l 0x2DB0 0x2DB6, l 0x2DB8 0x2DBE, l 0x2DC0 0x2DC6,
  l 0x2DC8 0x2DCE, l 0x2DD0 0x2DD6, l 0x2DD8 0x2DDE, s 0x2E00 0x2E01, s 0x2E06 0x2E08,
  s 0x2E0B 0x2E0B, s 0x2E0E 0x2E1B, s 0x2E1E 0x2E1F, s 0x2E2A 0x2E2E, l 0x2E2F 0x2E2F,
  s 0x2E30 0x2E41, s 0x2E43 0x2E54, s 0x2E5D 0x2E5D, s 0x2E80 0x2E99, s 0x2E9B 0x2EF3,
  s 0x2F00 0x2FD5, s 0x2FF0 0x2FFB, w 0x3000 0x3000, s 0x3001 0x3004, l 0x3005 0x3006,
  n 0x3007 0x3007, s 0x3012 0x3013, s 0x301C 0x301C, s 0x3020 0x3020, n 0x3021 0x3029,
  s 0x3030 0x3030, l 0x3031 0x3035, s 0x3036 0x3037, n 0x3038 0x303A, l 0x303B 0x303C,
  s 0x303D 0x303F, l 0x3041 0x3096, s 0x309B 0x309C, l 0x309D 0x309F, s 0x30A0 0x30A0,
  l 0x30A1 0x30FA, s 0x30FB 0x30FB, l 0x30FC 0x30FF, l 0x3105 0x312F, l 0x3131 0x318E,
  s 0x3190 0x3191, n 0x3192 0x3195, s 0x3196 0x319F, l 0x31A0 0x31BF, s 0x31C0 0x31E3,
  l 0x31F0 0x31FF, s 0x3200 0x321E, n 0x3220 0x3229, s 0x322A 0x3247, n 0x3248 0x324F,
  s 0x3250 0x3250, n 0x3251 0x325F, s 0x3260 0x327F, n 0x3280 0x3289, s 0x328A 0x32B0,
  n 0x32B1 0x32BF, s 0x32C0 0x33FF, l 0x3400 0x4DBF, s 0x4DC0 0x4DFF, l 0x4E00 0xA48C,
  s 0xA490 0xA4C6, l 0xA4D0 0xA4FD, s 0xA4FE 0xA4FF, l 0xA500 0xA60C, s 0xA60D 0xA60F,
  l 0xA610 0xA61F, n 0xA620 0xA629, l 0xA62A 0xA62B, l 0xA640 0xA66E, s 0xA673 0xA673,
  s 0xA67E 0xA67E, l 0xA67F 0xA69D, l 0xA6A0 0xA6E5, n 0xA6E6 0xA6EF, s 0xA6F2 0xA6F7,
  s 0xA700 0xA716, l 0xA717 0xA71F, s 0xA720 0xA721, l 0xA722 0xA788, s 0xA789 0xA78A,
  l 0xA78B 0xA7CA, l 0xA7D0 0xA7D1, l 0xA7D3 0xA7D3, l 0xA7D5 0xA7D9, l 0xA7F2 0xA801,
  l 0xA803 0xA805, l 0xA807 0xA80A, l 0xA80C 0xA822, s 0xA828 0xA82B, n 0xA830 0xA835,
  s 0xA836 0xA839, l 0xA840 0xA873, s 0xA874 0xA877, l 0xA882 0xA8B3, s 0xA8CE 0xA8CF,
  n 0xA8D0 0xA8D9, l 0xA8F2 0xA8F7, s 0xA8F8 0xA8FA, l 0xA8FB 0xA8FB, s 0xA8FC 0xA8FC,
  l 0xA8FD 0xA8FE, n 0xA900 0xA909, l 0xA90A 0xA925, s 0xA92E 0xA92F, l 0xA930 0xA946,
  s 0xA95F 0xA95F, l 0xA960 0xA97C, l 0xA984 0xA9B2, s 0xA9C1 0xA9CD, l 0xA9CF 0xA9CF,
  n 0xA9D0 0xA9D9, s 0xA9DE 0xA9DF, l 0xA9E0 0xA9E4, l 0xA9E6 0xA9EF, n 0xA9F0 0xA9F9,
  l 0xA9FA 0xA9FE, l 0xAA00 0xAA28, l 0xAA40 0xAA42, l 0xAA44 0xAA4B, n 0xAA50 0xAA59,
  s 0xAA5C 0xAA5F, l 0xAA60 0xAA76, s 0xAA77 0xAA79, l 0xAA7A 0xAA7A, l 0xAA7E 0xAAAF,
  l 0xAAB1 0xAAB1, l 0xAAB5 0xAAB6, l 0xAAB9 0xAABD, l 0xAAC0 0xAAC0, l 0xAAC2 0xAAC2,
  l 0xAADB 0xAADD, s 0xAADE 0xAADF, l 0xAAE0 0xAAEA, s 0xAAF0 0xAAF1, l 0xAAF2 0xAAF4,
  l 0xAB01 0xAB06, l 0xAB09 0xAB0E, l 0xAB11 0xAB16, l 0xAB20 0xAB26, l 0xAB28 0xAB2E,
  l 0xAB30 0xAB5A, s 0xAB5B 0xAB5B, l 0xAB5C 0xAB69, s 0xAB6A 0xAB6B, l 0xAB70 0xABE2,
  s 0xABEB 0xABEB, n 0xABF0 0xABF9, l 0xAC00 0xD7A3, l 0xD7B0 0xD7C6, l 0xD7CB 0xD7FB,
  l 0xF900 0xFA6D, l 0xFA70 0xFAD9, l 0xFB00 0xFB06, l 0xFB13 0xFB17, l 0xFB1D 0xFB1D,
  l 0xFB1F 0xFB28, s 0xFB29 0xFB29, l 0xFB2A 0xFB36, l 0xFB38 0xFB3C, l 0xFB3E 0xFB3E,
  l 0xFB40 0xFB41, l 0xFB43 0xFB44, l 0xFB46 0xFBB1, s 0xFBB2 0xFBC2, l 0xFBD3 0xFD3D,
  s 0xFD40 0xFD4F, l 0xFD50 0xFD8F, l 0xFD92 0xFDC7, s 0xFDCF 0xFDCF, l 0xFDF0 0xFDFB,
  s 0xFDFC 0xFDFF, s 0xFE10 0xFE16, s 0xFE19 0xFE19, s 0xFE30 0xFE34, s 0xFE45 0xFE46,
  s 0xFE49 0xFE52, s 0xFE54 0xFE58, s 0xFE5F 0xFE66, s 0xFE68 0xFE6B, l 0xFE70 0xFE74,
  l 0xFE76 0xFEFC, s 0xFF01 0xFF07, s 0xFF0A 0xFF0F, n 0xFF10 0xFF19, s 0xFF1A 0xFF20,
  l 0xFF21 0xFF3A, s 0xFF3C 0xFF3C, s 0xFF3E 0xFF40, l 0xFF41 0xFF5A, s 0xFF5C 0xFF5C,
  s 0xFF5E 0xFF5E, s 0xFF61 0xFF61, s 0xFF64 0xFF65, l 0xFF66 0xFFBE, l 0xFFC2 0xFFC7,
  l 0xFFCA 0xFFCF, l 0xFFD2 0xFFD7, l 0xFFDA 0xFFDC, s 0xFFE0 0xFFE6, s 0xFFE8 0xFFEE,
  s 0xFFFC 0xFFFD]

/-- Historic scripts. -/
def historic : List CharRange := [
  l 0x10000 0x1000B, l 0x1000D 0x10026, l 0x10028 0x1003A, l 0x1003C 0x1003D, l 0x1003F 0x1004D,
  l 0x10050 0x1005D, l 0x10080 0x100FA, s 0x10100 0x10102, n 0x10107 0x10133, s 0x10137 0x1013F,
  n 0x10140 0x10178, s 0x10179 0x10189, n 0x1018A 0x1018B, s 0x1018C 0x1018E, s 0x10190 0x1019C,
  s 0x101A0 0x101A0, s 0x101D0 0x101FC, l 0x10280 0x1029C, l 0x102A0 0x102D0, n 0x102E1 0x102FB,
  l 0x10300 0x1031F, n 0x10320 0x10323, l 0x1032D 0x10340, n 0x10341 0x10341, l 0x10342 0x10349,
  n 0x1034A 0x1034A, l 0x10350 0x10375, l 0x10380 0x1039D, s 0x1039F 0x1039F, l 0x103A0 0x103C3,
  l 0x103C8 0x103CF, s 0x103D0 0x103D0, n 0x103D1 0x103D5, l 0x10400 0x1049D, n 0x104A0 0x104A9,
  l 0x104B0 0x104D3, l 0x104D8 0x104FB, l 0x10500 0x10527, l 0x10530 0x10563, s 0x1056F 0x1056F,
  l 0x10570 0x1057A, l 0x1057C 0x1058A, l 0x1058C 0x10592, l 0x10594 0x10595, l 0x10597 0x105A1,
  l 0x105A3 0x105B1, l 0x105B3 0x105B9, l 0x105BB 0x105BC, l 0x10600 0x10736, l 0x10740 0x10755,
  l 0x10760 0x10767, l 0x10780 0x10785, l 0x10787 0x107B0, l 0x107B2 0x107BA, l 0x10800 0x10805,
  l 0x10808 0x10808, l 0x1080A 0x10835, l 0x10837 0x10838, l 0x1083C 0x1083C, l 0x1083F 0x10855,
  s 0x10857 0x10857, n 0x10858 0x1085F, l 0x10860 0x10876, s 0x10877 0x10878, n 0x10879 0x1087F,
  l 0x10880 0x1089E, n 0x108A7 0x108AF, l 0x108E0 0x108F2, l 0x108F4 0x108F5, n 0x108FB 0x108FF,
  l 0x10900 0x10915, n 0x10916 0x1091B, s 0x1091F 0x1091F, l 0x10920 0x10939, s 0x1093F 0x1093F,
  l 0x10980 0x109B7, n 0x109BC 0x109BD, l 0x109BE 0x109BF, n 0x109C0 0x109CF, n 0x109D2 0x109FF,
  l 0x10A00 0x10A00, l 0x10A10 0x10A13, l 0x10A15 0x10A17, l 0x10A19 0x10A35, n 0x10A40 0x10A48,
  s 0x10A50 0x10A58, l 0x10A60 0x10A7C, n 0x10A7D 0x10A7E, s 0x10A7F 0x10A7F, l 0x10A80 0x10A9C,
  n 0x10A9D 0x10A9F, l 0x10AC0 0x10AC7, s 0x10AC8 0x10AC8, l 0x10AC9 0x10AE4, n 0x10AEB 0x10AEF,
  s 0x10AF0 0x10AF6, l 0x10B00 0x10B35, s 0x10B39 0x10B3F, l 0x10B40 0x10B55, n 0x10B58 0x10B5F,
  l 0x10B60 0x10B72, n 0x10B78 0x10B7F, l 0x10B80 0x10B91, s 0x10B99 0x10B9C, n 0x10BA9 0x10BAF,
  l 0x10C00 0x10C48, l 0x10C80 0x10CB2, l 0x10CC0 0x10CF2, n 0x10CFA 0x10CFF, l 0x10D00 0x10D23,
  n 0x10D30 0x10D39, n 0x10E60 0x10E7E, l 0x10E80 0x10EA9, s 0x10EAD 0x10EAD, l 0x10EB0 0x10EB1,
  l 0x10F00 0x10F1C, n 0x10F1D 0x10F26, l 0x10F27 0x10F27, l 0x10F30 0x10F45, n 0x10F51 0x10F54,
  s 0x10F55 0x10F59, l 0x10F70 0x10F81, s 0x10F86 0x10F89, l 0x10FB0 0x10FC4, n 0x10FC5 0x10FCB,
  l 0x10FE0 0x10FF6, l 0x11003 0x11037, s 0x11047 0x1104D, n 0x11052 0x1106F, l 0x11071 0x11072,
  l 0x11075 0x11075, l 0x11083 0x110AF, s 0x110BB 0x110BC, s 0x110BE 0x110C1, l 0x110D0 0x110E8,
  n 0x110F0 0x110F9, l 0x11103 0x11126, n 0x11136 0x1113F, s 0x11140 0x11143, l 0x11144 0x11144,
  l 0x11147 0x11147, l 0x11150 0x11172, s 0x11174 0x11175, l 0x11176 0x11176, l 0x11183 0x111B2,
  l 0x111C1 0x111C4, s 0x111C5 0x111C8, s 0x111CD 0x111CD, n 0x111D0 0x111D9, l 0x111DA 0x111DA,
  s 0x111DB 0x111DB, l 0x111DC 0x111DC, s 0x111DD 0x111DF, n 0x111E1 0x111F4, l 0x11200 0x11211,
  l 0x11213 0x1122B, s 0x11238 0x1123D, l 0x11280 0x11286, l 0x11288 0x11288, l 0x1128A 0x1128D,
  l 0x1128F 0x1129D, l 0x1129F 0x112A8, s 0x112A9 0x112A9, l 0x112B0 0x112DE, n 0x112F0 0x112F9,
  l 0x11305 0x1130C, l 0x1130F 0x11310, l 0x11313 0x11328, l 0x1132A 0x11330, l 0x11332 0x11333,
  l 0x11335 0x11339, l 0x1133D 0x1133D, l 0x11350 0x11350, l 0x1135D 0x11361, l 0x11400 0x11434,
  l 0x11447 0x1144A, s 0x1144B 0x1144F, n 0x11450 0x11459, s 0x1145A 0x1145B, s 0x1145D 0x1145D,
  l 0x1145F 0x11461, l 0x11480 0x114AF, l 0x114C4 0x114C5, s 0x114C6 0x114C6, l 0x114C7 0x114C7,
  n 0x114D0 0x114D9, l 0x11580 0x115AE, s 0x115C1 0x115D7, l 0x115D8 0x115DB, l 0x11600 0x1162F,
  s 0x11641 0x11643, l 0x11644 0x11644, n 0x11650 0x11659, s 0x11660 0x1166C, l 0x11680 0x116AA,
  l 0x116B8 0x116B8, s 0x116B9 0x116B9, n 0x116C0 0x116C9, l 0x11700 0x1171A, n 0x11730 0x1173B,
  s 0x1173C 0x1173F, l 0x11740 0x11746, l 0x11800 0x1182B, s 0x1183B 0x1183B, l 0x118A0 0x118DF,
  n 0x118E0 0x118F2, l 0x118FF 0x11906, l 0x11909 0x11909, l 0x1190C 0x11913, l 0x11915 0x11916,
  l 0x11918 0x1192F, l 0x1193F 0x1193F, l 0x11941 0x11941, s 0x11944 0x11946, n 0x11950 0x11959,
  l 0x119A0 0x119A7, l 0x119AA 0x119D0, l 0x119E1 0x119E1, s 0x119E2 0x119E2, l 0x119E3 0x119E3]

/-- All further planes. -/
def supplement : List CharRange := [
  l 0x11A00 0x11A00, l 0x11A0B 0x11A32, l 0x11A3A 0x11A3A, s 0x11A3F 0x11A46, l 0x11A50 0x11A50,
  l 0x11A5C 0x11A89, s 0x11A9A 0x11A9C, l 0x11A9D 0x11A9D, s 0x11A9E 0x11AA2, l 0x11AB0 0x11AF8,
  l 0x11C00 0x11C08, l 0x11C0A 0x11C2E, l 0x11C40 0x11C40, s 0x11C41 0x11C45, n 0x11C50 0x11C6C,
  s 0x11C70 0x11C71, l 0x11C72 0x11C8F, l 0x11D00 0x11D06, l 0x11D08 0x11D09, l 0x11D0B 0x11D30,
  l 0x11D46 0x11D46, n 0x11D50 0x11D59, l 0x11D60 0x11D65, l 0x11D67 0x11D68, l 0x11D6A 0x11D89,
  l 0x11D98 0x11D98, n 0x11DA0 0x11DA9, l 0x11EE0 0x11EF2, s 0x11EF7 0x11EF8, l 0x11FB0 0x11FB0,
  n 0x11FC0 0x11FD4, s 0x11FD5 0x11FF1, s 0x11FFF 0x11FFF, l 0x12000 0x12399, n 0x12400 0x1246E,
  s 0x12470 0x12474, l 0x12480 0x12543, l 0x12F90 0x12FF0, s 0x12FF1 0x12FF2, l 0x13000 0x1342E,
  l 0x14400 0x14646, l 0x16800 0x16A38, l 0x16A40 0x16A5E, n 0x16A60 0x16A69, s 0x16A6E 0x16A6F,
  l 0x16A70 0x16ABE, n 0x16AC0 0x16AC9, l 0x16AD0 0x16AED, s 0x16AF5 0x16AF5, l 0x16B00 0x16B2F,
  s 0x16B37 0x16B3F, l 0x16B40 0x16B43, s 0x16B44 0x16B45, n 0x16B50 0x16B59, n 0x16B5B 0x16B61,
  l 0x16B63 0x16B77, l 0x16B7D 0x16B8F, l 0x16E40 0x16E7F, n 0x16E80 0x16E96, s 0x16E97 0x16E9A,
  l 0x16F00 0x16F4A, l 0x16F50 0x16F50, l 0x16F93 0x16F9F, l 0x16FE0 0x16FE1, s 0x16FE2 0x16FE2,
  l 0x16FE3 0x16FE3, l 0x17000 0x187F7, l 0x18800 0x18CD5, l 0x18D00 0x18D08, l 0x1AFF0 0x1AFF3,
  l 0x1AFF5 0x1AFFB, l 0x1AFFD 0x1AFFE, l 0x1B000 0x1B122, l 0x1B150 0x1B152, l 0x1B164 0x1B167,
  l 0x1B170 0x1B2FB, l 0x1BC00 0x1BC6A, l 0x1BC70 0x1BC7C, l 0x1BC80 0x1BC88, l 0x1BC90 0x1BC99,
  s 0x1BC9C 0x1BC9C, s 0x1BC9F 0x1BC9F, s 0x1CF50 0x1CFC3, s 0x1D000 0x1D0F5, s 0x1D100 0x1D126,
  s 0x1D129 0x1D164, s 0x1D16A 0x1D16C, s 0x1D183 0x1D184, s 0x1D18C 0x1D1A9, s 0x1D1AE 0x1D1EA,
  s 0x1D200 0x1D241, s 0x1D245 0x1D245, n 0x1D2E0 0x1D2F3, s 0x1D300 0x1D356, n 0x1D360 0x1D378,
  l 0x1D400 0x1D454, l 0x1D456 0x1D49C, l 0x1D49E 0x1D49F, l 0x1D4A2 0x1D4A2, l 0x1D4A5 0x1D4A6,
  l 0x1D4A9 0x1D4AC, l 0x1D4AE 0x1D4B9, l 0x1D4BB 0x1D4BB, l 0x1D4BD 0x1D4C3, l 0x1D4C5 0x1D505,
  l 0x1D507 0x1D50A, l 0x1D50D 0x1D514, l 0x1D516 0x1D51C, l 0x1D51E 0x1D539, l 0x1D53B 0x1D53E,
  l 0x1D540 0x1D544, l 0x1D546 0x1D546, l 0x1D54A 0x1D550, l 0x1D552 0x1D6A5, l 0x1D6A8 0x1D6C0,
  s 0x1D6C1 0x1D6C1, l 0x1D6C2 0x1D6DA, s 0x1D6DB 0x1D6DB, l 0x1D6DC 0x1D6FA, s 0x1D6FB 0x1D6FB,
  l 0x1D6FC 0x1D714, s 0x1D715 0x1D715, l 0x1D716 0x1D734, s 0x1D735 0x1D735, l 0x1D736 0x1D74E,
  s 0x1D74F 0x1D74F, l 0x1D750 0x1D76E, s 0x1D76F 0x1D76F, l 0x1D770 0x1D788, s 0x1D789 0x1D789,
  l 0x1D78A 0x1D7A8, s 0x1D7A9 0x1D7A9, l 0x1D7AA 0x1D7C2, s 0x1D7C3 0x1D7C3, l 0x1D7C4 0x1D7CB,
  n 0x1D7CE 0x1D7FF, s 0x1D800 0x1D9FF, s 0x1DA37 0x1DA3A, s 0x1DA6D 0x1DA74, s 0x1DA76 0x1DA83,
  s 0x1DA85 0x1DA8B, l 0x1DF00 0x1DF1E, l 0x1E100 0x1E12C, l 0x1E137 0x1E13D, n 0x1E140 0x1E149,
  l 0x1E14E 0x1E14E, s 0x1E14F 0x1E14F, l 0x1E290 0x1E2AD, l 0x1E2C0 0x1E2EB, n 0x1E2F0 0x1E2F9,
  s 0x1E2FF 0x1E2FF, l 0x1E7E0 0x1E7E6, l 0x1E7E8 0x1E7EB, l 0x1E7ED 0x1E7EE, l 0x1E7F0 0x1E7FE,
  l 0x1E800 0x1E8C4, n 0x1E8C7 0x1E8CF, l 0x1E900 0x1E943, l 0x1E94B 0x1E94B, n 0x1E950 0x1E959,
  s 0x1E95E 0x1E95F, n 0x1EC71 0x1ECAB, s 0x1ECAC 0x1ECAC, n 0x1ECAD 0x1ECAF, s 0x1ECB0 0x1ECB0,
  n 0x1ECB1 0x1ECB4, n 0x1ED01 0x1ED2D, s 0x1ED2E 0x1ED2E, n 0x1ED2F 0x1ED3D, l 0x1EE00 0x1EE03,
  l 0x1EE05 0x1EE1F, l 0x1EE21 0x1EE22, l 0x1EE24 0x1EE24, l 0x1EE27 0x1EE27, l 0x1EE29 0x1EE32,
  l 0x1EE34 0x1EE37, l 0x1EE39 0x1EE39, l 0x1EE3B 0x1EE3B, l 0x1EE42 0x1EE42, l 0x1EE47 0x1EE47,
  l 0x1EE49 0x1EE49, l 0x1EE4B 0x1EE4B, l 0x1EE4D 0x1EE4F, l 0x1EE51 0x1EE52, l 0x1EE54 0x1EE54,
  l 0x1EE57 0x1EE57, l 0x1EE59 0x1EE59, l 0x1EE5B 0x1EE5B, l 0x1EE5D 0x1EE5D, l 0x1EE5F 0x1EE5F,
  l 0x1EE61 0x1EE62, l 0x1EE64 0x1EE64, l 0x1EE67 0x1EE6A, l 0x1EE6C 0x1EE72, l 0x1EE74 0x1EE77,
  l 0x1EE79 0x1EE7C, l 0x1EE7E 0x1EE7E, l 0x1EE80 0x1EE89, l 0x1EE8B 0x1EE9B, l 0x1EEA1 0x1EEA3,
  l 0x1EEA5 0x1EEA9, l 0x1EEAB 0x1EEBB, s 0x1EEF0 0x1EEF1, s 0x1F000 0x1F02B, s 0x1F030 0x1F093,
  s 0x1F0A0 0x1F0AE, s 0x1F0B1 0x1F0BF, s 0x1F0C1 0x1F0CF, s 0x1F0D1 0x1F0F5, n 0x1F100 0x1F10C,
  s 0x1F10D 0x1F1AD, s 0x1F1E6 0x1F202, s 0x1F210 0x1F23B, s 0x1F240 0x1F248, s 0x1F250 0x1F251,
  s 0x1F260 0x1F265, s 0x1F300 0x1F6D7, s 0x1F6DD 0x1F6EC, s 0x1F6F0 0x1F6FC, s 0x1F700 0x1F773,
  s 0x1F780 0x1F7D8, s 0x1F7E0 0x1F7EB, s 0x1F7F0 0x1F7F0, s 0x1F800 0x1F80B, s 0x1F810 0x1F847,
  s 0x1F850 0x1F859, s 0x1F860 0x1F887, s 0x1F890 0x1F8AD, s 0x1F8B0 0x1F8B1, s 0x1F900 0x1FA53,
  s 0x1FA60 0x1FA6D, s 0x1FA70 0x1FA74, s 0x1FA78 0x1FA7C, s 0x1FA80 0x1FA86, s 0x1FA90 0x1FAAC,
  s 0x1FAB0 0x1FABA, s 0x1FAC0 0x1FAC5, s 0x1FAD0 0x1FAD9, s 0x1FAE0 0x1FAE7, s 0x1FAF0 0x1FAF6,
  s 0x1FB00 0x1FB92, s 0x1FB94 0x1FBCA, n 0x1FBF0 0x1FBF9, l 0x20000 0x2A6DF, l 0x2A700 0x2B738,
  l 0x2B740 0x2B81D, l 0x2B820 0x2CEA1, l 0x2CEB0 0x2EBE0, l 0x2F800 0x2FA1D, l 0x30000 0x3134A]

def table : List CharRange := alphabets ++ scripts ++ symbols ++ historic ++ supplement

/-- The class of a code point from 0x80 on. -/
def of? (n : Nat) : Option CharClass := find? n table

end CharClass

end HaskellLexis
