/-!
# Characters that are written as they are

Code points of the Unicode character database, version 14, that have no
visible form of their own: every category C and Z but the space.
-/

namespace HaskellLexis

namespace Printable

/-- Ranges are sorted, so the search stops at the first one past `n`. -/
def within (n : Nat) : List (Nat × Nat) → Bool
  | [] => false
  | r :: rs => r.1 ≤ n && (n ≤ r.2 || within n rs)

private def r (a b : Nat) : Nat × Nat := (a, b)

set_option maxRecDepth 8000 in
/-- From 0x80 on. -/
def hiddenTable : List (Nat × Nat) := [
  r 0x80 0xA0, r 0xAD 0xAD, r 0x378 0x379, r 0x380 0x383, r 0x38B 0x38B, r 0x38D 0x38D,
  r 0x3A2 0x3A2, r 0x530 0x530, r 0x557 0x558, r 0x58B 0x58C, r 0x590 0x590, r 0x5C8 0x5CF,
  r 0x5EB 0x5EE, r 0x5F5 0x605, r 0x61C 0x61C, r 0x6DD 0x6DD, r 0x70E 0x70F, r 0x74B 0x74C,
  r 0x7B2 0x7BF, r 0x7FB 0x7FC, r 0x82E 0x82F, r 0x83F 0x83F, r 0x85C 0x85D, r 0x85F 0x85F,
  r 0x86B 0x86F, r 0x88F 0x897, r 0x8E2 0x8E2, r 0x984 0x984, r 0x98D 0x98E, r 0x991 0x992,
  r 0x9A9 0x9A9, r 0x9B1 0x9B1, r 0x9B3 0x9B5, r 0x9BA 0x9BB, r 0x9C5 0x9C6, r 0x9C9 0x9CA,
  r 0x9CF 0x9D6, r 0x9D8 0x9DB, r 0x9DE 0x9DE, r 0x9E4 0x9E5, r 0x9FF 0xA00, r 0xA04 0xA04,
  r 0xA0B 0xA0E, r 0xA11 0xA12, r 0xA29 0xA29, r 0xA31 0xA31, r 0xA34 0xA34, r 0xA37 0xA37,
  r 0xA3A 0xA3B, r 0xA3D 0xA3D, r 0xA43 0xA46, r 0xA49 0xA4A, r 0xA4E 0xA50, r 0xA52 0xA58,
  r 0xA5D 0xA5D, r 0xA5F 0xA65, r 0xA77 0xA80, r 0xA84 0xA84, r 0xA8E 0xA8E, r 0xA92 0xA92,
  r 0xAA9 0xAA9, r 0xAB1 0xAB1, r 0xAB4 0xAB4, r 0xABA 0xABB, r 0xAC6 0xAC6, r 0xACA 0xACA,
  r 0xACE 0xACF, r 0xAD1 0xADF, r 0xAE4 0xAE5, r 0xAF2 0xAF8, r 0xB00 0xB00, r 0xB04 0xB04,
  r 0xB0D 0xB0E, r 0xB11 0xB12, r 0xB29 0xB29, r 0xB31 0xB31, r 0xB34 0xB34, r 0xB3A 0xB3B,
  r 0xB45 0xB46, r 0xB49 0xB4A, r 0xB4E 0xB54, r 0xB58 0xB5B, r 0xB5E 0xB5E, r 0xB64 0xB65,
  r 0xB78 0xB81, r 0xB84 0xB84, r 0xB8B 0xB8D, r 0xB91 0xB91, r 0xB96 0xB98, r 0xB9B 0xB9B,
  r 0xB9D 0xB9D, r 0xBA0 0xBA2, r 0xBA5 0xBA7, r 0xBAB 0xBAD, r 0xBBA 0xBBD, r 0xBC3 0xBC5,
  r 0xBC9 0xBC9, r 0xBCE 0xBCF, r 0xBD1 0xBD6, r 0xBD8 0xBE5, r 0xBFB 0xBFF, r 0xC0D 0xC0D,
  r 0xC11 0xC11, r 0xC29 0xC29, r 0xC3A 0xC3B, r 0xC45 0xC45, r 0xC49 0xC49, r 0xC4E 0xC54,
  r 0xC57 0xC57, r 0xC5B 0xC5C, r 0xC5E 0xC5F, r 0xC64 0xC65, r 0xC70 0xC76, r 0xC8D 0xC8D,
  r 0xC91 0xC91, r 0xCA9 0xCA9, r 0xCB4 0xCB4, r 0xCBA 0xCBB, r 0xCC5 0xCC5, r 0xCC9 0xCC9,
  r 0xCCE 0xCD4, r 0xCD7 0xCDC, r 0xCDF 0xCDF, r 0xCE4 0xCE5, r 0xCF0 0xCF0, r 0xCF3 0xCFF,
  r 0xD0D 0xD0D, r 0xD11 0xD11, r 0xD45 0xD45, r 0xD49 0xD49, r 0xD50 0xD53, r 0xD64 0xD65,
  r 0xD80 0xD80, r 0xD84 0xD84, r 0xD97 0xD99, r 0xDB2 0xDB2, r 0xDBC 0xDBC, r 0xDBE 0xDBF,
  r 0xDC7 0xDC9, r 0xDCB 0xDCE, r 0xDD5 0xDD5, r 0xDD7 0xDD7, r 0xDE0 0xDE5, r 0xDF0 0xDF1,
  r 0xDF5 0xE00, r 0xE3B 0xE3E, r 0xE5C 0xE80, r 0xE83 0xE83, r 0xE85 0xE85, r 0xE8B 0xE8B,
  r 0xEA4 0xEA4, r 0xEA6 0xEA6, r 0xEBE 0xEBF, r 0xEC5 0xEC5, r 0xEC7 0xEC7, r 0xECE 0xECF,
  r 0xEDA 0xEDB, r 0xEE0 0xEFF, r 0xF48 0xF48, r 0xF6D 0xF70, r 0xF98 0xF98, r 0xFBD 0xFBD,
  r 0xFCD 0xFCD, r 0xFDB 0xFFF, r 0x10C6 0x10C6, r 0x10C8 0x10CC, r 0x10CE 0x10CF, r 0x1249 0x1249,
  r 0x124E 0x124F, r 0x1257 0x1257, r 0x1259 0x1259, r 0x125E 0x125F, r 0x1289 0x1289,
  r 0x128E 0x128F, r 0x12B1 0x12B1, r 0x12B6 0x12B7, r 0x12BF 0x12BF, r 0x12C1 0x12C1,
  r 0x12C6 0x12C7, r 0x12D7 0x12D7, r 0x1311 0x1311, r 0x1316 0x1317, r 0x135B 0x135C,
  r 0x137D 0x137F, r 0x139A 0x139F, r 0x13F6 0x13F7, r 0x13FE 0x13FF, r 0x1680 0x1680,
  r 0x169D 0x169F, r 0x16F9 0x16FF, r 0x1716 0x171E, r 0x1737 0x173F, r 0x1754 0x175F,
  r 0x176D 0x176D, r 0x1771 0x1771, r 0x1774 0x177F, r 0x17DE 0x17DF, r 0x17EA 0x17EF,
  r 0x17FA 0x17FF, r 0x180E 0x180E, r 0x181A 0x181F, r 0x1879 0x187F, r 0x18AB 0x18AF,
  r 0x18F6 0x18FF, r 0x191F 0x191F, r 0x192C 0x192F, r 0x193C 0x193F, r 0x1941 0x1943,
  r 0x196E 0x196F, r 0x1975 0x197F, r 0x19AC 0x19AF, r 0x19CA 0x19CF, r 0x19DB 0x19DD,
  r 0x1A1C 0x1A1D, r 0x1A5F 0x1A5F, r 0x1A7D 0x1A7E, r 0x1A8A 0x1A8F, r 0x1A9A 0x1A9F,
  r 0x1AAE 0x1AAF, r 0x1ACF 0x1AFF, r 0x1B4D 0x1B4F, r 0x1B7F 0x1B7F, r 0x1BF4 0x1BFB,
  r 0x1C38 0x1C3A, r 0x1C4A 0x1C4C, r 0x1C89 0x1C8F, r 0x1CBB 0x1CBC, r 0x1CC8 0x1CCF,
  r 0x1CFB 0x1CFF, r 0x1F16 0x1F17, r 0x1F1E 0x1F1F, r 0x1F46 0x1F47, r 0x1F4E 0x1F4F,
  r 0x1F58 0x1F58, r 0x1F5A 0x1F5A, r 0x1F5C 0x1F5C, r 0x1F5E 0x1F5E, r 0x1F7E 0x1F7F,
  r 0x1FB5 0x1FB5, r 0x1FC5 0x1FC5, r 0x1FD4 0x1FD5, r 0x1FDC 0x1FDC, r 0x1FF0 0x1FF1,
  r 0x1FF5 0x1FF5, r 0x1FFF 0x200F, r 0x2028 0x202F, r 0x205F 0x206F, r 0x2072 0x2073,
  r 0x208F 0x208F, r 0x209D 0x209F, r 0x20C1 0x20CF, r 0x20F1 0x20FF, r 0x218C 0x218F,
  r 0x2427 0x243F, r 0x244B 0x245F, r 0x2B74 0x2B75, r 0x2B96 0x2B96, r 0x2CF4 0x2CF8,
  r 0x2D26 0x2D26, r 0x2D28 0x2D2C, r 0x2D2E 0x2D2F, r 0x2D68 0x2D6E, r 0x2D71 0x2D7E,
  r 0x2D97 0x2D9F, r 0x2DA7 0x2DA7, r 0x2DAF 0x2DAF, r 0x2DB7 0x2DB7, r 0x2DBF 0x2DBF,
  r 0x2DC7 0x2DC7, r 0x2DCF 0x2DCF, r 0x2DD7 0x2DD7, r 0x2DDF 0x2DDF, r 0x2E5E 0x2E7F,
  r 0x2E9A 0x2E9A, r 0x2EF4 0x2EFF, r 0x2FD6 0x2FEF, r 0x2FFC 0x3000, r 0x3040 0x3040,
  r 0x3097 0x3098, r 0x3100 0x3104, r 0x3130 0x3130, r 0x318F 0x318F, r 0x31E4 0x31EF,
  r 0x321F 0x321F, r 0xA48D 0xA48F, r 0xA4C7 0xA4CF, r 0xA62C 0xA63F, r 0xA6F8 0xA6FF,
  r 0xA7CB 0xA7CF, r 0xA7D2 0xA7D2, r 0xA7D4 0xA7D4, r 0xA7DA 0xA7F1, r 0xA82D 0xA82F,
  r 0xA83A 0xA83F, r 0xA878 0xA87F, r 0xA8C6 0xA8CD, r 0xA8DA 0xA8DF, r 0xA954 0xA95E,
  r 0xA97D 0xA97F, r 0xA9CE 0xA9CE, r 0xA9DA 0xA9DD, r 0xA9FF 0xA9FF, r 0xAA37 0xAA3F,
  r 0xAA4E 0xAA4F, r 0xAA5A 0xAA5B, r 0xAAC3 0xAADA, r 0xAAF7 0xAB00, r 0xAB07 0xAB08,
  r 0xAB0F 0xAB10, r 0xAB17 0xAB1F, r 0xAB27 0xAB27, r 0xAB2F 0xAB2F, r 0xAB6C 0xAB6F,
  r 0xABEE 0xABEF, r 0xABFA 0xABFF, r 0xD7A4 0xD7AF, r 0xD7C7 0xD7CA, r 0xD7FC 0xF8FF,
  r 0xFA6E 0xFA6F, r 0xFADA 0xFAFF, r 0xFB07 0xFB12, r 0xFB18 0xFB1C, r 0xFB37 0xFB37,
  r 0xFB3D 0xFB3D, r 0xFB3F 0xFB3F, r 0xFB42 0xFB42, r 0xFB45 0xFB45, r 0xFBC3 0xFBD2,
  r 0xFD90 0xFD91, r 0xFDC8 0xFDCE, r 0xFDD0 0xFDEF, r 0xFE1A 0xFE1F, r 0xFE53 0xFE53,
  r 0xFE67 0xFE67, r 0xFE6C 0xFE6F, r 0xFE75 0xFE75, r 0xFEFD 0xFF00, r 0xFFBF 0xFFC1,
  r 0xFFC8 0xFFC9, r 0xFFD0 0xFFD1, r 0xFFD8 0xFFD9, r 0xFFDD 0xFFDF, r 0xFFE7 0xFFE7,
  r 0xFFEF 0xFFFB, r 0xFFFE 0xFFFF, r 0x1000C 0x1000C, r 0x10027 0x10027, r 0x1003B 0x1003B,
  r 0x1003E 0x1003E, r 0x1004E 0x1004F, r 0x1005E 0x1007F, r 0x100FB 0x100FF, r 0x10103 0x10106,
  r 0x10134 0x10136, r 0x1018F 0x1018F, r 0x1019D 0x1019F, r 0x101A1 0x101CF, r 0x101FE 0x1027F,
  r 0x1029D 0x1029F, r 0x102D1 0x102DF, r 0x102FC 0x102FF, r 0x10324 0x1032C, r 0x1034B 0x1034F,
  r 0x1037B 0x1037F, r 0x1039E 0x1039E, r 0x103C4 0x103C7, r 0x103D6 0x103FF, r 0x1049E 0x1049F,
  r 0x104AA 0x104AF, r 0x104D4 0x104D7, r 0x104FC 0x104FF, r 0x10528 0x1052F, r 0x10564 0x1056E,
  r 0x1057B 0x1057B, r 0x1058B 0x1058B, r 0x10593 0x10593, r 0x10596 0x10596, r 0x105A2 0x105A2,
  r 0x105B2 0x105B2, r 0x105BA 0x105BA, r 0x105BD 0x105FF, r 0x10737 0x1073F, r 0x10756 0x1075F,
  r 0x10768 0x1077F, r 0x10786 0x10786, r 0x107B1 0x107B1, r 0x107BB 0x107FF, r 0x10806 0x10807,
  r 0x10809 0x10809, r 0x10836 0x10836, r 0x10839 0x1083B, r 0x1083D 0x1083E, r 0x10856 0x10856,
  r 0x1089F 0x108A6, r 0x108B0 0x108DF, r 0x108F3 0x108F3, r 0x108F6 0x108FA, r 0x1091C 0x1091E,
  r 0x1093A 0x1093E, r 0x10940 0x1097F, r 0x109B8 0x109BB, r 0x109D0 0x109D1, r 0x10A04 0x10A04,
  r 0x10A07 0x10A0B, r 0x10A14 0x10A14, r 0x10A18 0x10A18, r 0x10A36 0x10A37, r 0x10A3B 0x10A3E,
  r 0x10A49 0x10A4F, r 0x10A59 0x10A5F, r 0x10AA0 0x10ABF, r 0x10AE7 0x10AEA, r 0x10AF7 0x10AFF,
  r 0x10B36 0x10B38, r 0x10B56 0x10B57, r 0x10B73 0x10B77, r 0x10B92 0x10B98, r 0x10B9D 0x10BA8,
  r 0x10BB0 0x10BFF, r 0x10C49 0x10C7F, r 0x10CB3 0x10CBF, r 0x10CF3 0x10CF9, r 0x10D28 0x10D2F,
  r 0x10D3A 0x10E5F, r 0x10E7F 0x10E7F, r 0x10EAA 0x10EAA, r 0x10EAE 0x10EAF, r 0x10EB2 0x10EFF,
  r 0x10F28 0x10F2F, r 0x10F5A 0x10F6F, r 0x10F8A 0x10FAF, r 0x10FCC 0x10FDF, r 0x10FF7 0x10FFF,
  r 0x1104E 0x11051, r 0x11076 0x1107E, r 0x110BD 0x110BD, r 0x110C3 0x110CF, r 0x110E9 0x110EF,
  r 0x110FA 0x110FF, r 0x11135 0x11135, r 0x11148 0x1114F, r 0x11177 0x1117F, r 0x111E0 0x111E0,
  r 0x111F5 0x111FF, r 0x11212 0x11212, r 0x1123F 0x1127F, r 0x11287 0x11287, r 0x11289 0x11289,
  r 0x1128E 0x1128E, r 0x1129E 0x1129E, r 0x112AA 0x112AF, r 0x112EB 0x112EF, r 0x112FA 0x112FF,
  r 0x11304 0x11304, r 0x1130D 0x1130E, r 0x11311 0x11312, r 0x11329 0x11329, r 0x11331 0x11331,
  r 0x11334 0x11334, r 0x1133A 0x1133A, r 0x11345 0x11346, r 0x11349 0x1134A, r 0x1134E 0x1134F,
  r 0x11351 0x11356, r 0x11358 0x1135C, r 0x11364 0x11365, r 0x1136D 0x1136F, r 0x11375 0x113FF,
  r 0x1145C 0x1145C, r 0x11462 0x1147F, r 0x114C8 0x114CF, r 0x114DA 0x1157F, r 0x115B6 0x115B7,
  r 0x115DE 0x115FF, r 0x11645 0x1164F, r 0x1165A 0x1165F, r 0x1166D 0x1167F, r 0x116BA 0x116BF,
  r 0x116CA 0x116FF, r 0x1171B 0x1171C, r 0x1172C 0x1172F, r 0x11747 0x117FF, r 0x1183C 0x1189F,
  r 0x118F3 0x118FE, r 0x11907 0x11908, r 0x1190A 0x1190B, r 0x11914 0x11914, r 0x11917 0x11917,
  r 0x11936 0x11936, r 0x11939 0x1193A, r 0x11947 0x1194F, r 0x1195A 0x1199F, r 0x119A8 0x119A9,
  r 0x119D8 0x119D9, r 0x119E5 0x119FF, r 0x11A48 0x11A4F, r 0x11AA3 0x11AAF, r 0x11AF9 0x11BFF,
  r 0x11C09 0x11C09, r 0x11C37 0x11C37, r 0x11C46 0x11C4F, r 0x11C6D 0x11C6F, r 0x11C90 0x11C91,
  r 0x11CA8 0x11CA8, r 0x11CB7 0x11CFF, r 0x11D07 0x11D07, r 0x11D0A 0x11D0A, r 0x11D37 0x11D39,
  r 0x11D3B 0x11D3B, r 0x11D3E 0x11D3E, r 0x11D48 0x11D4F, r 0x11D5A 0x11D5F, r 0x11D66 0x11D66,
  r 0x11D69 0x11D69, r 0x11D8F 0x11D8F, r 0x11D92 0x11D92, r 0x11D99 0x11D9F, r 0x11DAA 0x11EDF,
  r 0x11EF9 0x11FAF, r 0x11FB1 0x11FBF, r 0x11FF2 0x11FFE, r 0x1239A 0x123FF, r 0x1246F 0x1246F,
  r 0x12475 0x1247F, r 0x12544 0x12F8F, r 0x12FF3 0x12FFF, r 0x1342F 0x143FF, r 0x14647 0x167FF,
  r 0x16A39 0x16A3F, r 0x16A5F 0x16A5F, r 0x16A6A 0x16A6D, r 0x16ABF 0x16ABF, r 0x16ACA 0x16ACF,
  r 0x16AEE 0x16AEF, r 0x16AF6 0x16AFF, r 0x16B46 0x16B4F, r 0x16B5A 0x16B5A, r 0x16B62 0x16B62,
  r 0x16B78 0x16B7C, r 0x16B90 0x16E3F, r 0x16E9B 0x16EFF, r 0x16F4B 0x16F4E, r 0x16F88 0x16F8E,
  r 0x16FA0 0x16FDF, r 0x16FE5 0x16FEF, r 0x16FF2 0x16FFF, r 0x187F8 0x187FF, r 0x18CD6 0x18CFF,
  r 0x18D09 0x1AFEF, r 0x1AFF4 0x1AFF4, r 0x1AFFC 0x1AFFC, r 0x1AFFF 0x1AFFF, r 0x1B123 0x1B14F,
  r 0x1B153 0x1B163, r 0x1B168 0x1B16F, r 0x1B2FC 0x1BBFF, r 0x1BC6B 0x1BC6F, r 0x1BC7D 0x1BC7F,
  r 0x1BC89 0x1BC8F, r 0x1BC9A 0x1BC9B, r 0x1BCA0 0x1CEFF, r 0x1CF2E 0x1CF2F, r 0x1CF47 0x1CF4F,
  r 0x1CFC4 0x1CFFF, r 0x1D0F6 0x1D0FF, r 0x1D127 0x1D128, r 0x1D173 0x1D17A, r 0x1D1EB 0x1D1FF,
  r 0x1D246 0x1D2DF, r 0x1D2F4 0x1D2FF, r 0x1D357 0x1D35F, r 0x1D379 0x1D3FF, r 0x1D455 0x1D455,
  r 0x1D49D 0x1D49D, r 0x1D4A0 0x1D4A1, r 0x1D4A3 0x1D4A4, r 0x1D4A7 0x1D4A8, r 0x1D4AD 0x1D4AD,
  r 0x1D4BA 0x1D4BA, r 0x1D4BC 0x1D4BC, r 0x1D4C4 0x1D4C4, r 0x1D506 0x1D506, r 0x1D50B 0x1D50C,
  r 0x1D515 0x1D515, r 0x1D51D 0x1D51D, r 0x1D53A 0x1D53A, r 0x1D53F 0x1D53F, r 0x1D545 0x1D545,
  r 0x1D547 0x1D549, r 0x1D551 0x1D551, r 0x1D6A6 0x1D6A7, r 0x1D7CC 0x1D7CD, r 0x1DA8C 0x1DA9A,
  r 0x1DAA0 0x1DAA0, r 0x1DAB0 0x1DEFF, r 0x1DF1F 0x1DFFF, r 0x1E007 0x1E007, r 0x1E019 0x1E01A,
  r 0x1E022 0x1E022, r 0x1E025 0x1E025, r 0x1E02B 0x1E0FF, r 0x1E12D 0x1E12F, r 0x1E13E 0x1E13F,
  r 0x1E14A 0x1E14D, r 0x1E150 0x1E28F, r 0x1E2AF 0x1E2BF, r 0x1E2FA 0x1E2FE, r 0x1E300 0x1E7DF,
  r 0x1E7E7 0x1E7E7, r 0x1E7EC 0x1E7EC, r 0x1E7EF 0x1E7EF, r 0x1E7FF 0x1E7FF, r 0x1E8C5 0x1E8C6,
  r 0x1E8D7 0x1E8FF, r 0x1E94C 0x1E94F, r 0x1E95A 0x1E95D, r 0x1E960 0x1EC70, r 0x1ECB5 0x1ED00,
  r 0x1ED3E 0x1EDFF, r 0x1EE04 0x1EE04, r 0x1EE20 0x1EE20, r 0x1EE23 0x1EE23, r 0x1EE25 0x1EE26,
  r 0x1EE28 0x1EE28, r 0x1EE33 0x1EE33, r 0x1EE38 0x1EE38, r 0x1EE3A 0x1EE3A, r 0x1EE3C 0x1EE41,
  r 0x1EE43 0x1EE46, r 0x1EE48 0x1EE48, r 0x1EE4A 0x1EE4A, r 0x1EE4C 0x1EE4C, r 0x1EE50 0x1EE50,
  r 0x1EE53 0x1EE53, r 0x1EE55 0x1EE56, r 0x1EE58 0x1EE58, r 0x1EE5A 0x1EE5A, r 0x1EE5C 0x1EE5C,
  r 0x1EE5E 0x1EE5E, r 0x1EE60 0x1EE60, r 0x1EE63 0x1EE63, r 0x1EE65 0x1EE66, r 0x1EE6B 0x1EE6B,
  r 0x1EE73 0x1EE73, r 0x1EE78 0x1EE78, r 0x1EE7D 0x1EE7D, r 0x1EE7F 0x1EE7F, r 0x1EE8A 0x1EE8A,
  r 0x1EE9C 0x1EEA0, r 0x1EEA4 0x1EEA4, r 0x1EEAA 0x1EEAA, r 0x1EEBC 0x1EEEF, r 0x1EEF2 0x1EFFF,
  r 0x1F02C 0x1F02F, r 0x1F094 0x1F09F, r 0x1F0AF 0x1F0B0, r 0x1F0C0 0x1F0C0, r 0x1F0D0 0x1F0D0,
  r 0x1F0F6 0x1F0FF, r 0x1F1AE 0x1F1E5, r 0x1F203 0x1F20F, r 0x1F23C 0x1F23F, r 0x1F249 0x1F24F,
  r 0x1F252 0x1F25F, r 0x1F266 0x1F2FF, r 0x1F6D8 0x1F6DC, r 0x1F6ED 0x1F6EF, r 0x1F6FD 0x1F6FF,
  r 0x1F774 0x1F77F, r 0x1F7D9 0x1F7DF, r 0x1F7EC 0x1F7EF, r 0x1F7F1 0x1F7FF, r 0x1F80C 0x1F80F,
  r 0x1F848 0x1F84F, r 0x1F85A 0x1F85F, r 0x1F888 0x1F88F, r 0x1F8AE 0x1F8AF, r 0x1F8B2 0x1F8FF,
  r 0x1FA54 0x1FA5F, r 0x1FA6E 0x1FA6F, r 0x1FA75 0x1FA77, r 0x1FA7D 0x1FA7F, r 0x1FA87 0x1FA8F,
  r 0x1FAAD 0x1FAAF, r 0x1FABB 0x1FABF, r 0x1FAC6 0x1FACF, r 0x1FADA 0x1FADF, r 0x1FAE8 0x1FAEF,
  r 0x1FAF7 0x1FAFF, r 0x1FB93 0x1FB93, r 0x1FBCB 0x1FBEF, r 0x1FBFA 0x1FFFF, r 0x2A6E0 0x2A6FF,
  r 0x2B739 0x2B73F, r 0x2B81E 0x2B81F, r 0x2CEA2 0x2CEAF, r 0x2EBE1 0x2F7FF, r 0x2FA1E 0x2FFFF,
  r 0x3134B 0xE00FF, r 0xE01F0 0x10FFFF]

end Printable

def isPrintable (c : Char) : Bool :=
  if c.toNat < 0x80 then 0x20 ≤ c.toNat && c.toNat < 0x7F
  else !Printable.within c.toNat Printable.hiddenTable

end HaskellLexis
