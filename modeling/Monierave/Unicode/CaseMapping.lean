import Mathlib.Data.List.Basic
import Mathlib.Data.String.Basic

/-! # Simple case mappings and case folding

The simple upper-case and lower-case mappings of Unicode 15 and the functions of the
Go packages `unicode` and `strings` built on them.
-/

namespace Monierave.Unicode

/-- Consecutive characters that are mapped alike. -/
inductive CaseRange
  | shift (lo hi : Nat) (upper lower : Int)
  | upperLower (lo hi : Nat)

namespace CaseRange

abbrev one (c : Nat) (upper lower : Int) : CaseRange := shift c c upper lower

def lo : CaseRange → Nat
  | shift lo _ _ _ => lo
  | upperLower lo _ => lo

def hi : CaseRange → Nat
  | shift _ hi _ _ => hi
  | upperLower _ hi => hi

def lower : CaseRange → Nat → Nat
  | shift _ _ _ d, c => (c + d).toNat
  | upperLower lo _, c => lo + ((c - lo) / 2 * 2 + 1)

def upper : CaseRange → Nat → Nat
  | shift _ _ d _, c => (c + d).toNat
  | upperLower lo _, c => lo + (c - lo) / 2 * 2

end CaseRange

def caseRanges : List CaseRange :=
  [.shift 0x41 0x5a 0 32, .shift 0x61 0x7a (-32) 0, .one 0xb5 743 0, .shift 0xc0 0xd6 0 32,
   .shift 0xd8 0xde 0 32, .shift 0xe0 0xf6 (-32) 0, .shift 0xf8 0xfe (-32) 0, .one 0xff 121 0,
   .upperLower 0x100 0x12f, .one 0x130 0 (-199), .one 0x131 (-232) 0, .upperLower 0x132 0x137,
   .upperLower 0x139 0x148, .upperLower 0x14a 0x177, .one 0x178 0 (-121), .upperLower 0x179 0x17e,
   .one 0x17f (-300) 0, .one 0x180 195 0, .one 0x181 0 210, .upperLower 0x182 0x185,
   .one 0x186 0 206, .upperLower 0x187 0x188, .shift 0x189 0x18a 0 205, .upperLower 0x18b 0x18c,
   .one 0x18e 0 79, .one 0x18f 0 202, .one 0x190 0 203, .upperLower 0x191 0x192, .one 0x193 0 205,
   .one 0x194 0 207, .one 0x195 97 0, .one 0x196 0 211, .one 0x197 0 209, .upperLower 0x198 0x199,
   .one 0x19a 163 0, .one 0x19c 0 211, .one 0x19d 0 213, .one 0x19e 130 0, .one 0x19f 0 214,
   .upperLower 0x1a0 0x1a5, .one 0x1a6 0 218, .upperLower 0x1a7 0x1a8, .one 0x1a9 0 218,
   .upperLower 0x1ac 0x1ad, .one 0x1ae 0 218, .upperLower 0x1af 0x1b0, .shift 0x1b1 0x1b2 0 217,
   .upperLower 0x1b3 0x1b6, .one 0x1b7 0 219, .upperLower 0x1b8 0x1b9, .upperLower 0x1bc 0x1bd,
   .one 0x1bf 56 0, .one 0x1c4 0 2, .one 0x1c5 (-1) 1, .one 0x1c6 (-2) 0, .one 0x1c7 0 2,
   .one 0x1c8 (-1) 1, .one 0x1c9 (-2) 0, .one 0x1ca 0 2, .one 0x1cb (-1) 1, .one 0x1cc (-2) 0,
   .upperLower 0x1cd 0x1dc, .one 0x1dd (-79) 0, .upperLower 0x1de 0x1ef, .one 0x1f1 0 2,
   .one 0x1f2 (-1) 1, .one 0x1f3 (-2) 0, .upperLower 0x1f4 0x1f5, .one 0x1f6 0 (-97),
   .one 0x1f7 0 (-56), .upperLower 0x1f8 0x21f, .one 0x220 0 (-130), .upperLower 0x222 0x233,
   .one 0x23a 0 10795, .upperLower 0x23b 0x23c, .one 0x23d 0 (-163), .one 0x23e 0 10792,
   .shift 0x23f 0x240 10815 0, .upperLower 0x241 0x242, .one 0x243 0 (-195), .one 0x244 0 69,
   .one 0x245 0 71, .upperLower 0x246 0x24f, .one 0x250 10783 0, .one 0x251 10780 0,
   .one 0x252 10782 0, .one 0x253 (-210) 0, .one 0x254 (-206) 0, .shift 0x256 0x257 (-205) 0,
   .one 0x259 (-202) 0, .one 0x25b (-203) 0, .one 0x25c 42319 0, .one 0x260 (-205) 0,
   .one 0x261 42315 0, .one 0x263 (-207) 0, .one 0x265 42280 0, .one 0x266 42308 0,
   .one 0x268 (-209) 0, .one 0x269 (-211) 0, .one 0x26a 42308 0, .one 0x26b 10743 0,
   .one 0x26c 42305 0, .one 0x26f (-211) 0, .one 0x271 10749 0, .one 0x272 (-213) 0,
   .one 0x275 (-214) 0, .one 0x27d 10727 0, .one 0x280 (-218) 0, .one 0x282 42307 0,
   .one 0x283 (-218) 0, .one 0x287 42282 0, .one 0x288 (-218) 0, .one 0x289 (-69) 0,
   .shift 0x28a 0x28b (-217) 0, .one 0x28c (-71) 0, .one 0x292 (-219) 0, .one 0x29d 42261 0,
   .one 0x29e 42258 0, .one 0x345 84 0, .upperLower 0x370 0x373, .upperLower 0x376 0x377,
   .shift 0x37b 0x37d 130 0, .one 0x37f 0 116, .one 0x386 0 38, .shift 0x388 0x38a 0 37,
   .one 0x38c 0 64, .shift 0x38e 0x38f 0 63, .shift 0x391 0x3a1 0 32, .shift 0x3a3 0x3ab 0 32,
   .one 0x3ac (-38) 0, .shift 0x3ad 0x3af (-37) 0, .shift 0x3b1 0x3c1 (-32) 0, .one 0x3c2 (-31) 0,
   .shift 0x3c3 0x3cb (-32) 0, .one 0x3cc (-64) 0, .shift 0x3cd 0x3ce (-63) 0, .one 0x3cf 0 8,
   .one 0x3d0 (-62) 0, .one 0x3d1 (-57) 0, .one 0x3d5 (-47) 0, .one 0x3d6 (-54) 0,
   .one 0x3d7 (-8) 0, .upperLower 0x3d8 0x3ef, .one 0x3f0 (-86) 0, .one 0x3f1 (-80) 0,
   .one 0x3f2 7 0, .one 0x3f3 (-116) 0, .one 0x3f4 0 (-60), .one 0x3f5 (-96) 0,
   .upperLower 0x3f7 0x3f8, .one 0x3f9 0 (-7), .upperLower 0x3fa 0x3fb, .shift 0x3fd 0x3ff 0 (-130),
   .shift 0x400 0x40f 0 80, .shift 0x410 0x42f 0 32, .shift 0x430 0x44f (-32) 0,
   .shift 0x450 0x45f (-80) 0, .upperLower 0x460 0x481, .upperLower 0x48a 0x4bf, .one 0x4c0 0 15,
   .upperLower 0x4c1 0x4ce, .one 0x4cf (-15) 0, .upperLower 0x4d0 0x52f, .shift 0x531 0x556 0 48,
   .shift 0x561 0x586 (-48) 0, .shift 0x10a0 0x10c5 0 7264, .one 0x10c7 0 7264, .one 0x10cd 0 7264,
   .shift 0x10d0 0x10fa 3008 0, .shift 0x10fd 0x10ff 3008 0, .shift 0x13a0 0x13ef 0 38864,
   .shift 0x13f0 0x13f5 0 8, .shift 0x13f8 0x13fd (-8) 0, .one 0x1c80 (-6254) 0,
   .one 0x1c81 (-6253) 0, .one 0x1c82 (-6244) 0, .shift 0x1c83 0x1c84 (-6242) 0,
   .one 0x1c85 (-6243) 0, .one 0x1c86 (-6236) 0, .one 0x1c87 (-6181) 0, .one 0x1c88 35266 0,
   .shift 0x1c90 0x1cba 0 (-3008), .shift 0x1cbd 0x1cbf 0 (-3008), .one 0x1d79 35332 0,
   .one 0x1d7d 3814 0, .one 0x1d8e 35384 0, .upperLower 0x1e00 0x1e95, .one 0x1e9b (-59) 0,
   .one 0x1e9e 0 (-7615), .upperLower 0x1ea0 0x1eff, .shift 0x1f00 0x1f07 8 0,
   .shift 0x1f08 0x1f0f 0 (-8), .shift 0x1f10 0x1f15 8 0, .shift 0x1f18 0x1f1d 0 (-8),
   .shift 0x1f20 0x1f27 8 0, .shift 0x1f28 0x1f2f 0 (-8), .shift 0x1f30 0x1f37 8 0,
   .shift 0x1f38 0x1f3f 0 (-8), .shift 0x1f40 0x1f45 8 0, .shift 0x1f48 0x1f4d 0 (-8),
   .one 0x1f51 8 0, .one 0x1f53 8 0, .one 0x1f55 8 0, .one 0x1f57 8 0, .one 0x1f59 0 (-8),
   .one 0x1f5b 0 (-8), .one 0x1f5d 0 (-8), .one 0x1f5f 0 (-8), .shift 0x1f60 0x1f67 8 0,
   .shift 0x1f68 0x1f6f 0 (-8), .shift 0x1f70 0x1f71 74 0, .shift 0x1f72 0x1f75 86 0,
   .shift 0x1f76 0x1f77 100 0, .shift 0x1f78 0x1f79 128 0, .shift 0x1f7a 0x1f7b 112 0,
   .shift 0x1f7c 0x1f7d 126 0, .shift 0x1f80 0x1f87 8 0, .shift 0x1f88 0x1f8f 0 (-8),
   .shift 0x1f90 0x1f97 8 0, .shift 0x1f98 0x1f9f 0 (-8), .shift 0x1fa0 0x1fa7 8 0,
   .shift 0x1fa8 0x1faf 0 (-8), .shift 0x1fb0 0x1fb1 8 0, .one 0x1fb3 9 0,
   .shift 0x1fb8 0x1fb9 0 (-8), .shift 0x1fba 0x1fbb 0 (-74), .one 0x1fbc 0 (-9),
   .one 0x1fbe (-7205) 0, .one 0x1fc3 9 0, .shift 0x1fc8 0x1fcb 0 (-86), .one 0x1fcc 0 (-9),
   .shift 0x1fd0 0x1fd1 8 0, .shift 0x1fd8 0x1fd9 0 (-8), .shift 0x1fda 0x1fdb 0 (-100),
   .shift 0x1fe0 0x1fe1 8 0, .one 0x1fe5 7 0, .shift 0x1fe8 0x1fe9 0 (-8),
   .shift 0x1fea 0x1feb 0 (-112), .one 0x1fec 0 (-7), .one 0x1ff3 9 0,
   .shift 0x1ff8 0x1ff9 0 (-128), .shift 0x1ffa 0x1ffb 0 (-126), .one 0x1ffc 0 (-9),
   .one 0x2126 0 (-7517), .one 0x212a 0 (-8383), .one 0x212b 0 (-8262), .one 0x2132 0 28,
   .one 0x214e (-28) 0, .shift 0x2160 0x216f 0 16, .shift 0x2170 0x217f (-16) 0,
   .upperLower 0x2183 0x2184, .shift 0x24b6 0x24cf 0 26, .shift 0x24d0 0x24e9 (-26) 0,
   .shift 0x2c00 0x2c2f 0 48, .shift 0x2c30 0x2c5f (-48) 0, .upperLower 0x2c60 0x2c61,
   .one 0x2c62 0 (-10743), .one 0x2c63 0 (-3814), .one 0x2c64 0 (-10727), .one 0x2c65 (-10795) 0,
   .one 0x2c66 (-10792) 0, .upperLower 0x2c67 0x2c6c, .one 0x2c6d 0 (-10780),
   .one 0x2c6e 0 (-10749), .one 0x2c6f 0 (-10783), .one 0x2c70 0 (-10782),
   .upperLower 0x2c72 0x2c73, .upperLower 0x2c75 0x2c76, .shift 0x2c7e 0x2c7f 0 (-10815),
   .upperLower 0x2c80 0x2ce3, .upperLower 0x2ceb 0x2cee, .upperLower 0x2cf2 0x2cf3,
   .shift 0x2d00 0x2d25 (-7264) 0, .one 0x2d27 (-7264) 0, .one 0x2d2d (-7264) 0,
   .upperLower 0xa640 0xa66d, .upperLower 0xa680 0xa69b, .upperLower 0xa722 0xa72f,
   .upperLower 0xa732 0xa76f, .upperLower 0xa779 0xa77c, .one 0xa77d 0 (-35332),
   .upperLower 0xa77e 0xa787, .upperLower 0xa78b 0xa78c, .one 0xa78d 0 (-42280),
   .upperLower 0xa790 0xa793, .one 0xa794 48 0, .upperLower 0xa796 0xa7a9, .one 0xa7aa 0 (-42308),
   .one 0xa7ab 0 (-42319), .one 0xa7ac 0 (-42315), .one 0xa7ad 0 (-42305), .one 0xa7ae 0 (-42308),
   .one 0xa7b0 0 (-42258), .one 0xa7b1 0 (-42282), .one 0xa7b2 0 (-42261), .one 0xa7b3 0 928,
   .upperLower 0xa7b4 0xa7c3, .one 0xa7c4 0 (-48), .one 0xa7c5 0 (-42307), .one 0xa7c6 0 (-35384),
   .upperLower 0xa7c7 0xa7ca, .upperLower 0xa7d0 0xa7d1, .upperLower 0xa7d6 0xa7d9,
   .upperLower 0xa7f5 0xa7f6, .one 0xab53 (-928) 0, .shift 0xab70 0xabbf (-38864) 0,
   .shift 0xff21 0xff3a 0 32, .shift 0xff41 0xff5a (-32) 0, .shift 0x10400 0x10427 0 40,
   .shift 0x10428 0x1044f (-40) 0, .shift 0x104b0 0x104d3 0 40, .shift 0x104d8 0x104fb (-40) 0,
   .shift 0x10570 0x1057a 0 39, .shift 0x1057c 0x1058a 0 39, .shift 0x1058c 0x10592 0 39,
   .shift 0x10594 0x10595 0 39, .shift 0x10597 0x105a1 (-39) 0, .shift 0x105a3 0x105b1 (-39) 0,
   .shift 0x105b3 0x105b9 (-39) 0, .shift 0x105bb 0x105bc (-39) 0, .shift 0x10c80 0x10cb2 0 64,
   .shift 0x10cc0 0x10cf2 (-64) 0, .shift 0x118a0 0x118bf 0 32, .shift 0x118c0 0x118df (-32) 0,
   .shift 0x16e40 0x16e5f 0 32, .shift 0x16e60 0x16e7f (-32) 0, .shift 0x1e900 0x1e921 0 34,
   .shift 0x1e922 0x1e943 (-34) 0]

def caseRange? (c : Char) : Option CaseRange :=
  (caseRanges.find? fun r => c.toNat ≤ r.hi).filter fun r => r.lo ≤ c.toNat

/-- `unicode.ToLower`. -/
def toLower (c : Char) : Char :=
  match caseRange? c with
  | none => c
  | some r => .ofNat (r.lower c.toNat)

/-- `unicode.ToUpper`. -/
def toUpper (c : Char) : Char :=
  match caseRange? c with
  | none => c
  | some r => .ofNat (r.upper c.toNat)

/-- The fold classes other than pairs: each character with the next larger one of
its class, the largest with the smallest. -/
def caseOrbit : List (Nat × Nat) :=
  [(0x4b, 0x6b), (0x53, 0x73), (0x6b, 0x212a), (0x73, 0x17f), (0xb5, 0x39c), (0xc5, 0xe5),
   (0xdf, 0x1e9e), (0xe5, 0x212b), (0x130, 0x130), (0x131, 0x131), (0x17f, 0x53), (0x1c4, 0x1c5),
   (0x1c5, 0x1c6), (0x1c6, 0x1c4), (0x1c7, 0x1c8), (0x1c8, 0x1c9), (0x1c9, 0x1c7),
   (0x1ca, 0x1cb), (0x1cb, 0x1cc), (0x1cc, 0x1ca), (0x1f1, 0x1f2), (0x1f2, 0x1f3),
   (0x1f3, 0x1f1), (0x345, 0x399), (0x392, 0x3b2), (0x395, 0x3b5), (0x398, 0x3b8),
   (0x399, 0x3b9), (0x39a, 0x3ba), (0x39c, 0x3bc), (0x3a0, 0x3c0), (0x3a1, 0x3c1),
   (0x3a3, 0x3c2), (0x3a6, 0x3c6), (0x3a9, 0x3c9), (0x3b2, 0x3d0), (0x3b5, 0x3f5),
   (0x3b8, 0x3d1), (0x3b9, 0x1fbe), (0x3ba, 0x3f0), (0x3bc, 0xb5), (0x3c0, 0x3d6),
   (0x3c1, 0x3f1), (0x3c2, 0x3c3), (0x3c3, 0x3a3), (0x3c6, 0x3d5), (0x3c9, 0x2126),
   (0x3d0, 0x392), (0x3d1, 0x3f4), (0x3d5, 0x3a6), (0x3d6, 0x3a0), (0x3f0, 0x39a),
   (0x3f1, 0x3a1), (0x3f4, 0x398), (0x3f5, 0x395), (0x412, 0x432), (0x414, 0x434),
   (0x41e, 0x43e), (0x421, 0x441), (0x422, 0x442), (0x42a, 0x44a), (0x432, 0x1c80),
   (0x434, 0x1c81), (0x43e, 0x1c82), (0x441, 0x1c83), (0x442, 0x1c84), (0x44a, 0x1c86),
   (0x462, 0x463), (0x463, 0x1c87), (0x1c80, 0x412), (0x1c81, 0x414), (0x1c82, 0x41e),
   (0x1c83, 0x421), (0x1c84, 0x1c85), (0x1c85, 0x422), (0x1c86, 0x42a), (0x1c87, 0x462),
   (0x1c88, 0xa64a), (0x1e60, 0x1e61), (0x1e61, 0x1e9b), (0x1e9b, 0x1e60), (0x1e9e, 0xdf),
   (0x1fbe, 0x345), (0x2126, 0x3a9), (0x212a, 0x4b), (0x212b, 0xc5), (0xa64a, 0xa64b),
   (0xa64b, 0x1c88)]

/-- `unicode.SimpleFold`: the next character of the fold class. -/
def simpleFold (c : Char) : Char :=
  match caseOrbit.find? fun p => p.1 == c.toNat with
  | some p => .ofNat p.2
  | none => if toLower c ≠ c then toLower c else toUpper c

/-- Follow the fold class of `s` from `r` until it comes back to `s` or to `t`. -/
def followFold (s t : Char) : Nat → Char → Char
  | 0, r => r
  | fuel + 1, r => if r ≠ s ∧ r < t then followFold s t fuel (simpleFold r) else r

def foldFuel : Nat := 4

/-- The comparison of two characters in `strings.EqualFold`. -/
def equalFoldChar (a b : Char) : Bool :=
  if a = b then true
  else
    let s := min a b
    let t := max a b
    if t.toNat < 128 then decide ('A' ≤ s ∧ s ≤ 'Z' ∧ t.toNat = s.toNat + 32)
    else followFold s t foldFuel (simpleFold s) == t

def equalFoldList : List Char → List Char → Bool
  | [], [] => true
  | a :: as, b :: bs => equalFoldChar a b && equalFoldList as bs
  | _, _ => false

/-- `strings.EqualFold`. -/
def equalFold (s t : String) : Bool := equalFoldList s.toList t.toList

/-- `strings.ToLower`, which is also what `lower` does in PostgreSQL. -/
def lower (s : String) : String := .ofList (s.toList.map toLower)

end Monierave.Unicode
