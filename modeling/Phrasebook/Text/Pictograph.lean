import Phrasebook.Text.Basic

/-!
# Pictographs

Which characters are shown as pictographs, and the characters that pictographs are composed of: skin
tones, the letters that spell the region of a flag, and the tags behind a black flag.
-/

namespace Phrasebook.Text

/-- Pictographs that are shown in colour unless something else is asked for. Skin tones and the
letters of a region are not among them. -/
def colourful : CharProperty := ⟨[
  0x231a, 0x231c, 0x23e9, 0x23ed, 0x23f0, 0x23f1, 0x23f3, 0x23f4, 0x25fd, 0x25ff, 0x2614, 0x2616,
  0x2648, 0x2654, 0x267f, 0x2680, 0x2693, 0x2694, 0x26a1, 0x26a2, 0x26aa, 0x26ac, 0x26bd, 0x26bf,
  0x26c4, 0x26c6, 0x26ce, 0x26cf, 0x26d4, 0x26d5, 0x26ea, 0x26eb, 0x26f2, 0x26f4, 0x26f5, 0x26f6,
  0x26fa, 0x26fb, 0x26fd, 0x26fe, 0x2705, 0x2706, 0x270a, 0x270c, 0x2728, 0x2729, 0x274c, 0x274d,
  0x274e, 0x274f, 0x2753, 0x2756, 0x2757, 0x2758, 0x2795, 0x2798, 0x27b0, 0x27b1, 0x27bf, 0x27c0,
  0x2b1b, 0x2b1d, 0x2b50, 0x2b51, 0x2b55, 0x2b56, 0x1f004, 0x1f005, 0x1f0cf, 0x1f0d0, 0x1f18e,
  0x1f18f, 0x1f191, 0x1f19b, 0x1f201, 0x1f202, 0x1f21a, 0x1f21b, 0x1f22f, 0x1f230, 0x1f232,
  0x1f237, 0x1f238, 0x1f23b, 0x1f250, 0x1f252, 0x1f300, 0x1f321, 0x1f32d, 0x1f336, 0x1f337,
  0x1f37d, 0x1f37e, 0x1f394, 0x1f3a0, 0x1f3cb, 0x1f3cf, 0x1f3d4, 0x1f3e0, 0x1f3f1, 0x1f3f4,
  0x1f3f5, 0x1f3f8, 0x1f3fb, 0x1f400, 0x1f43f, 0x1f440, 0x1f441, 0x1f442, 0x1f4fd, 0x1f4ff,
  0x1f53e, 0x1f54b, 0x1f54f, 0x1f550, 0x1f568, 0x1f57a, 0x1f57b, 0x1f595, 0x1f597, 0x1f5a4,
  0x1f5a5, 0x1f5fb, 0x1f650, 0x1f680, 0x1f6c6, 0x1f6cc, 0x1f6cd, 0x1f6d0, 0x1f6d3, 0x1f6d5,
  0x1f6d9, 0x1f6dc, 0x1f6e0, 0x1f6eb, 0x1f6ed, 0x1f6f4, 0x1f6fd, 0x1f7e0, 0x1f7ec, 0x1f7f0,
  0x1f7f1, 0x1f90c, 0x1f93b, 0x1f93c, 0x1f946, 0x1f947, 0x1fa00, 0x1fa70, 0x1fa7d, 0x1fa80,
  0x1fa8b, 0x1fa8e, 0x1fac7, 0x1fac8, 0x1fac9, 0x1facd, 0x1fadd, 0x1fadf, 0x1faeb, 0x1faef,
  0x1faf9]⟩

/-- Characters that have both a plain and a coloured form, between which a selector chooses. -/
def selectable : CharProperty := ⟨[
  0x23, 0x24, 0x2a, 0x2b, 0x30, 0x3a, 0xa9, 0xaa, 0xae, 0xaf, 0x203c, 0x203d, 0x2049, 0x204a,
  0x2122, 0x2123, 0x2139, 0x213a, 0x2194, 0x219a, 0x21a9, 0x21ab, 0x231a, 0x231c, 0x2328, 0x2329,
  0x23cf, 0x23d0, 0x23e9, 0x23f4, 0x23f8, 0x23fb, 0x24c2, 0x24c3, 0x25aa, 0x25ac, 0x25b6, 0x25b7,
  0x25c0, 0x25c1, 0x25fb, 0x25ff, 0x2600, 0x2605, 0x260e, 0x260f, 0x2611, 0x2612, 0x2614, 0x2616,
  0x2618, 0x2619, 0x261d, 0x261e, 0x2620, 0x2621, 0x2622, 0x2624, 0x2626, 0x2627, 0x262a, 0x262b,
  0x262e, 0x2630, 0x2638, 0x263b, 0x2640, 0x2641, 0x2642, 0x2643, 0x2648, 0x2654, 0x265f, 0x2661,
  0x2663, 0x2664, 0x2665, 0x2667, 0x2668, 0x2669, 0x267b, 0x267c, 0x267e, 0x2680, 0x2692, 0x2698,
  0x2699, 0x269a, 0x269b, 0x269d, 0x26a0, 0x26a2, 0x26a7, 0x26a8, 0x26aa, 0x26ac, 0x26b0, 0x26b2,
  0x26bd, 0x26bf, 0x26c4, 0x26c6, 0x26c8, 0x26c9, 0x26cf, 0x26d0, 0x26d1, 0x26d2, 0x26d3, 0x26d5,
  0x26e9, 0x26eb, 0x26f0, 0x26f6, 0x26f7, 0x26fb, 0x26fd, 0x26fe, 0x2702, 0x2703, 0x2708, 0x270a,
  0x270c, 0x270e, 0x270f, 0x2710, 0x2712, 0x2713, 0x2714, 0x2715, 0x2716, 0x2717, 0x271d, 0x271e,
  0x2721, 0x2722, 0x2733, 0x2735, 0x2744, 0x2745, 0x2747, 0x2748, 0x2753, 0x2754, 0x2757, 0x2758,
  0x2763, 0x2765, 0x27a1, 0x27a2, 0x2934, 0x2936, 0x2b05, 0x2b08, 0x2b1b, 0x2b1d, 0x2b50, 0x2b51,
  0x2b55, 0x2b56, 0x3030, 0x3031, 0x303d, 0x303e, 0x3297, 0x3298, 0x3299, 0x329a, 0x1f004,
  0x1f005, 0x1f170, 0x1f172, 0x1f17e, 0x1f180, 0x1f202, 0x1f203, 0x1f21a, 0x1f21b, 0x1f22f,
  0x1f230, 0x1f237, 0x1f238, 0x1f30d, 0x1f310, 0x1f315, 0x1f316, 0x1f31c, 0x1f31d, 0x1f321,
  0x1f322, 0x1f324, 0x1f32d, 0x1f336, 0x1f337, 0x1f378, 0x1f379, 0x1f37d, 0x1f37e, 0x1f393,
  0x1f394, 0x1f396, 0x1f398, 0x1f399, 0x1f39c, 0x1f39e, 0x1f3a0, 0x1f3a7, 0x1f3a8, 0x1f3ac,
  0x1f3af, 0x1f3c2, 0x1f3c3, 0x1f3c4, 0x1f3c5, 0x1f3c6, 0x1f3c7, 0x1f3ca, 0x1f3cf, 0x1f3d4,
  0x1f3e1, 0x1f3ed, 0x1f3ee, 0x1f3f3, 0x1f3f4, 0x1f3f5, 0x1f3f6, 0x1f3f7, 0x1f3f8, 0x1f408,
  0x1f409, 0x1f415, 0x1f416, 0x1f41f, 0x1f420, 0x1f426, 0x1f427, 0x1f43f, 0x1f440, 0x1f441,
  0x1f443, 0x1f446, 0x1f44a, 0x1f44d, 0x1f44f, 0x1f453, 0x1f454, 0x1f46a, 0x1f46b, 0x1f47d,
  0x1f47e, 0x1f4a3, 0x1f4a4, 0x1f4b0, 0x1f4b1, 0x1f4b3, 0x1f4b4, 0x1f4bb, 0x1f4bc, 0x1f4bf,
  0x1f4c0, 0x1f4cb, 0x1f4cc, 0x1f4da, 0x1f4db, 0x1f4df, 0x1f4e0, 0x1f4e4, 0x1f4e7, 0x1f4ea,
  0x1f4ee, 0x1f4f7, 0x1f4f8, 0x1f4f9, 0x1f4fc, 0x1f4fd, 0x1f4fe, 0x1f508, 0x1f509, 0x1f50d,
  0x1f50e, 0x1f512, 0x1f514, 0x1f549, 0x1f54b, 0x1f550, 0x1f568, 0x1f56f, 0x1f571, 0x1f573,
  0x1f57a, 0x1f587, 0x1f588, 0x1f58a, 0x1f58e, 0x1f590, 0x1f591, 0x1f5a5, 0x1f5a6, 0x1f5a8,
  0x1f5a9, 0x1f5b1, 0x1f5b3, 0x1f5bc, 0x1f5bd, 0x1f5c2, 0x1f5c5, 0x1f5d1, 0x1f5d4, 0x1f5dc,
  0x1f5df, 0x1f5e1, 0x1f5e2, 0x1f5e3, 0x1f5e4, 0x1f5e8, 0x1f5e9, 0x1f5ef, 0x1f5f0, 0x1f5f3,
  0x1f5f4, 0x1f5fa, 0x1f5fb, 0x1f610, 0x1f611, 0x1f687, 0x1f688, 0x1f68d, 0x1f68e, 0x1f691,
  0x1f692, 0x1f694, 0x1f695, 0x1f698, 0x1f699, 0x1f6ad, 0x1f6ae, 0x1f6b2, 0x1f6b3, 0x1f6b9,
  0x1f6bb, 0x1f6bc, 0x1f6bd, 0x1f6cb, 0x1f6cc, 0x1f6cd, 0x1f6d0, 0x1f6e0, 0x1f6e6, 0x1f6e9,
  0x1f6ea, 0x1f6f0, 0x1f6f1, 0x1f6f3, 0x1f6f4]⟩

/-- Pictographs of people and of parts of the body, which a skin tone modifies. -/
def tintable : CharProperty := ⟨[
  0x261d, 0x261e, 0x26f9, 0x26fa, 0x270a, 0x270e, 0x1f385, 0x1f386, 0x1f3c2, 0x1f3c5, 0x1f3c7,
  0x1f3c8, 0x1f3ca, 0x1f3cd, 0x1f442, 0x1f444, 0x1f446, 0x1f451, 0x1f466, 0x1f479, 0x1f47c,
  0x1f47d, 0x1f481, 0x1f484, 0x1f485, 0x1f488, 0x1f48f, 0x1f490, 0x1f491, 0x1f492, 0x1f4aa,
  0x1f4ab, 0x1f574, 0x1f576, 0x1f57a, 0x1f57b, 0x1f590, 0x1f591, 0x1f595, 0x1f597, 0x1f645,
  0x1f648, 0x1f64b, 0x1f650, 0x1f6a3, 0x1f6a4, 0x1f6b4, 0x1f6b7, 0x1f6c0, 0x1f6c1, 0x1f6cc,
  0x1f6cd, 0x1f90c, 0x1f90d, 0x1f90f, 0x1f910, 0x1f918, 0x1f920, 0x1f926, 0x1f927, 0x1f930,
  0x1f93a, 0x1f93c, 0x1f93f, 0x1f977, 0x1f978, 0x1f9b5, 0x1f9b7, 0x1f9b8, 0x1f9ba, 0x1f9bb,
  0x1f9bc, 0x1f9cd, 0x1f9d0, 0x1f9d1, 0x1f9de, 0x1fac3, 0x1fac6, 0x1faf0, 0x1faf9]⟩

/-- Whether a character is a skin tone. -/
def isSkinTone : Char → Bool := isBetween 0x1f3fb 0x1f3ff

/-- Whether a character is a letter of the region of a flag. -/
def isRegionLetter : Char → Bool := isBetween 0x1f1e6 0x1f1ff

/-- Whether a character is a letter in a tag. -/
def isTagLetter : Char → Bool := isBetween 0xe0061 0xe007a

/-- Whether a character is a digit in a tag. -/
def isTagDigit : Char → Bool := isBetween 0xe0030 0xe0039

/-- Whether a character is an ideograph in a frame. -/
def isFramedIdeograph : Char → Bool := isBetween 0x1f200 0x1f2ff

/-- Whether a selector gives a pictograph a plain form of a single column. -/
def hasPlainForm (c : Char) : Bool :=
  selectable.holds c && colourful.holds c && !isFramedIdeograph c

end Phrasebook.Text
