import Wirepack.Text.Joining
import Wirepack.Text.Unassigned

/-!
# Characters that do not show by themselves

A character is invisible if its code point lies in one of four tables: controls, formats,
separators and private use in `blank`, letters that only fill a place in `fillers`, marks
that join the character before them in `joining`, and code points without a character in
`unassigned`.
-/

namespace Wirepack.Text
set_option autoImplicit false

/-- Control, format and private-use characters, and separators other than the space. -/
def blank : List (Nat × Nat) :=
  [(0x0000, 0x001F), (0x007F, 0x00A0), (0x00AD, 0x00AD), (0x0600, 0x0605), (0x061C, 0x061C),
    (0x06DD, 0x06DD), (0x070F, 0x070F), (0x0890, 0x0891), (0x08E2, 0x08E2), (0x1680, 0x1680),
    (0x180E, 0x180E), (0x2000, 0x200F), (0x2028, 0x202F), (0x205F, 0x2064), (0x2066, 0x206F),
    (0x3000, 0x3000), (0xE000, 0xF8FF), (0xFEFF, 0xFEFF), (0xFFF9, 0xFFFB), (0x110BD, 0x110BD),
    (0x110CD, 0x110CD), (0x13430, 0x1343F), (0x1BCA0, 0x1BCA3), (0x1D173, 0x1D17A),
    (0xE0001, 0xE0001), (0xE0020, 0xE007F), (0xF0000, 0xFFFFD), (0x100000, 0x10FFFD)]

/-- Letters that stand for a missing part of a syllable. -/
def fillers : List (Nat × Nat) :=
  [(0x115F, 0x1160), (0x3164, 0x3164), (0xFFA0, 0xFFA0)]

/-- Whether a code point lies in one of the ranges. -/
def inRanges (ranges : List (Nat × Nat)) (point : Nat) : Bool :=
  ranges.any fun (first, last) => first ≤ point && point ≤ last

/-- Whether a character does not show by itself. -/
def isInvisible (c : Char) : Bool :=
  [blank, fillers, joining, unassigned].any fun ranges => inRanges ranges c.toNat

end Wirepack.Text
