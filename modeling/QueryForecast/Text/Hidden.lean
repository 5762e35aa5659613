import QueryForecast.Text.Combining
import QueryForecast.Text.Unassigned

/-!
# Characters that have no shape of their own

Controls, format characters, separators other than the blank, private use characters, letters that
only fill a place, numbers without a character, and marks that combine with the character before
them. A quoted text shows them by number, since they would be invisible or misread in it.

Every character with the Unicode property `Default_Ignorable_Code_Point` is among them.
-/

namespace QueryForecast.Text

/-- The characters of the general categories `Cc`, `Cf`, `Co`, `Zl`, `Zp` and `Zs`, less the
blank. -/
def invisible : Ranges := [
  (0x0, 0x1F), (0x7F, 0xA0), (0xAD, 0xAD), (0x600, 0x605), (0x61C, 0x61C), (0x6DD, 0x6DD),
  (0x70F, 0x70F), (0x890, 0x891), (0x8E2, 0x8E2), (0x1680, 0x1680), (0x180E, 0x180E),
  (0x2000, 0x200F), (0x2028, 0x202F), (0x205F, 0x2064), (0x2066, 0x206F), (0x3000, 0x3000),
  (0xE000, 0xF8FF), (0xFEFF, 0xFEFF), (0xFFF9, 0xFFFB), (0x110BD, 0x110BD), (0x110CD, 0x110CD),
  (0x13430, 0x1343F), (0x1BCA0, 0x1BCA3), (0x1D173, 0x1D17A), (0xE0001, 0xE0001),
  (0xE0020, 0xE007F), (0xF0000, 0xFFFFD), (0x100000, 0x10FFFD)]

/-- The letters that hold the place of one that a Hangul syllable lacks, and are drawn as nothing.
-/
def fillers : Ranges := [(0x115F, 0x1160), (0x3164, 0x3164), (0xFFA0, 0xFFA0)]

/-- Whether a character is shown by number in a quoted text. -/
def isHidden (c : Char) : Bool :=
  invisible.covers c.toNat || fillers.covers c.toNat || isCombining c || isUnassigned c

end QueryForecast.Text
