import MenuPages.Text.Joining
import MenuPages.Text.Unprinted

/-!
# Characters that are not seen

Characters that cannot be told from a text as it is shown: those that print nothing, those that join
the character before them, and the letters that fill the place of a letter and are to be ignored.
-/

namespace MenuPages.Text

/-- The fillers of Hangul: letters without a shape. -/
def fillerRanges : Ranges :=
  [(0x115F, 0x1160), (0x3164, 0x3164), (0xFFA0, 0xFFA0)]

/-- A character that is not seen. -/
def isUnseen (c : Char) : Bool :=
  unprintedRanges.holds c || joiningRanges.holds c || fillerRanges.holds c

end MenuPages.Text
