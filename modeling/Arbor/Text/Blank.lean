import Arbor.Text.Basic

/-!
# Blank characters

A character is blank when it has the Unicode property White_Space. The zero-width
space and the byte order mark do not have it, the no-break space does. Keys, bodies
and guards lose all their blanks, names and numbers only those at their ends.
-/
namespace Arbor

/-- The code points with the property White_Space. -/
def blankCodes : List Nat :=
  [0x09, 0x0A, 0x0B, 0x0C, 0x0D, 0x20, 0x85, 0xA0, 0x1680, 0x2000, 0x2001, 0x2002, 0x2003, 0x2004,
   0x2005, 0x2006, 0x2007, 0x2008, 0x2009, 0x200A, 0x2028, 0x2029, 0x202F, 0x205F, 0x3000]

/-- Whether a character has the property White_Space. -/
def isBlank (c : Char) : Bool :=
  blankCodes.contains c.toNat

namespace Text

/-- The text without any blank. -/
def withoutBlanks (text : Text) : Text :=
  text.filter (!isBlank ·)

/-- The text without the blanks at its two ends. -/
def trim (text : Text) : Text :=
  ((text.dropWhile isBlank).reverse.dropWhile isBlank).reverse

/-- Whether nothing is left of a text that is trimmed. -/
def isAllBlank (text : Text) : Bool :=
  text.all isBlank

end Text

end Arbor
