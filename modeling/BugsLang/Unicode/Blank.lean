import BugsLang.Unicode.Ranges

/-!
# Blank characters

The property *White_Space* and the general category *Cc* (control characters). Characters that
only look empty, such as U+200B, U+00AD or U+FEFF, are in neither.
-/

namespace BugsLang.Unicode

/-- The code points with the property *White_Space*. -/
def whiteSpaceRanges : List (Nat × Nat) :=
  [(0x9, 0xd), (0x20, 0x20), (0x85, 0x85), (0xa0, 0xa0), (0x1680, 0x1680), (0x2000, 0x200a),
    (0x2028, 0x2029), (0x202f, 0x202f), (0x205f, 0x205f), (0x3000, 0x3000)]

/-- The code points of general category *Cc*. -/
def controlRanges : List (Nat × Nat) :=
  [(0x0, 0x1f), (0x7f, 0x9f)]

/-- Whether the character has the property *White_Space*. -/
def isWhiteSpace (c : Char) : Bool :=
  inRanges c.toNat whiteSpaceRanges

/-- Whether the character is a control character. -/
def isControl (c : Char) : Bool :=
  inRanges c.toNat controlRanges

end BugsLang.Unicode
