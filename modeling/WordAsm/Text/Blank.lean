import WordAsm.Text.Ranges

/-! White space: the characters with the property White_Space. -/

namespace WordAsm.Text

def blankRanges : Ranges :=
  [(0x9, 0xd), (0x20, 0x20), (0x85, 0x85), (0xa0, 0xa0), (0x1680, 0x1680), (0x2000, 0x200a),
   (0x2028, 0x2029), (0x202f, 0x202f), (0x205f, 0x205f), (0x3000, 0x3000)]

/-- White space, the line feed included. -/
def isBlank (c : Char) : Bool :=
  blankRanges.covers c.toNat

end WordAsm.Text
