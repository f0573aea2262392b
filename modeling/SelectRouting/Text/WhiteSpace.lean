import SelectRouting.Text.RangeTable
/-!
# White space

The characters that may stand between two tokens without meaning anything: those of the property `White_Space`.  The
zero-width space and the byte order mark do not have it.
-/
namespace SelectRouting.Text

/-- Property `White_Space`. -/
def whiteSpaceRanges : RangeTable where
  ranges := [
    (0x9, 0xd), (0x20, 0x20), (0x85, 0x85), (0xa0, 0xa0), (0x1680, 0x1680), (0x2000, 0x200a),
    (0x2028, 0x2029), (0x202f, 0x202f), (0x205f, 0x205f), (0x3000, 0x3000)]
  ascending := by decide +kernel

def isWhiteSpace (c : Char) : Bool :=
  whiteSpaceRanges.contains c.toNat

end SelectRouting.Text
