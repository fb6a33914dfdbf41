/-!
# Classes of characters

Two classes decide what may stand on a line of a program and what counts as an
empty name: the control characters, which can end a line or hide in it, and the
blanks, which show nothing.
-/

namespace Milling.Text

/-- The control characters: the first thirty-two, delete, and the thirty-two from U+0080. -/
def isControl (c : Char) : Bool :=
  c.val < 0x20 || (0x7F ≤ c.val && c.val < 0xA0)

/-- The characters that show as empty space, line ends included. -/
def isBlank (c : Char) : Bool :=
  (0x09 ≤ c.val && c.val ≤ 0x0D) || c.val == 0x20 || c.val == 0x85 || c.val == 0xA0 ||
    c.val == 0x1680 || (0x2000 ≤ c.val && c.val ≤ 0x200A) || c.val == 0x2028 ||
    c.val == 0x2029 || c.val == 0x202F || c.val == 0x205F || c.val == 0x3000

end Milling.Text
