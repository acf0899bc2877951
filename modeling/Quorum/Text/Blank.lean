/-!
# Blank characters and lines

* `isBlank` : the characters of white space;
* `trim` : a text without the blanks around it;
* `filledLines` : the lines of a text that hold more than blanks, trimmed.
-/

namespace Quorum.Text

/-- The characters with the property `White_Space`. -/
def isBlank (c : Char) : Bool :=
  let n := c.toNat
  (9 ≤ n && n ≤ 13) || n = 0x20 || n = 0x85 || n = 0xA0 || n = 0x1680 ||
    (0x2000 ≤ n && n ≤ 0x200A) || n = 0x2028 || n = 0x2029 || n = 0x202F || n = 0x205F || n = 0x3000

/-- The characters without the blanks before and after them. -/
def trim (cs : List Char) : List Char :=
  ((cs.dropWhile isBlank).reverse.dropWhile isBlank).reverse

/-- The lines of a text that hold more than blanks, trimmed. -/
def filledLines (s : String) : List String :=
  (((s.toList.splitOn '\n').map trim).filter (· ≠ [])).map String.ofList

end Quorum.Text
