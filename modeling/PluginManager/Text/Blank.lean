/-!
# Blank characters

The characters with the Unicode property `White_Space`, and texts trimmed of them.

* `isBlank`: the property, character by character.
* `trim`: drops the blanks at both ends; `isBlankText` holds of a text that has nothing else.
-/

namespace PluginManager.Text

/-- `White_Space`: no zero-width space and no byte order mark. -/
def isBlank (c : Char) : Bool :=
  let n := c.toNat
  (9 ≤ n && n ≤ 13) || n == 0x20 || n == 0x85 || n == 0xa0 || n == 0x1680 ||
    (0x2000 ≤ n && n ≤ 0x200a) || n == 0x2028 || n == 0x2029 || n == 0x202f || n == 0x205f ||
    n == 0x3000

def trimList (cs : List Char) : List Char :=
  ((cs.dropWhile isBlank).reverse.dropWhile isBlank).reverse

def trim (s : String) : String :=
  String.ofList (trimList s.toList)

def isBlankText (s : String) : Bool :=
  s.toList.all isBlank

end PluginManager.Text
