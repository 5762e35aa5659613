/-!
# Blank characters

The characters with the Unicode property `White_Space`, and trimming by it. Log lines and timestamps
may be surrounded by any of them.
-/

namespace QueryForecast.Text

/-- Whether a character has the property `White_Space`. -/
def isBlank (c : Char) : Bool :=
  let n := c.toNat
  (9 ≤ n && n ≤ 13) || n == 32 || n == 0x85 || n == 0xA0 || n == 0x1680 ||
    (0x2000 ≤ n && n ≤ 0x200A) || n == 0x2028 || n == 0x2029 || n == 0x202F || n == 0x205F ||
    n == 0x3000

/-- The text without blanks in front. -/
def trimStart (text : List Char) : List Char :=
  text.dropWhile isBlank

/-- The text without blanks at either end. -/
def trim (text : List Char) : List Char :=
  (trimStart (trimStart text).reverse).reverse

end QueryForecast.Text
