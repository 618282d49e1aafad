/-! # Blank characters

Markup, configuration and directives all separate words by the characters of the White_Space
property.  The zero-width space and the byte order mark are not among them. -/

namespace HtmlLint.Text

/-- The character has the White_Space property. -/
def isBlank (c : Char) : Bool :=
  let n := c.toNat
  (9 ≤ n && n ≤ 13) || n == 0x20 || n == 0x85 || n == 0xa0 || n == 0x1680 ||
    (0x2000 ≤ n && n ≤ 0x200a) || n == 0x2028 || n == 0x2029 || n == 0x202f || n == 0x205f ||
    n == 0x3000

/-- The text without its leading blanks. -/
def trimStart (cs : List Char) : List Char :=
  cs.dropWhile isBlank

/-- The text without its trailing blanks. -/
def trimEnd (cs : List Char) : List Char :=
  (cs.reverse.dropWhile isBlank).reverse

/-- The text without blanks at either end. -/
def trim (cs : List Char) : List Char :=
  trimEnd (trimStart cs)

/-- `trim` on a string. -/
def trimString (s : String) : String :=
  String.ofList (trim s.toList)

end HtmlLint.Text
