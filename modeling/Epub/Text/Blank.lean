/-
Blank characters and the cuts made at them.  Markup knows four blanks, lists of
tokens are separated by the five ASCII ones, and a text counts as empty when
all its characters have the Unicode property White_Space.
-/

namespace Epub.Text

/-- The white space between the parts of a tag. -/
def isSpace (c : Char) : Bool :=
  c = ' ' || c = '\t' || c = '\r' || c = '\n'

/-- The white space between the tokens of a list-valued attribute. -/
def isTokenSeparator (c : Char) : Bool :=
  isSpace c || c = '\x0c'

/-- The Unicode property White_Space: twenty-five characters. -/
def isBlank (c : Char) : Bool :=
  let n := c.toNat
  (0x09 ≤ n && n ≤ 0x0d) || n = 0x20 || n = 0x85 || n = 0xa0 || n = 0x1680 ||
    (0x2000 ≤ n && n ≤ 0x200a) || n = 0x2028 || n = 0x2029 || n = 0x202f ||
    n = 0x205f || n = 0x3000

/-- A text without a character that shows. -/
def isBlankText (s : String) : Bool :=
  s.toList.all isBlank

/-- Remove the blanks at both ends. -/
def trim (cs : List Char) : List Char :=
  ((cs.dropWhile isBlank).reverse.dropWhile isBlank).reverse

/-- The tokens of a list-valued attribute: its maximal runs without a
separator. -/
def tokens (s : String) : List String :=
  ((s.toList.splitOnP isTokenSeparator).filter (· ≠ [])).map String.ofList

end Epub.Text
