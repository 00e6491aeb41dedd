/-
Texts in quotation marks, as descriptions of schemas and of faulty namespace
names show them.
-/
import Epub.Text.Shapeless

namespace Epub.Text.Literal

/-- A number in hexadecimal digits of the chosen case, without padding. -/
def hexadecimal (upper : Bool) (n : Nat) : String :=
  let digits := Nat.toDigits 16 n
  String.ofList (if upper then digits.map Char.toUpper else digits)

/-- One character of a described text. -/
def describeChar (c : Char) : String :=
  if c = '"' then "\\\""
  else if c = '\\' then "\\\\"
  else if c = '\n' then "\\n"
  else if c = '\r' then "\\r"
  else if c = '\t' then "\\t"
  else if c = '\x00' then "\\0"
  else if c.toNat < 0x20 ∨ c.toNat = 0x7f ∨ isShapeless c then
    "\\u\x7b" ++ hexadecimal false c.toNat ++ "\x7d"
  else String.singleton c

/-- A text in quotation marks, with backslash escapes for whatever would not
show. -/
def describe (s : String) : String :=
  "\"" ++ String.join (s.toList.map describeChar) ++ "\""

/-- A list of described texts in brackets. -/
def describeList (texts : List String) : String :=
  "[" ++ String.intercalate ", " (texts.map describe) ++ "]"

/-- One byte of a text shown byte by byte. -/
def showByte (byte : UInt8) : String :=
  if byte = 0x22 then "\\\""
  else if 32 ≤ byte ∧ byte ≤ 126 then String.singleton (Char.ofNat byte.toNat)
  else "0x" ++ hexadecimal true byte.toNat

/-- A text in quotation marks shown byte by byte: printable ASCII as it is,
any other byte by its number. -/
def showBytes (s : String) : String :=
  "\"" ++ String.join (s.toUTF8.toList.map showByte) ++ "\""

end Epub.Text.Literal
