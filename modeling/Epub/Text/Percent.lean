/-
Percent escapes of URLs.  A percent sign with two hexadecimal digits stands
for one byte; any other percent sign stands for itself.
-/
import Epub.Text.Numeral

namespace Epub.Text.Percent

/-- The byte that two hexadecimal digits write. -/
def escapedByte (high low : UInt8) : Option UInt8 := do
  let h ← digitValue 16 (Char.ofNat high.toNat)
  let l ← digitValue 16 (Char.ofNat low.toNat)
  return UInt8.ofNat (16 * h + l)

/-- Replace every escape by the byte it stands for. -/
def decodeBytes : List UInt8 → List UInt8
  | byte :: high :: low :: tail =>
      match if byte = 0x25 then escapedByte high low else none with
      | some escaped => escaped :: decodeBytes tail
      | none => byte :: decodeBytes (high :: low :: tail)
  | bytes => bytes

/-- The text behind the escapes of `s`, unless its bytes are not UTF-8. -/
def decode? (s : String) : Option String :=
  String.fromUTF8? (decodeBytes s.toUTF8.toList).toByteArray

end Epub.Text.Percent
