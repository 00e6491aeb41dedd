/-
Reading numerals in a given base, within limits.  The digits are taken from the
left, upwards from zero or downwards behind a minus sign, and the first one that
fits no digit or leaves the limit behind decides the refusal.
-/

namespace Epub.Text

/-- Why a text is not a numeral within the limit. -/
inductive NumeralFault where
  | empty
  | invalidDigit
  | tooLarge
  | tooSmall
deriving DecidableEq, Repr

def NumeralFault.message : NumeralFault → String
  | .empty => "cannot parse integer from empty string"
  | .invalidDigit => "invalid digit found in string"
  | .tooLarge => "number too large to fit in target type"
  | .tooSmall => "number too small to fit in target type"

/-- The value of an ASCII digit or letter as a digit of `base`. -/
def digitValue (base : Nat) (c : Char) : Option Nat :=
  let n := c.toNat
  let value :=
    if 48 ≤ n ∧ n ≤ 57 then n - 48
    else if 65 ≤ n ∧ n ≤ 90 then n - 55
    else if 97 ≤ n ∧ n ≤ 122 then n - 87
    else base
  if value < base then some value else none

/-- Read further digits onto `value`. -/
def readDigits (base limit value : Nat) : List Char → Except NumeralFault Nat
  | [] => .ok value
  | c :: rest =>
      match digitValue base c with
      | none => .error .invalidDigit
      | some digit =>
          if value * base + digit ≤ limit then
            readDigits base limit (value * base + digit) rest
          else .error .tooLarge

/-- Read a numeral without a sign. -/
def readNumeral (base limit : Nat) : List Char → Except NumeralFault Nat
  | [] => .error .empty
  | cs => readDigits base limit 0 cs

/-- Read a numeral that may have one plus sign in front. -/
def readSignedNumeral (base limit : Nat) : List Char → Except NumeralFault Nat
  | ['+'] => .error .invalidDigit
  | '+' :: rest => readNumeral base limit rest
  | cs => readNumeral base limit cs

/-- Read further digits below `value`. -/
def readDigitsBelow (base depth : Nat) (value : Int) : List Char → Except NumeralFault Int
  | [] => .ok value
  | c :: rest =>
      match digitValue base c with
      | none => .error .invalidDigit
      | some digit =>
          if -(depth : Int) ≤ value * base - digit then
            readDigitsBelow base depth (value * base - digit) rest
          else .error .tooSmall

/-- Read an integer.  Any may have a plus sign in front, and those of a signed
type a minus sign; a sign alone is no integer. -/
def readInteger (base : Nat) (signed : Bool) (depth limit : Nat) (cs : List Char) :
    Except NumeralFault Int :=
  match signed, cs with
  | _, ['-'] => .error .invalidDigit
  | true, '-' :: digits => readDigitsBelow base depth 0 digits
  | _, cs => (readSignedNumeral base limit cs).map Int.ofNat

/-- The largest number of thirty-two bits. -/
def limit32 : Nat :=
  Nat.pow 2 32 - 1

end Epub.Text
