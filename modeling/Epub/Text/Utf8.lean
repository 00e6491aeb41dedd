/-
Reading UTF-8.  Bytes are accepted exactly when they are well-formed UTF-8; a
refusal says where the first broken sequence starts and how much of it was
still good.
-/

namespace Epub.Text.Utf8

/-- Why bytes are not UTF-8. -/
inductive Fault where
  /-- The first `length` bytes from `index` start no character. -/
  | invalid (length index : Nat)
  /-- The input ends inside the character that starts at `index`. -/
  | incomplete (index : Nat)
deriving DecidableEq, Repr

def Fault.message : Fault → String
  | .invalid length index =>
      s!"invalid utf-8 sequence of {length} bytes from index {index}"
  | .incomplete index => s!"incomplete utf-8 byte sequence from index {index}"

/-- What a leading byte asks for: how many bytes follow it, and the range of
the first of them.  The narrowed ranges rule out overlong forms, surrogates and
numbers above U+10FFFF. -/
def following (lead : UInt8) : Option (Nat × UInt8 × UInt8) :=
  if lead < 0x80 then some (0, 0x80, 0xbf)
  else if lead < 0xc2 then none
  else if lead < 0xe0 then some (1, 0x80, 0xbf)
  else if lead = 0xe0 then some (2, 0xa0, 0xbf)
  else if lead = 0xed then some (2, 0x80, 0x9f)
  else if lead < 0xf0 then some (2, 0x80, 0xbf)
  else if lead = 0xf0 then some (3, 0x90, 0xbf)
  else if lead < 0xf4 then some (3, 0x80, 0xbf)
  else if lead = 0xf4 then some (3, 0x80, 0x8f)
  else none

/-- Check `count` continuation bytes, the first of them within `low` and
`high`.  `good` bytes of the sequence at `index` are known to fit. -/
def checkTail (index good : Nat) :
    Nat → UInt8 → UInt8 → List UInt8 → Option Fault
  | 0, _, _, _ => none
  | _ + 1, _, _, [] => some (.incomplete index)
  | count + 1, low, high, byte :: rest =>
      if low ≤ byte ∧ byte ≤ high then
        checkTail index (good + 1) count 0x80 0xbf rest
      else some (.invalid good index)

/-- The first fault at or after `index`, where `bytes` start. -/
def firstFault (index : Nat) (bytes : List UInt8) : Option Fault :=
  match bytes with
  | [] => none
  | lead :: rest =>
      match following lead with
      | none => some (.invalid 1 index)
      | some (count, low, high) =>
          match checkTail index 1 count low high rest with
          | some fault => some fault
          | none => firstFault (index + count + 1) (rest.drop count)
termination_by bytes.length
decreasing_by simp only [List.length_drop, List.length_cons]; omega

/-- The text that `bytes` spell.  A refusal carries the first fault. -/
def decode (bytes : ByteArray) : Except Fault String :=
  match String.fromUTF8? bytes with
  | some text => .ok text
  | none => .error ((firstFault 0 bytes.toList).getD (.incomplete bytes.size))

/-- The byte order mark as UTF-8. -/
def byteOrderMark : List UInt8 :=
  [0xef, 0xbb, 0xbf]

/-- Remove one byte order mark from the front, if there is one. -/
def dropByteOrderMark (bytes : ByteArray) : ByteArray :=
  if bytes.toList.take 3 = byteOrderMark then bytes.extract 3 bytes.size else bytes

end Epub.Text.Utf8
