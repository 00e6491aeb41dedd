/-
References to characters.  Both readings know the five predefined names and
the numbers of characters; a reference in text takes a plus sign in front of
the number and the number zero, one in an attribute value takes neither and
says what is wrong.
-/
import Epub.Text.Numeral
import Epub.Xml.Fault

namespace Epub.Xml

open Epub.Text

/-- The character behind a predefined name. -/
def predefined? (name : List Char) : Option Char :=
  if name = "lt".toList then some '<'
  else if name = "gt".toList then some '>'
  else if name = "amp".toList then some '&'
  else if name = "apos".toList then some '\''
  else if name = "quot".toList then some '"'
  else none

/-- The character with this number, if the number belongs to a character. -/
def scalar? (code : Nat) : Option Char :=
  if code.isValidChar then some (Char.ofNat code) else none

/-- The base and the digits of a numeric reference, from behind its `#`. -/
def numericForm : List Char → Nat × List Char
  | 'x' :: digits => (16, digits)
  | digits => (10, digits)

/-- What a reference in text stands for. -/
def resolveText? (name : List Char) : Option Char :=
  match name with
  | '#' :: number =>
      let (base, digits) := numericForm number
      match readSignedNumeral base limit32 digits with
      | .ok code => scalar? code
      | .error _ => none
  | _ => predefined? name

/-- What a numeric reference in an attribute value stands for, from behind its
`#`. -/
def resolveNumber (number : List Char) : Except ReferenceFault Char :=
  let (base, digits) := numericForm number
  if digits.head? = some '+' ∨ digits.head? = some '-' then .error .signedNumber
  else
    match readNumeral base limit32 digits with
    | .error fault => .error (.numeral fault)
    | .ok 0 => .error .nullCharacter
    | .ok code =>
        match scalar? code with
        | some c => .ok c
        | none => .error (.notCharacter code)

/-- The bytes that characters take as UTF-8. -/
def byteLength : List Char → Nat
  | [] => 0
  | c :: rest => c.utf8Size + byteLength rest

/-- Resolve the references of an attribute value that continues with `cs` at
the byte `position`. -/
def unescapeFrom (position : Nat) (cs : List Char) :
    Except ReferenceFault (List Char) :=
  match cs with
  | [] => .ok []
  | c :: rest =>
      if c = '&' then
        let name := rest.takeWhile (fun c => c ≠ ';' && c ≠ '&')
        let start := position + 1
        let stop := start + byteLength name
        match _ : rest.drop name.length with
        | ';' :: after => do
            let resolved ←
              match name with
              | '#' :: number => resolveNumber number
              | _ =>
                  match predefined? name with
                  | some c => .ok c
                  | none => .error (.unknownName start stop (String.ofList name))
            return resolved :: (← unescapeFrom (stop + 1) after)
        | _ => .error (.unterminated position (position + byteLength cs))
      else return c :: (← unescapeFrom (position + c.utf8Size) rest)
termination_by cs.length
decreasing_by
  · have := congrArg List.length ‹rest.drop _ = _ :: _›
    simp only [List.length_drop, List.length_cons] at this ⊢
    omega
  · simp

/-- An attribute value with its references resolved. -/
def unescape (value : List Char) : Except ReferenceFault String :=
  (unescapeFrom 0 value).map String.ofList

end Epub.Xml
