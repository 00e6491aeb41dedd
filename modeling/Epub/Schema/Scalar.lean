/-
Scalar values: what an attribute or the text of an element can hold.  Reading
is strict.  Numbers are plain ASCII digits, booleans and keywords have to match
exactly, and every scalar has one text.
-/
import Epub.Text.Numeral

namespace Epub.Schema

open Epub.Text

/-- Integers of a fixed number of bits. -/
structure IntegerType where
  signed : Bool
  bits : Nat
deriving DecidableEq, Repr, Inhabited

/-- The largest number of the type. -/
def IntegerType.largest (type : IntegerType) : Nat :=
  if type.signed then Nat.pow 2 (type.bits - 1) - 1 else Nat.pow 2 type.bits - 1

/-- How far below zero the type reaches. -/
def IntegerType.depth (type : IntegerType) : Nat :=
  if type.signed then Nat.pow 2 (type.bits - 1) else 0

/-- A closed list of words, one of them the default. -/
structure Keywords where
  words : List String
  default : String
deriving DecidableEq, Repr, Inhabited

/-- The types of scalars. -/
inductive ScalarType where
  | string
  | boolean
  | integer (type : IntegerType)
  | keyword (words : Keywords)
deriving DecidableEq, Repr, Inhabited

/-- A value of some scalar type. -/
inductive Scalar where
  | string (s : String)
  | boolean (b : Bool)
  | integer (n : Int)
  | keyword (word : String)
deriving DecidableEq, Repr, Inhabited

/-- Why a text is no value of a type. -/
inductive ScalarFault where
  | notNumber
  | notKeyword
deriving DecidableEq, Repr

/-- Whether a text is nothing but digits, behind one minus sign at most where there are
signs. -/
def isStrictInteger (signed : Bool) (cs : List Char) : Bool :=
  let digits :=
    match signed, cs with
    | true, '-' :: rest => rest
    | _, _ => cs
  !digits.isEmpty && digits.all Char.isDigit

/-- Parse an integer of the type, with a plus sign in front or without. -/
def IntegerType.parse (type : IntegerType) (cs : List Char) : Except NumeralFault Int :=
  readInteger 10 type.signed type.depth type.largest cs

/-- Read an integer.  Parsing alone would be too lenient. -/
def IntegerType.read (type : IntegerType) (cs : List Char) : Except ScalarFault Int :=
  if isStrictInteger type.signed cs then (type.parse cs).mapError fun _ => .notNumber
  else .error .notNumber

/-- Read a text as a value of the type. -/
def ScalarType.read (type : ScalarType) (raw : String) : Except ScalarFault Scalar :=
  match type with
  | .string => .ok (.string raw)
  | .boolean =>
      if raw = "true" then .ok (.boolean true)
      else if raw = "false" then .ok (.boolean false)
      else .error .notKeyword
  | .integer type => (type.read raw.toList).map .integer
  | .keyword keywords =>
      if raw ∈ keywords.words then .ok (.keyword raw) else .error .notKeyword

/-- The text of a value. -/
def Scalar.text : Scalar → String
  | .string s => s
  | .boolean true => "true"
  | .boolean false => "false"
  | .integer n => toString n
  | .keyword word => word

/-- The value that a field of the type has when nothing is said. -/
def ScalarType.default : ScalarType → Scalar
  | .string => .string ""
  | .boolean => .boolean false
  | .integer _ => .integer 0
  | .keyword keywords => .keyword keywords.default

/-- Whether a value is the default of its own type.  A field may hold a string
whatever its type is, and a string is at its default when it is empty; a keyword
is one of `type`. -/
def Scalar.isDefault (value : Scalar) (type : ScalarType) : Bool :=
  match value with
  | .string s => s = ""
  | .boolean b => !b
  | .integer n => n = 0
  | .keyword _ => value = type.default

end Epub.Schema
