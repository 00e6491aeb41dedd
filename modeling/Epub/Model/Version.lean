/-
Editions of the format.  An edition is read from the first two numbers of a
dotted version; anything after 3.0 counts as 3.1.
-/
import Epub.Text.Blank
import Epub.Text.Numeral

namespace Epub.Model

open Epub.Text

/-- Editions with vocabularies of their own. -/
inductive Version where
  | v2
  | v30
  | v31
deriving DecidableEq, Repr

namespace Version

/-- The place of the edition in the order of editions. -/
def rank : Version → Nat
  | .v2 => 0
  | .v30 => 1
  | .v31 => 2

instance : LE Version := ⟨fun left right => left.rank ≤ right.rank⟩

instance : DecidableLE Version := fun left right =>
  inferInstanceAs (Decidable (left.rank ≤ right.rank))

/-- The edition as it is written. -/
def text : Version → String
  | .v2 => "2.0"
  | .v30 => "3.0"
  | .v31 => "3.1"

/-- Whether this is an edition of EPUB 3. -/
def isEpub3 (version : Version) : Bool :=
  decide (v30 ≤ version)

/-- The edition of a pair of numbers. -/
def classify? (major minor : Nat) : Option Version :=
  if major = 2 then some .v2
  else if major = 3 ∧ minor = 0 then some .v30
  else if 3 ≤ major then some .v31
  else none

/-- One number of a version. -/
def readComponent? (cs : List Char) : Option Nat :=
  (readSignedNumeral 10 limit32 cs).toOption

/-- Read a version.  A missing second number is zero, and numbers behind the
second do not matter. -/
def parse? (raw : String) : Option Version :=
  match (trim raw.toList).splitOn '.' with
  | [] => none
  | [major] => do classify? (← readComponent? major) 0
  | major :: minor :: _ => do
      classify? (← readComponent? major) (← readComponent? minor)

end Version

end Epub.Model
