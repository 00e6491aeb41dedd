/-
The keywords of package documents.  Each type has one word for each value and
reads its own words back.
-/
import Epub.Schema.Scalar

namespace Epub.Model

open Epub.Schema

/-- The base direction of a text. -/
inductive Direction where
  | ltr
  | rtl
  | auto
deriving DecidableEq, Repr, Inhabited

namespace Direction

def word : Direction → String
  | .ltr => "ltr"
  | .rtl => "rtl"
  | .auto => "auto"

def ofWord? (word : String) : Option Direction :=
  [ltr, rtl, auto].find? (·.word = word)

def keywords : Keywords :=
  ⟨[ltr, rtl, auto].map Direction.word, auto.word⟩

theorem ofWord_word (direction : Direction) :
    ofWord? direction.word = some direction := by
  cases direction <;> decide

end Direction

/-- Whether a spine entry is part of the default reading order. -/
inductive Linear where
  | yes
  | no
deriving DecidableEq, Repr, Inhabited

namespace Linear

def word : Linear → String
  | .yes => "yes"
  | .no => "no"

def ofWord? (word : String) : Option Linear :=
  [yes, no].find? (·.word = word)

def keywords : Keywords :=
  ⟨[yes, no].map Linear.word, yes.word⟩

theorem ofWord_word (linear : Linear) : ofWord? linear.word = some linear := by
  cases linear <;> decide

end Linear

/-- The direction in which the pages of a publication follow each other. -/
inductive PageProgression where
  | unspecified
  | ltr
  | rtl
deriving DecidableEq, Repr, Inhabited

namespace PageProgression

def word : PageProgression → String
  | .unspecified => "default"
  | .ltr => "ltr"
  | .rtl => "rtl"

def ofWord? (word : String) : Option PageProgression :=
  [unspecified, ltr, rtl].find? (·.word = word)

def keywords : Keywords :=
  ⟨[unspecified, ltr, rtl].map PageProgression.word, unspecified.word⟩

theorem ofWord_word (progression : PageProgression) :
    ofWord? progression.word = some progression := by
  cases progression <;> decide

end PageProgression

end Epub.Model
