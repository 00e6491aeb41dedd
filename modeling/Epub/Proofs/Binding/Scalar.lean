/-
Scalars and their texts: the text of a value is read back as that value, and
whatever is read is a value of the type.  An integer is checked before it is
parsed, and the two together read what is written for integers of the type.
-/
import Epub.Schema.Scalar
import Epub.Proofs.Text.Integer

namespace Epub.Schema

open Epub.Text

/-- Whether a value belongs to a type. -/
def ScalarType.Holds : ScalarType → Scalar → Prop
  | .string, .string _ => True
  | .boolean, .boolean _ => True
  | .integer type, .integer n => -(type.depth : Int) ≤ n ∧ n ≤ type.largest
  | .keyword keywords, .keyword word => word ∈ keywords.words
  | _, _ => False

section Integers

variable {signed : Bool} {cs : List Char} {type : IntegerType} {n : Int}

/-- The strict check lets pass what is written for an integer of any size. -/
theorem isStrictInteger_iff : isStrictInteger signed cs = true ↔ ∃ n, IsInteger signed cs n := by
  have hfigures : ∀ digits : List Char, (!digits.isEmpty && digits.all Char.isDigit) = true ↔
      ∃ m, IsNumeral 10 digits m := by
    intro digits
    rw [exists_isNumeral_iff]
    simp
  unfold isStrictInteger
  split
  · simp only [hfigures, isInteger_minus_iff, true_and]
    exact ⟨fun ⟨m, hnumeral⟩ => ⟨-m, m, hnumeral, rfl⟩, fun ⟨_, m, hnumeral, _⟩ => ⟨m, hnumeral⟩⟩
  · rename_i hplain
    have hplain : ∀ digits, signed = true → cs ≠ '-' :: digits := hplain
    simp only [hfigures, isInteger_digits_iff hplain]
    exact ⟨fun ⟨m, hnumeral⟩ => ⟨m, m, hnumeral, rfl⟩, fun ⟨_, m, hnumeral, _⟩ => ⟨m, hnumeral⟩⟩

/-- The check and the parser together read what is written for an integer of the type.  What
the parser alone would read besides, numbers behind a plus sign, does not pass the check. -/
theorem IntegerType.read_eq_ok :
    type.read cs = .ok n ↔
      IsInteger type.signed cs n ∧ -(type.depth : Int) ≤ n ∧ n ≤ type.largest := by
  rw [read, parse]
  constructor
  · intro hread
    split at hread
    · rename_i hstrict
      obtain ⟨hparsed, hbounds⟩ := readInteger_eq_ok.mp (mapError_eq_ok.mp hread)
      refine ⟨?_, hbounds⟩
      rcases hparsed with hinteger | ⟨digits, rfl, -⟩
      · exact hinteger
      · obtain ⟨m, hinteger⟩ := isStrictInteger_iff.mp hstrict
        exact absurd hinteger not_isInteger_plus
    · contradiction
  · rintro ⟨hinteger, hbounds⟩
    rw [if_pos (isStrictInteger_iff.mpr ⟨n, hinteger⟩), mapError_eq_ok]
    exact readInteger_eq_ok.mpr ⟨.inl hinteger, hbounds⟩

/-- A plus sign passes the parser, and not the check. -/
example : IntegerType.parse ⟨true, 32⟩ ['+', '7'] = .ok 7 ∧
    IntegerType.read ⟨true, 32⟩ ['+', '7'] = .error .notNumber := by decide

/-- Only signed types reach below zero. -/
theorem IntegerType.signed_of_neg (hlow : -(type.depth : Int) ≤ n) (hneg : n < 0) :
    type.signed = true := by
  by_contra hunsigned
  have hdepth : type.depth = 0 := by simp [depth, hunsigned]
  omega

theorem IntegerType.read_toString (hlow : -(type.depth : Int) ≤ n) (hhigh : n ≤ type.largest) :
    type.read (toString n).toList = .ok n :=
  read_eq_ok.mpr ⟨isInteger_toString (signed_of_neg hlow), hlow, hhigh⟩

/-- No other fault is found. -/
theorem IntegerType.eq_notNumber_of_read {fault : ScalarFault}
    (hread : type.read cs = .error fault) : fault = .notNumber := by
  rw [read] at hread
  split at hread
  · obtain ⟨_, _, heq⟩ := mapError_eq_error.mp hread
    exact heq.symm
  · exact (Except.error.inj hread).symm

end Integers

namespace ScalarType

variable {type : ScalarType} {value : Scalar} {raw : String}

/-- The text of a value is read back. -/
theorem read_text (hholds : type.Holds value) : type.read value.text = .ok value := by
  cases type <;> cases value <;> simp only [Holds] at hholds
  · rfl
  · rename_i b
    cases b <;> rfl
  · rw [read, Scalar.text, IntegerType.read_toString hholds.1 hholds.2]
    rfl
  · simp [read, Scalar.text, hholds]

/-- What is read belongs to the type. -/
theorem holds_of_read (hread : type.read raw = .ok value) : type.Holds value := by
  cases type with
  | string =>
      cases hread
      trivial
  | boolean =>
      simp only [read] at hread
      split at hread
      · cases hread
        trivial
      · split at hread
        · cases hread
          trivial
        · contradiction
  | keyword keywords =>
      simp only [read] at hread
      split at hread
      · cases hread
        assumption
      · contradiction
  | integer type =>
      obtain ⟨n, hnumber, rfl⟩ := map_eq_ok.mp hread
      exact (IntegerType.read_eq_ok.mp hnumber).2

/-- Only an empty text is read as a value whose text is empty. -/
theorem text_ne_empty_of_read (hread : type.read raw = .ok value) (hraw : raw ≠ "") :
    value.text ≠ "" := by
  cases type with
  | string =>
      cases hread
      exact hraw
  | boolean =>
      simp only [read] at hread
      split at hread
      · cases hread
        decide
      · split at hread
        · cases hread
          decide
        · contradiction
  | keyword keywords =>
      simp only [read] at hread
      split at hread
      · cases hread
        exact hraw
      · contradiction
  | integer type =>
      obtain ⟨n, -, rfl⟩ := map_eq_ok.mp hread
      intro hempty
      cases n with
      | ofNat n => exact Nat.repr_ne_empty hempty
      | negSucc n =>
          have hchars := congrArg String.toList hempty
          rw [Scalar.text, toList_toString_negSucc] at hchars
          contradiction

end ScalarType

end Epub.Schema
