/-
Integers of fixed width.  A text is read as an integer exactly when it is digits, behind one
minus sign or not where the type has signs, and the integer that they denote fits the type.
What is written for it is the text again, without the zeros in front.
-/
import Epub.Proofs.Binding.Scalar
import Epub.Proofs.Except

namespace Epub.Schema

open Epub.Text

/-- Whether an integer fits the type, in two's complement where it has signs. -/
def IntegerType.Contains (type : IntegerType) (n : Int) : Prop :=
  if type.signed then -2 ^ (type.bits - 1) ≤ n ∧ n < 2 ^ (type.bits - 1)
  else 0 ≤ n ∧ n < 2 ^ type.bits

instance (type : IntegerType) (n : Int) : Decidable (type.Contains n) :=
  inferInstanceAs (Decidable (if type.signed then _ ∧ _ else _ ∧ _))

namespace IntegerType

variable {type : IntegerType} {n : Int}

theorem contains_iff : type.Contains n ↔ -(type.depth : Int) ≤ n ∧ n ≤ type.largest := by
  have hpow : ∀ k : Nat, ((Nat.pow 2 k : Nat) : Int) = 2 ^ k := fun k => Nat.cast_pow 2 k
  have hpos : ∀ k : Nat, 0 < Nat.pow 2 k := fun k => Nat.two_pow_pos k
  unfold Contains depth largest
  split
  · have hhalf := hpos (type.bits - 1)
    rw [← hpow]
    omega
  · have hall := hpos type.bits
    rw [← hpow]
    omega

end IntegerType

namespace ScalarType

variable {type : IntegerType} {s : String}

theorem read_integer_eq_ok {value : Scalar} :
    (ScalarType.integer type).read s = .ok value ↔
      ∃ n, value = .integer n ∧ IsInteger type.signed s.toList n ∧ type.Contains n := by
  rw [read, map_eq_ok]
  refine exists_congr fun n => ?_
  rw [IntegerType.read_eq_ok, IntegerType.contains_iff, and_comm, eq_comm]

theorem read_integer_eq_error {fault : ScalarFault} :
    (ScalarType.integer type).read s = .error fault ↔
      fault = .notNumber ∧ ∀ n, IsInteger type.signed s.toList n → ¬type.Contains n := by
  have hnone : (∀ n, IsInteger type.signed s.toList n → ¬type.Contains n) ↔
      ∀ n, type.read s.toList ≠ .ok n := by
    simp only [ne_eq, IntegerType.read_eq_ok, IntegerType.contains_iff, not_and]
  rw [hnone, read, map_eq_error]
  cases hread : type.read s.toList with
  | ok n => simp
  | error other => simp [IntegerType.eq_notNumber_of_read hread, eq_comm]

/-- Integers are read exactly, for every width and with signs or without: a text is read as
the integer that it denotes if there is one and it fits, and is no number otherwise.  What is
written for an integer that fits is read back, and what is written for one that has been read
is the text without the zeros in front. -/
theorem read_integer (type : IntegerType) :
    (∀ s value, (integer type).read s = .ok value ↔
      ∃ n, value = .integer n ∧ IsInteger type.signed s.toList n ∧ type.Contains n) ∧
    (∀ s, (integer type).read s = .error .notNumber ↔
      ∀ n, IsInteger type.signed s.toList n → ¬type.Contains n) ∧
    (∀ n, type.Contains n → (integer type).read (Scalar.integer n).text = .ok (.integer n)) ∧
    ∀ s value, (integer type).read s = .ok value →
      value.text.toList = shortestInteger s.toList := by
  refine ⟨fun s value => read_integer_eq_ok, fun s => ?_, fun n hcontains => ?_, ?_⟩
  · rw [read_integer_eq_error, and_iff_right rfl]
  · exact read_text (IntegerType.contains_iff.mp hcontains)
  · intro s value hread
    obtain ⟨n, rfl, hinteger, -⟩ := read_integer_eq_ok.mp hread
    exact hinteger.toList_toString

/-- The least integer of thirty-two bits is read back, the one below it is no number, and
zeros behind the sign are not written again. -/
theorem read_integer_least :
    IntegerType.Contains ⟨true, 32⟩ (-2147483648) ∧
      (integer ⟨true, 32⟩).read "-2147483648" = .ok (.integer (-2147483648)) ∧
      (∀ n, IsInteger true "-2147483649".toList n → ¬IntegerType.Contains ⟨true, 32⟩ n) ∧
      (integer ⟨true, 32⟩).read "-007" = .ok (.integer (-7)) ∧
      (Scalar.integer (-7)).text.toList = shortestInteger "-007".toList := by
  have hleast : IntegerType.Contains ⟨true, 32⟩ (-2147483648) := by decide
  have hseven : IsNumeral 10 "007".toList 7 :=
    ⟨by decide, [0, 0, 7], by decide, by decide⟩
  obtain ⟨hread, hrefuse, hback, hshort⟩ := read_integer ⟨true, 32⟩
  have hread : (integer ⟨true, 32⟩).read "-007" = .ok (.integer (-7)) :=
    (hread _ _).mpr ⟨-7, rfl, .minus rfl hseven, by decide⟩
  exact ⟨hleast, hback _ hleast, (hrefuse "-2147483649").mp (by decide), hread,
    hshort _ _ hread⟩

end ScalarType

end Epub.Schema
