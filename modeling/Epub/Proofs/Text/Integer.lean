/-
Integers with signs.  A parser that counts downwards behind a minus sign reads what digits
denote as well as one that counts upwards, so it reads every written integer within its limits,
and besides those only numbers behind a plus sign.
-/
import Epub.Proofs.Except
import Epub.Proofs.Text.Numeral

namespace Epub.Text

/-- Whether `cs` is written for `n`: digits that denote it, behind a minus sign the digits of
its negative. -/
inductive IsInteger (signed : Bool) : List Char → Int → Prop where
  | digits {cs : List Char} {n : Nat} (hnumeral : IsNumeral 10 cs n) : IsInteger signed cs n
  | minus {cs : List Char} {n : Nat} (hsigned : signed = true) (hnumeral : IsNumeral 10 cs n) :
      IsInteger signed ('-' :: cs) (-n)

section Texts

variable {signed : Bool} {cs : List Char} {n : Int}

theorem not_isNumeral_minus {n : Nat} : ¬IsNumeral 10 ('-' :: cs) n := by
  intro hnumeral
  have hmem := hnumeral.mem_hexadecimal (by decide) '-' List.mem_cons_self
  exact absurd hmem (by decide)

theorem isInteger_minus_iff :
    IsInteger signed ('-' :: cs) n ↔ signed = true ∧ ∃ m : Nat, IsNumeral 10 cs m ∧ n = -m := by
  constructor
  · intro hinteger
    cases hinteger with
    | digits hnumeral => exact absurd hnumeral not_isNumeral_minus
    | minus hsigned hnumeral => exact ⟨hsigned, _, hnumeral, rfl⟩
  · rintro ⟨hsigned, m, hnumeral, rfl⟩
    exact .minus hsigned hnumeral

theorem isInteger_digits_iff (hplain : ∀ digits, signed = true → cs ≠ '-' :: digits) :
    IsInteger signed cs n ↔ ∃ m : Nat, IsNumeral 10 cs m ∧ n = m := by
  constructor
  · intro hinteger
    cases hinteger with
    | digits hnumeral => exact ⟨_, hnumeral, rfl⟩
    | minus hsigned _ => exact absurd rfl (hplain _ hsigned)
  · rintro ⟨m, hnumeral, rfl⟩
    exact .digits hnumeral

/-- No integer is written with a plus sign. -/
theorem not_isInteger_plus : ¬IsInteger signed ('+' :: cs) n := by
  intro hinteger
  cases hinteger with
  | digits hnumeral => exact not_isNumeral_plus (by decide) hnumeral

end Texts

section Figures

/-- The digits of ten are the figures. -/
theorem isDigit_iff {c : Char} : c.isDigit = true ↔ ∃ d, IsDigit 10 c d := by
  have hcode : c.isDigit = true ↔ 48 ≤ c.toNat ∧ c.toNat ≤ 57 := by
    simp only [Char.isDigit, ge_iff_le, Bool.and_eq_true, decide_eq_true_eq, UInt32.le_iff_toNat_le]
    rfl
  simp only [hcode, ← digitValue_eq_some (by decide : 10 ≤ 16), digitValue_eq_some_iff_toNat]
  constructor
  · rintro ⟨hlow, hhigh⟩
    exact ⟨c.toNat - 48, by omega, .inl ⟨by omega, by omega⟩⟩
  · rintro ⟨d, hd, ⟨-, hcode⟩ | ⟨hten, -⟩⟩ <;> omega

/-- Figures, at least one, are a numeral, and no other text is. -/
theorem exists_isNumeral_iff {cs : List Char} :
    (∃ n, IsNumeral 10 cs n) ↔ cs ≠ [] ∧ ∀ c ∈ cs, c.isDigit = true := by
  constructor
  · rintro ⟨n, hne, digits, hdigits, -⟩
    refine ⟨hne, fun c hc => ?_⟩
    obtain ⟨d, -, hdigit⟩ := exists_of_forall₂ hdigits hc
    exact isDigit_iff.mpr ⟨d, hdigit⟩
  · rintro ⟨hne, hall⟩
    choose! value hvalue using fun c (hc : c ∈ cs) => isDigit_iff.mp (hall c hc)
    exact ⟨_, hne, cs.map value, List.forall₂_map_right_iff.mpr (List.forall₂_same.mpr hvalue),
      rfl⟩

end Figures

section Reading

variable {base depth limit : Nat} {cs : List Char}

/-- Reading downwards mirrors reading upwards. -/
theorem readDigitsBelow_eq_ok {value : Nat} {n : Int} :
    readDigitsBelow base depth (-(value : Int)) cs = .ok n ↔
      ∃ m : Nat, readDigits base depth value cs = .ok m ∧ n = -(m : Int) := by
  induction cs generalizing value with
  | nil => simp [readDigitsBelow, readDigits, eq_comm]
  | cons c rest ih =>
      rw [readDigitsBelow, readDigits]
      cases digitValue base c with
      | none => simp
      | some digit =>
          have hnext : -(value : Int) * base - digit = -((value * base + digit : Nat) : Int) := by
            push_cast
            ring
          have hwithin : -(depth : Int) ≤ -((value * base + digit : Nat) : Int) ↔
              value * base + digit ≤ depth := by omega
          simp only [hnext, hwithin]
          split
          · exact ih
          · simp

/-- Behind a minus sign digits are read up to the depth. -/
theorem readDigitsBelow_zero_eq_ok (hne : cs ≠ []) {n : Int} :
    readDigitsBelow 10 depth 0 cs = .ok n ↔
      ∃ m : Nat, (IsNumeral 10 cs m ∧ m ≤ depth) ∧ n = -(m : Int) := by
  have hmirror : readDigitsBelow 10 depth (-((0 : Nat) : Int)) cs = .ok n ↔
      ∃ m : Nat, readDigits 10 depth 0 cs = .ok m ∧ n = -(m : Int) := readDigitsBelow_eq_ok
  have hnumeral : readNumeral 10 depth cs = readDigits 10 depth 0 cs := by
    rw [readNumeral]
    exact hne
  rw [Nat.cast_zero, neg_zero, ← hnumeral] at hmirror
  rw [hmirror]
  simp only [readNumeral_eq_ok (by decide : 0 < 10) (by decide : 10 ≤ 16)]

/-- What the parser reads: what is written for an integer, or a number behind a plus sign,
within the limits. -/
theorem readInteger_eq_ok {signed : Bool} {n : Int} :
    readInteger 10 signed depth limit cs = .ok n ↔
      (IsInteger signed cs n ∨
        ∃ digits, cs = '+' :: digits ∧ ∃ m : Nat, IsNumeral 10 digits m ∧ n = m) ∧
        -(depth : Int) ≤ n ∧ n ≤ limit := by
  unfold readInteger
  split
  · have hempty : ¬∃ m : Nat, IsNumeral 10 [] m ∧ n = -m := by
      rintro ⟨m, hnumeral, -⟩
      exact hnumeral.1 rfl
    simp [isInteger_minus_iff, hempty]
  · rename_i digits hne
    rw [readDigitsBelow_zero_eq_ok hne, isInteger_minus_iff]
    constructor
    · rintro ⟨m, ⟨hnumeral, hm⟩, rfl⟩
      exact ⟨.inl ⟨rfl, m, hnumeral, rfl⟩, by omega, by omega⟩
    · rintro ⟨⟨-, m, hnumeral, rfl⟩ | ⟨_, hplus, -⟩, hlow, -⟩
      · exact ⟨m, ⟨hnumeral, by omega⟩, rfl⟩
      · cases hplus
  · rename_i hplain
    have hplain : ∀ digits, signed = true → cs ≠ '-' :: digits := hplain
    rw [map_eq_ok, isInteger_digits_iff hplain]
    simp only [readSignedNumeral_eq_ok (by decide : 0 < 10) (by decide : 10 ≤ 16),
      Int.ofNat_eq_natCast]
    constructor
    · rintro ⟨m, ⟨hnumeral | ⟨digits, rfl, hnumeral⟩, hm⟩, rfl⟩
      · exact ⟨.inl ⟨m, hnumeral, rfl⟩, by omega, by omega⟩
      · exact ⟨.inr ⟨digits, rfl, m, hnumeral, rfl⟩, by omega, by omega⟩
    · rintro ⟨⟨m, hnumeral, rfl⟩ | ⟨digits, rfl, m, hnumeral, rfl⟩, -, hhigh⟩
      · exact ⟨m, ⟨.inl hnumeral, by omega⟩, rfl⟩
      · exact ⟨m, ⟨.inr ⟨digits, rfl, hnumeral⟩, by omega⟩, rfl⟩

end Reading

section Writing

variable {signed : Bool} {cs : List Char}

theorem toList_toString_negSucc (n : Nat) :
    (toString (Int.negSucc n)).toList = '-' :: Nat.toDigits 10 (n + 1) := by
  change ("-" ++ Nat.repr (n + 1)).toList = _
  rw [String.toList_append, Nat.toList_repr]
  rfl

/-- An integer below zero is written with a sign, all others without. -/
theorem isInteger_toString {n : Int} (hsigned : n < 0 → signed = true) :
    IsInteger signed (toString n).toList n := by
  cases n with
  | ofNat n =>
      have hchars : (toString (Int.ofNat n)).toList = Nat.toDigits 10 n := Nat.toList_repr
      rw [hchars]
      exact .digits (isNumeral_toDigits n)
  | negSucc n =>
      rw [toList_toString_negSucc]
      exact .minus (hsigned (Int.negSucc_lt_zero n)) (isNumeral_toDigits (n + 1))

/-- The shortest text for the integer that a text denotes. -/
def shortestInteger : List Char → List Char
  | '-' :: digits =>
      if withoutZeros digits = ['0'] then ['0'] else '-' :: withoutZeros digits
  | digits => withoutZeros digits

theorem shortestInteger_digits {n : Nat} (hnumeral : IsNumeral 10 cs n) :
    shortestInteger cs = withoutZeros cs := by
  rw [shortestInteger]
  rintro digits rfl
  exact not_isNumeral_minus hnumeral

/-- An integer is written as the shortest of its texts. -/
theorem IsInteger.toList_toString {n : Int} (hinteger : IsInteger signed cs n) :
    (toString n).toList = shortestInteger cs := by
  cases hinteger with
  | @digits _ n hnumeral =>
      rw [shortestInteger_digits hnumeral, ← hnumeral.toDigits_eq]
      exact Nat.toList_repr
  | @minus cs n _ hnumeral =>
      have hdigits := hnumeral.toDigits_eq
      cases n with
      | zero =>
          -- Zero is written without the sign that it was read with.
          have hzero : withoutZeros cs = ['0'] := hdigits.symm
          rw [shortestInteger, if_pos hzero]
          rfl
      | succ n =>
          have hne : withoutZeros cs ≠ ['0'] := by
            intro hzero
            have hvalue := congrArg (fun cs => Nat.ofDigitChars 10 cs 0) (hdigits.trans hzero)
            rw [Nat.ofDigitChars_ten_toDigits] at hvalue
            contradiction
          rw [shortestInteger, if_neg hne, ← hdigits]
          exact toList_toString_negSucc n

end Writing

end Epub.Text
