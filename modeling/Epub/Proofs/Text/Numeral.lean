/-
What numerals denote.  A text is read as a number exactly when it is one or more
digits of the base and what they denote stays within the limit; the limit is looked
at after every digit, which comes to the same since numbers only grow.
-/
import Epub.Proofs.Lists
import Epub.Text.Numeral
import Mathlib.Data.Nat.Digits.Defs
import Mathlib.Tactic.Common

namespace Epub.Text

variable {base limit : Nat}

section Digits

variable {c : Char} {d : Nat}

/-- Whether `c` is the digit of `base` for `d`.  Letters count in both cases. -/
def IsDigit (base : Nat) (c : Char) (d : Nat) : Prop :=
  d < base ∧ (c = d.digitChar ∨ c = d.digitChar.toUpper)

instance (base : Nat) (c : Char) (d : Nat) : Decidable (IsDigit base c d) :=
  inferInstanceAs (Decidable (_ ∧ _))

/-- The digits by their codes. -/
theorem digitValue_eq_some_iff_toNat :
    digitValue base c = some d ↔ d < base ∧ (d < 10 ∧ c.toNat = 48 + d ∨
      10 ≤ d ∧ d < 36 ∧ (c.toNat = 87 + d ∨ c.toNat = 55 + d)) := by
  simp only [digitValue, Option.ite_none_right_eq_some, Option.some.injEq]
  split
  · omega
  · split
    · omega
    · split <;> omega

/-- Up to sixteen the digits are the ten figures and the first letters. -/
theorem digitValue_eq_some (hbase : base ≤ 16) :
    digitValue base c = some d ↔ IsDigit base c d := by
  have hcodes : ∀ d < 16,
      (d < 10 → d.digitChar.toNat = 48 + d ∧ d.digitChar.toUpper = d.digitChar) ∧
        (10 ≤ d → d.digitChar.toNat = 87 + d ∧ d.digitChar.toUpper.toNat = 55 + d) := by
    decide
  rw [digitValue_eq_some_iff_toNat, IsDigit, and_congr_right_iff]
  intro hlt
  obtain ⟨hfigure, hletter⟩ := hcodes d (Nat.lt_of_lt_of_le hlt hbase)
  simp only [← Char.toNat_inj]
  rcases Nat.lt_or_ge d 10 with hd | hd
  · obtain ⟨hcode, hupper⟩ := hfigure hd
    rw [hupper, hcode]
    omega
  · obtain ⟨hlower, hupper⟩ := hletter hd
    rw [hlower, hupper]
    omega

/-- Up to sixteen no other character is a digit. -/
theorem IsDigit.mem_hexadecimal (hdigit : IsDigit base c d) (hbase : base ≤ 16) :
    c ∈ "0123456789abcdefABCDEF".toList := by
  have hall : ∀ d < 16, d.digitChar ∈ "0123456789abcdefABCDEF".toList ∧
      d.digitChar.toUpper ∈ "0123456789abcdefABCDEF".toList := by decide
  obtain ⟨hlower, hupper⟩ := hall d (Nat.lt_of_lt_of_le hdigit.1 hbase)
  rcases hdigit.2 with rfl | rfl
  · exact hlower
  · exact hupper

end Digits

section Reading

/-- Whether `cs` are digits of `base`, at least one, that denote `n`. -/
def IsNumeral (base : Nat) (cs : List Char) (n : Nat) : Prop :=
  cs ≠ [] ∧ ∃ digits, List.Forall₂ (IsDigit base) cs digits ∧
    n = Nat.ofDigits base digits.reverse

/-- Further digits never make a number smaller. -/
theorem le_foldl_digits (hbase : 0 < base) (value : Nat) (digits : List Nat) :
    value ≤ digits.foldl (fun n d => n * base + d) value := by
  induction digits generalizing value with
  | nil => exact Nat.le_refl value
  | cons d rest ih =>
      have hgrows : value ≤ value * base + d :=
        Nat.le_add_right_of_le (Nat.le_mul_of_pos_right value hbase)
      exact Nat.le_trans hgrows (ih _)

theorem readDigits_eq_ok (hpos : 0 < base) (hbase : base ≤ 16) {value n : Nat}
    (hvalue : value ≤ limit) {cs : List Char} :
    readDigits base limit value cs = .ok n ↔ n ≤ limit ∧
      ∃ digits, List.Forall₂ (IsDigit base) cs digits ∧
        n = digits.foldl (fun n d => n * base + d) value := by
  induction cs generalizing value with
  | nil =>
      simp only [readDigits, Except.ok.injEq, List.forall₂_nil_left_iff, exists_eq_left,
        List.foldl_nil]
      constructor
      · rintro rfl
        exact ⟨hvalue, rfl⟩
      · exact fun hn => hn.2.symm
  | cons c rest ih =>
      rw [readDigits]
      constructor
      · intro hread
        split at hread
        · contradiction
        · rename_i d hd
          split at hread
          · rename_i hle
            obtain ⟨hn, digits, hrest, hdenotes⟩ := (ih hle).mp hread
            exact ⟨hn, d :: digits, .cons ((digitValue_eq_some hbase).mp hd) hrest, hdenotes⟩
          · contradiction
      · rintro ⟨hn, digits, hdigits, hdenotes⟩
        cases hdigits with
        | @cons _ d _ digits hd hrest =>
            rw [List.foldl_cons] at hdenotes
            have hle : value * base + d ≤ limit :=
              Nat.le_trans (le_foldl_digits hpos _ digits) (hdenotes ▸ hn)
            rw [(digitValue_eq_some hbase).mpr hd]
            simp only [if_pos hle]
            exact (ih hle).mpr ⟨hn, digits, hrest, hdenotes⟩

/-- What digits denote, taken from the left. -/
theorem foldl_eq_ofDigits (base : Nat) (digits : List Nat) :
    digits.foldl (fun n d => n * base + d) 0 = Nat.ofDigits base digits.reverse := by
  rw [Nat.ofDigits_eq_foldr, List.foldr_reverse]
  simp only [Nat.cast_id, Nat.add_comm, Nat.mul_comm]

/-- A text is read as `n` exactly when it denotes `n` and `n` is within the limit. -/
theorem readNumeral_eq_ok (hpos : 0 < base) (hbase : base ≤ 16) {cs : List Char} {n : Nat} :
    readNumeral base limit cs = .ok n ↔ IsNumeral base cs n ∧ n ≤ limit := by
  cases cs with
  | nil => simp [readNumeral, IsNumeral]
  | cons c rest =>
      rw [readNumeral, readDigits_eq_ok hpos hbase (Nat.zero_le limit), IsNumeral, and_comm]
      · simp [foldl_eq_ofDigits]
      · simp

/-- A numeral denotes one number. -/
theorem IsNumeral.unique (hpos : 0 < base) (hbase : base ≤ 16) {cs : List Char} {n m : Nat}
    (hn : IsNumeral base cs n) (hm : IsNumeral base cs m) : n = m := by
  have hread : ∀ {k}, IsNumeral base cs k → k ≤ max n m →
      readNumeral base (max n m) cs = .ok k := fun hk hle =>
    (readNumeral_eq_ok hpos hbase).mpr ⟨hk, hle⟩
  exact Except.ok.inj ((hread hn (Nat.le_max_left n m)).symm.trans
    (hread hm (Nat.le_max_right n m)))

theorem IsNumeral.mem_hexadecimal (hbase : base ≤ 16) {cs : List Char} {n : Nat}
    (hnumeral : IsNumeral base cs n) : ∀ c ∈ cs, c ∈ "0123456789abcdefABCDEF".toList := by
  obtain ⟨-, digits, hdigits, -⟩ := hnumeral
  intro c hc
  obtain ⟨d, -, hd⟩ := exists_of_forall₂ hdigits hc
  exact hd.mem_hexadecimal hbase

theorem not_isNumeral_plus (hbase : base ≤ 16) {cs : List Char} {n : Nat} :
    ¬IsNumeral base ('+' :: cs) n := by
  intro hnumeral
  have hmem := hnumeral.mem_hexadecimal hbase '+' List.mem_cons_self
  exact absurd hmem (by decide)

/-- The same with one plus sign in front, if there is one. -/
theorem readSignedNumeral_eq_ok (hpos : 0 < base) (hbase : base ≤ 16) {cs : List Char}
    {n : Nat} :
    readSignedNumeral base limit cs = .ok n ↔
      (IsNumeral base cs n ∨ ∃ digits, cs = '+' :: digits ∧ IsNumeral base digits n) ∧
        n ≤ limit := by
  have hplus : ∀ rest, ¬IsNumeral base ('+' :: rest) n := fun _ => not_isNumeral_plus hbase
  have hempty : ¬IsNumeral base [] n := fun hnumeral => hnumeral.1 rfl
  unfold readSignedNumeral
  split
  · simp [hplus, hempty]
  · rw [readNumeral_eq_ok hpos hbase]
    simp [hplus]
  · rename_i hnot
    rw [readNumeral_eq_ok hpos hbase]
    have hunsigned : ∀ digits, cs ≠ '+' :: digits := hnot
    simp [hunsigned]

end Reading

section Writing

/-- Digits without the zeros in front of them.  Of zeros alone the last one stays. -/
def withoutZeros : List Char → List Char
  | '0' :: c :: rest => withoutZeros (c :: rest)
  | digits => digits

theorem withoutZeros_of_ne {c : Char} (hc : c ≠ '0') (rest : List Char) :
    withoutZeros (c :: rest) = c :: rest := by
  rw [withoutZeros.eq_2]
  rintro _ _ hzero
  exact hc (List.cons.inj hzero).1

theorem IsDigit.eq_digitChar {c : Char} {d : Nat} (hdigit : IsDigit 10 c d) :
    c = d.digitChar := by
  have hupper : ∀ d < 10, d.digitChar.toUpper = d.digitChar := by decide
  rcases hdigit.2 with rfl | rfl
  · rfl
  · exact hupper d hdigit.1

/-- Digits behind a number that is not zero are written as they are. -/
theorem toDigits_foldl {value : Nat} (hvalue : 0 < value) {cs : List Char} {digits : List Nat}
    (hdigits : List.Forall₂ (IsDigit 10) cs digits) :
    Nat.toDigits 10 (digits.foldl (fun n d => n * 10 + d) value) =
      Nat.toDigits 10 value ++ cs := by
  induction hdigits generalizing value with
  | nil => rw [List.foldl_nil, List.append_nil]
  | @cons c d rest digits hd _ ih =>
      have hnext : Nat.toDigits 10 (value * 10 + d) = Nat.toDigits 10 value ++ [c] := by
        rw [Nat.mul_comm, ← Nat.toDigits_append_toDigits (by decide) hvalue hd.1,
          Nat.toDigits_of_lt_base hd.1, hd.eq_digitChar]
      rw [List.foldl_cons, ih (by omega), hnext, List.append_assoc, List.singleton_append]

/-- One more digit behind a numeral. -/
theorem IsNumeral.concat {cs : List Char} {c : Char} {n d : Nat}
    (hnumeral : IsNumeral base cs n) (hdigit : IsDigit base c d) :
    IsNumeral base (cs ++ [c]) (n * base + d) := by
  obtain ⟨-, digits, hdigits, rfl⟩ := hnumeral
  refine ⟨List.append_ne_nil_of_right_ne_nil cs (List.cons_ne_nil c []), digits ++ [d],
    List.rel_append hdigits (.cons hdigit .nil), ?_⟩
  rw [List.reverse_append, List.reverse_singleton, List.singleton_append, Nat.ofDigits_cons,
    Nat.mul_comm, Nat.add_comm]

/-- What is written for a number is a numeral for it. -/
theorem isNumeral_toDigits (n : Nat) : IsNumeral 10 (Nat.toDigits 10 n) n := by
  induction n using Nat.strongRecOn with
  | ind n ih =>
      rw [Nat.toDigits_eq_if (by decide)]
      split
      · rename_i hlt
        exact ⟨List.cons_ne_nil _ _, [n], .cons ⟨hlt, .inl rfl⟩ .nil,
          Nat.ofDigits_singleton.symm⟩
      · have hdiv : n / 10 < n := Nat.div_lt_self (by omega) (by decide)
        have hnumeral := (ih _ hdiv).concat ⟨Nat.mod_lt n (by decide), .inl rfl⟩
        rwa [Nat.div_add_mod' n 10] at hnumeral

/-- A number is written as any numeral for it without the zeros in front. -/
theorem IsNumeral.toDigits_eq {cs : List Char} {n : Nat} (hnumeral : IsNumeral 10 cs n) :
    Nat.toDigits 10 n = withoutZeros cs := by
  obtain ⟨hne, digits, hdigits, rfl⟩ := hnumeral
  rw [← foldl_eq_ofDigits]
  induction hdigits with
  | nil => exact absurd rfl hne
  | @cons c d rest digits hd hrest ih =>
      rw [List.foldl_cons, Nat.zero_mul, Nat.zero_add]
      rcases Nat.eq_zero_or_pos d with rfl | hpos
      · obtain rfl : c = '0' := hd.eq_digitChar
        cases hrest with
        | nil => rfl
        | cons hd' hrest' => exact ih (List.cons_ne_nil _ _)
      · have hc : c ≠ '0' := by
          rw [hd.eq_digitChar]
          have hzero : ∀ d < 10, d.digitChar = '0' → d = 0 := by decide
          intro heq
          exact absurd (hzero d hd.1 heq) (Nat.ne_of_gt hpos)
        rw [toDigits_foldl hpos hrest, Nat.toDigits_of_lt_base hd.1, ← hd.eq_digitChar,
          withoutZeros_of_ne hc, List.singleton_append]

end Writing

end Epub.Text
