/-
Editions and the numbers they are read from.  A version stands for the edition that comes next
to its first two numbers in order, as long as both numbers have thirty-two bits.  With a larger
number it stands for none, whatever its order says.
-/
import Epub.Model.Version
import Epub.Proofs.Except
import Epub.Proofs.Text.Numeral
import Mathlib.Data.List.DropRight

namespace Epub

namespace Text

section Trimming

variable {before body after front rest : List Char} {c : Char}

theorem rdropWhile_append_cons (hc : isBlank c = false) :
    (front ++ c :: rest).rdropWhile isBlank = front ++ c :: rest.rdropWhile isBlank := by
  induction rest using List.reverseRecOn with
  | nil =>
      rw [List.rdropWhile_concat_neg _ _ _ (by simp [hc]), List.rdropWhile_nil]
  | append_singleton rest last ih =>
      rw [← List.cons_append, ← List.append_assoc, List.rdropWhile_concat,
        List.rdropWhile_concat]
      split
      · exact ih
      · rw [List.append_assoc, List.cons_append]

/-- Blanks around a text that does not start with one are removed, and nothing else in front
of its last character that shows. -/
theorem trim_append (hbefore : ∀ c ∈ before, isBlank c = true)
    (hafter : ∀ c ∈ after, isBlank c = true) (hbody : body = c :: rest)
    (hc : isBlank c = false) :
    trim (before ++ (body ++ after)) = body.rdropWhile isBlank := by
  have hstart : (before ++ (body ++ after)).dropWhile isBlank = body ++ after := by
    rw [List.dropWhile_append_of_pos hbefore, hbody, List.cons_append,
      List.dropWhile_cons_of_neg (by simp [hc])]
  rw [trim, hstart, List.reverse_append,
    List.dropWhile_append_of_pos fun c hc => hafter c (List.mem_reverse.mp hc)]
  rfl

end Trimming

section Numbers

variable {cs : List Char} {n : Nat}

theorem IsNumeral.not_blank (hnumeral : IsNumeral 10 cs n) :
    ∀ c ∈ cs, isBlank c = false ∧ c ≠ '.' ∧ c ≠ '+' := by
  have hall : ∀ c ∈ "0123456789abcdefABCDEF".toList,
      isBlank c = false ∧ c ≠ '.' ∧ c ≠ '+' := by simp [isBlank]
  exact fun c hc => hall c (hnumeral.mem_hexadecimal (by decide) c hc)

theorem IsNumeral.splitOn_dot (hnumeral : IsNumeral 10 cs n) : cs.splitOn '.' = [cs] :=
  List.splitOn_eq_singleton fun hmem => (hnumeral.not_blank '.' hmem).2.1 rfl

theorem IsNumeral.rdropWhile_append (hnumeral : IsNumeral 10 cs n) (front : List Char) :
    (front ++ cs).rdropWhile isBlank = front ++ cs := by
  rw [List.rdropWhile_eq_self_iff]
  intro hne
  rw [List.getLast_append_of_right_ne_nil _ _ hnumeral.1]
  simp [(hnumeral.not_blank _ (List.getLast_mem hnumeral.1)).1]

end Numbers

end Text

namespace Model.Version

open Text

/-- The edition that a version with these two numbers stands for by their order. -/
inductive Classifies : Nat → Nat → Option Version → Prop where
  | before {major minor : Nat} (hmajor : major < 2) : Classifies major minor none
  | v2 {minor : Nat} : Classifies 2 minor (some .v2)
  | v30 : Classifies 3 0 (some .v30)
  | later {major minor : Nat} (hlater : 3 < major ∨ major = 3 ∧ 0 < minor) :
      Classifies major minor (some .v31)

/-- How a version is written: one number, two numbers with a dot between them, or more of
anything behind a second dot. -/
inductive IsDotted : List Char → Nat → Nat → Prop where
  | major {cs : List Char} {major : Nat} (hmajor : IsNumeral 10 cs major) :
      IsDotted cs major 0
  | minor {cs ds : List Char} {major minor : Nat} (hmajor : IsNumeral 10 cs major)
      (hminor : IsNumeral 10 ds minor) : IsDotted (cs ++ '.' :: ds) major minor
  | more {cs ds : List Char} {major minor : Nat} (hmajor : IsNumeral 10 cs major)
      (hminor : IsNumeral 10 ds minor) (rest : List Char) :
      IsDotted (cs ++ '.' :: (ds ++ '.' :: rest)) major minor

/-- Whether a text is a version with these two numbers, with or without blanks around it. -/
def IsWritten (raw : String) (major minor : Nat) : Prop :=
  ∃ before body after, raw.toList = before ++ (body ++ after) ∧
    (∀ c ∈ before, isBlank c = true) ∧ (∀ c ∈ after, isBlank c = true) ∧
    IsDotted body major minor

section Classifying

variable {major minor : Nat} {edition : Option Version}

theorem classifies_iff : Classifies major minor edition ↔ classify? major minor = edition := by
  constructor
  · intro hclassifies
    cases hclassifies with
    | before hmajor =>
        rw [classify?, if_neg (by omega), if_neg (by omega), if_neg (by omega)]
    | v2 => rfl
    | v30 => rfl
    | later hlater =>
        rw [classify?, if_neg (by omega), if_neg (by omega), if_pos (by omega)]
  · rintro rfl
    unfold classify?
    split
    · rename_i hmajor
      exact hmajor ▸ .v2
    · split
      · rename_i hnumbers
        rw [hnumbers.1, hnumbers.2]
        exact .v30
      · split
        · exact .later (by omega)
        · exact .before (by omega)

theorem classifies_none_iff : Classifies major minor none ↔ major < 2 := by
  constructor
  · intro hclassifies
    cases hclassifies with
    | before hmajor => exact hmajor
  · exact .before

instance (major minor : Nat) (edition : Option Version) :
    Decidable (Classifies major minor edition) :=
  decidable_of_iff _ classifies_iff.symm

end Classifying

section Reading

variable {cs body : List Char} {raw : String} {major minor : Nat}

/-- One number of a version is read if thirty-two bits hold it. -/
theorem readComponent?_of_isNumeral {n : Nat} (hnumeral : IsNumeral 10 cs n) :
    readComponent? cs = if n < 2 ^ 32 then some n else none := by
  have hread : ∀ m, readComponent? cs = some m ↔ m = n ∧ n < 2 ^ 32 := by
    intro m
    rw [readComponent?, toOption_eq_some, readSignedNumeral_eq_ok (by decide) (by decide)]
    have hlimit : limit32 + 1 = 2 ^ 32 := rfl
    constructor
    · rintro ⟨hm | ⟨digits, rfl, -⟩, hle⟩
      · obtain rfl := IsNumeral.unique (by decide) (by decide) hm hnumeral
        exact ⟨rfl, by omega⟩
      · exact absurd rfl (hnumeral.not_blank '+' List.mem_cons_self).2.2
    · rintro ⟨rfl, hlt⟩
      exact ⟨Or.inl hnumeral, by omega⟩
  split
  · rename_i hlt
    exact (hread n).mpr ⟨rfl, hlt⟩
  · rename_i hlt
    exact Option.eq_none_iff_forall_ne_some.mpr fun m hm => hlt ((hread m).mp hm).2

/-- Without the blanks behind it a version has the same numbers. -/
theorem IsDotted.trim (hdotted : IsDotted body major minor) :
    IsDotted (body.rdropWhile isBlank) major minor := by
  cases hdotted with
  | major hmajor =>
      rw [← List.nil_append body, hmajor.rdropWhile_append]
      exact .major hmajor
  | @minor cs ds _ _ hmajor hminor =>
      rw [List.append_cons, hminor.rdropWhile_append, ← List.append_cons]
      exact .minor hmajor hminor
  | @more cs ds _ _ hmajor hminor rest =>
      -- Both dots stand in front of whatever is cut off.
      rw [rdropWhile_append_cons (by decide), rdropWhile_append_cons (by decide)]
      exact .more hmajor hminor _

theorem IsDotted.exists_cons (hdotted : IsDotted body major minor) :
    ∃ c rest, body = c :: rest ∧ isBlank c = false := by
  have hnumeral : ∀ {cs : List Char} {n : Nat}, IsNumeral 10 cs n → ∀ more,
      ∃ c rest, cs ++ more = c :: rest ∧ isBlank c = false := by
    intro cs n hnumeral more
    obtain ⟨c, rest, rfl⟩ := List.exists_cons_of_ne_nil hnumeral.1
    exact ⟨c, rest ++ more, rfl, (hnumeral.not_blank c List.mem_cons_self).1⟩
  cases hdotted with
  | major hmajor =>
      rw [← List.append_nil body]
      exact hnumeral hmajor []
  | minor hmajor _ => exact hnumeral hmajor _
  | more hmajor _ rest => exact hnumeral hmajor _

theorem isDotted_trim (hwritten : IsWritten raw major minor) :
    IsDotted (Text.trim raw.toList) major minor := by
  obtain ⟨before, body, after, hraw, hbefore, hafter, hdotted⟩ := hwritten
  obtain ⟨c, rest, hbody, hc⟩ := hdotted.exists_cons
  rw [hraw, trim_append hbefore hafter hbody hc]
  exact hdotted.trim

theorem classify?_of_components {cs ds : List Char} (hmajor : IsNumeral 10 cs major)
    (hminor : IsNumeral 10 ds minor) :
    (do classify? (← readComponent? cs) (← readComponent? ds)) =
      if major < 2 ^ 32 ∧ minor < 2 ^ 32 then classify? major minor else none := by
  rw [readComponent?_of_isNumeral hmajor, readComponent?_of_isNumeral hminor]
  by_cases hbig : major < 2 ^ 32
  · by_cases hsmall : minor < 2 ^ 32
    · rw [if_pos hbig, if_pos hsmall, if_pos ⟨hbig, hsmall⟩]
      rfl
    · have hnot : ¬(major < 2 ^ 32 ∧ minor < 2 ^ 32) := fun hboth => hsmall hboth.2
      rw [if_pos hbig, if_neg hsmall, if_neg hnot]
      rfl
  · have hnot : ¬(major < 2 ^ 32 ∧ minor < 2 ^ 32) := fun hboth => hbig hboth.1
    rw [if_neg hbig, if_neg hnot]
    rfl

/-- What is read from a version: the edition of its numbers, if thirty-two bits hold both. -/
theorem parse?_of_isWritten (hwritten : IsWritten raw major minor) :
    parse? raw =
      if major < 2 ^ 32 ∧ minor < 2 ^ 32 then classify? major minor else none := by
  have hdotted := isDotted_trim hwritten
  rw [parse?]
  generalize Text.trim raw.toList = text at hdotted ⊢
  cases hdotted with
  | major hmajor =>
      -- A missing second number is read as this numeral.
      have hzero : IsNumeral 10 ['0'] 0 := ⟨by decide, [0], by decide, rfl⟩
      rw [hmajor.splitOn_dot]
      exact classify?_of_components hmajor hzero
  | minor hmajor hminor =>
      rw [List.splitOn_append_cons_self, hmajor.splitOn_dot, hminor.splitOn_dot]
      exact classify?_of_components hmajor hminor
  | more hmajor hminor rest =>
      rw [List.splitOn_append_cons_self, List.splitOn_append_cons_self,
        hmajor.splitOn_dot, hminor.splitOn_dot]
      exact classify?_of_components hmajor hminor

end Reading

/-- Later numbers stand for later editions. -/
theorem Classifies.mono {major minor major' minor' : Nat} {edition edition' : Option Version}
    (hfirst : Classifies major minor edition) (hsecond : Classifies major' minor' edition')
    (hle : major < major' ∨ major = major' ∧ minor ≤ minor') :
    ∀ v, edition = some v → ∃ v', edition' = some v' ∧ v ≤ v' := by
  intro v hv
  -- For each edition of the first, the order rules out that the second comes before it.
  cases hfirst with
  | before _ => contradiction
  | v2 =>
      obtain rfl := Option.some.inj hv
      cases hsecond with
      | before hmajor => omega
      | v2 => exact ⟨.v2, rfl, by decide⟩
      | v30 => exact ⟨.v30, rfl, by decide⟩
      | later _ => exact ⟨.v31, rfl, by decide⟩
  | v30 =>
      obtain rfl := Option.some.inj hv
      cases hsecond with
      | before hmajor => omega
      | v2 => omega
      | v30 => exact ⟨.v30, rfl, by decide⟩
      | later _ => exact ⟨.v31, rfl, by decide⟩
  | later hlater =>
      obtain rfl := Option.some.inj hv
      cases hsecond with
      | before hmajor => omega
      | v2 => omega
      | v30 => omega
      | later _ => exact ⟨.v31, rfl, by decide⟩

/-- A version with a number that thirty-two bits do not hold is read as no edition.  So a
version is read as what its numbers stand for exactly if they hold both, or the version comes
before all editions; and later versions are read as later editions as long as they do. -/
theorem parse?_classifies_iff {raw : String} {major minor : Nat}
    (hwritten : IsWritten raw major minor) :
    (¬(major < 2 ^ 32 ∧ minor < 2 ^ 32) → parse? raw = none) ∧
    (Classifies major minor (parse? raw) ↔ major < 2 ∨ major < 2 ^ 32 ∧ minor < 2 ^ 32) ∧
    ∀ raw' major' minor', IsWritten raw' major' minor' →
      (major < major' ∨ major = major' ∧ minor ≤ minor') →
      major' < 2 ^ 32 ∧ minor' < 2 ^ 32 →
      ∀ v, parse? raw = some v → ∃ v', parse? raw' = some v' ∧ v ≤ v' := by
  have hread := parse?_of_isWritten hwritten
  refine ⟨fun hnot => by rw [hread, if_neg hnot], ?_, ?_⟩
  · by_cases hheld : major < 2 ^ 32 ∧ minor < 2 ^ 32
    · rw [hread, if_pos hheld]
      exact iff_of_true (classifies_iff.mpr rfl) (Or.inr hheld)
    · rw [hread, if_neg hheld, classifies_none_iff]
      exact (or_iff_left hheld).symm
  · intro raw' major' minor' hwritten' hle hheld' v hv
    have hread' := parse?_of_isWritten hwritten'
    rw [if_pos hheld'] at hread'
    rw [hread']
    by_cases hheld : major < 2 ^ 32 ∧ minor < 2 ^ 32
    · rw [hread, if_pos hheld] at hv
      exact (classifies_iff.mpr rfl).mono (classifies_iff.mpr rfl) hle v hv
    · rw [hread, if_neg hheld] at hv
      contradiction

/-- Versions with zeros in front of their numbers, blanks around them and more behind them. -/
theorem parse?_classifies_iff_padded :
    IsWritten "\t0003.00.1-x \n" 3 0 ∧ IsWritten "12.5" 12 5 ∧
      Classifies 3 0 (parse? "\t0003.00.1-x \n") ∧
      ∃ v, parse? "12.5" = some v ∧ Version.v30 ≤ v := by
  have hthree : IsNumeral 10 "0003".toList 3 := ⟨by decide, [0, 0, 0, 3], by decide, by decide⟩
  have hzero : IsNumeral 10 "00".toList 0 := ⟨by decide, [0, 0], by decide, by decide⟩
  have htwelve : IsNumeral 10 "12".toList 12 := ⟨by decide, [1, 2], by decide, by decide⟩
  have hfive : IsNumeral 10 "5".toList 5 := ⟨by decide, [5], by decide, by decide⟩
  have hfirst : IsWritten "\t0003.00.1-x \n" 3 0 :=
    ⟨['\t'], _, [' ', '\n'], rfl, by simp [isBlank], by simp [isBlank],
      .more hthree hzero "1-x".toList⟩
  have hsecond : IsWritten "12.5" 12 5 :=
    ⟨[], _, [], rfl, by simp, by simp, .minor htwelve hfive⟩
  obtain ⟨-, hclassifies, hmono⟩ := parse?_classifies_iff hfirst
  have hread : Classifies 3 0 (parse? "\t0003.00.1-x \n") :=
    hclassifies.mpr (Or.inr (by decide))
  exact ⟨hfirst, hsecond, hread, hmono _ 12 5 hsecond (by decide) (by decide) _
    (classifies_iff.mp hread).symm⟩

/-- Numbers of thirty-three bits are not read, so a later version of EPUB 2, a later one of
EPUB 3 and a version after all others stand for no edition. -/
theorem not_classifies_parse?_thirtyThreeBits :
    IsWritten "2.4294967296" 2 4294967296 ∧ parse? "2.4294967296" = none ∧
      ¬Classifies 2 4294967296 (parse? "2.4294967296") ∧
      IsWritten "3.4294967296" 3 4294967296 ∧ parse? "3.4294967296" = none ∧
      ¬Classifies 3 4294967296 (parse? "3.4294967296") ∧
      IsWritten "4294967296" 4294967296 0 ∧ parse? "4294967296" = none ∧
      ¬Classifies 4294967296 0 (parse? "4294967296") := by
  have hwide : IsNumeral 10 "4294967296".toList 4294967296 :=
    ⟨by decide, [4, 2, 9, 4, 9, 6, 7, 2, 9, 6], by decide, by decide⟩
  have htwo : IsNumeral 10 ['2'] 2 := ⟨by decide, [2], by decide, by decide⟩
  have hthree : IsNumeral 10 ['3'] 3 := ⟨by decide, [3], by decide, by decide⟩
  have hsecond : IsWritten "2.4294967296" 2 4294967296 :=
    ⟨[], _, [], rfl, by simp, by simp, .minor htwo hwide⟩
  have hthird : IsWritten "3.4294967296" 3 4294967296 :=
    ⟨[], _, [], rfl, by simp, by simp, .minor hthree hwide⟩
  have hlast : IsWritten "4294967296" 4294967296 0 :=
    ⟨[], _, [], rfl, by simp, by simp, .major hwide⟩
  exact ⟨hsecond, by decide, by decide, hthird, by decide, by decide, hlast, by decide, by decide⟩

end Model.Version

end Epub
