/-
The choice of prefixes.  Whatever has been declared before, a prefix is found for
every namespace, it stands for that namespace at the place where it is used, and
declaring it takes no other prefix away from the namespace it stood for.
-/
import Epub.Proofs.Xml.Name
import Epub.Xml.Markup
import Mathlib.Data.List.Nodup
import Mathlib.Data.List.Perm.Subperm

namespace Epub.Xml

namespace Frames

variable {frames outer : Frames} {inner : Frame} {label uri : String}

theorem lookup?_cons (inner : Frame) (outer : Frames) (label : String) :
    lookup? (inner :: outer) label =
      ((inner.find? (·.label = label)).map NamespaceDecl.uri).or (outer.lookup? label) := by
  simp only [lookup?, List.flatten_cons, List.find?_append]
  cases inner.find? (·.label = label) <;> rfl

/-- A declaration takes effect, and leaves all other prefixes as they are. -/
theorem lookup?_declare (inner : Frame) (outer : Frames) (label uri other : String) :
    (declare (inner :: outer) label uri).lookup? other =
      if other = label then some uri else lookup? (inner :: outer) other := by
  simp only [declare, lookup?_cons, List.find?_append]
  by_cases hother : other = label
  · subst hother
    have hnone : (inner.filter (·.label ≠ other)).find? (·.label = other) = none := by
      rw [List.find?_eq_none]
      intro d hd
      simpa using (List.mem_filter.mp hd).2
    rw [hnone]
    simp
  · have hsame : (inner.filter (·.label ≠ label)).find? (·.label = other) =
        inner.find? (·.label = other) := by
      induction inner with
      | nil => rfl
      | cons d rest ih =>
          by_cases hd : d.label = label
          · rw [List.filter_cons_of_neg (by simp [hd]), ih,
              List.find?_cons_of_neg (by simp [hd, Ne.symm hother])]
          · rw [List.filter_cons_of_pos (by simp [hd]), List.find?_cons,
              List.find?_cons, ih]
    rw [hsame]
    simp [hother, Ne.symm hother]

theorem exists_of_lookup?_eq_some (hlookup : frames.lookup? label = some uri) :
    ∃ d ∈ frames.flatten, d.label = label ∧ d.uri = uri := by
  simp only [lookup?, Option.map_eq_some_iff] at hlookup
  obtain ⟨d, hfound, huri⟩ := hlookup
  have hlabel := List.find?_some hfound
  exact ⟨d, List.mem_of_find?_eq_some hfound, by simpa using hlabel, huri⟩

theorem boundLabel?_eq_some (hbound : frames.boundLabel? uri = some label) :
    label ≠ "" ∧ frames.lookup? label = some uri := by
  simp only [boundLabel?, Option.map_eq_some_iff] at hbound
  obtain ⟨d, hfound, rfl⟩ := hbound
  have hlookup := List.find?_some hfound
  have hmem := List.mem_of_find?_eq_some hfound
  simp only [List.mem_filter, decide_eq_true_eq] at hmem hlookup
  exact ⟨hmem.2.1, hlookup⟩

/-- A prefix is found whenever there is one that no inner declaration hides. -/
theorem boundLabel?_ne_none (hlabel : label ≠ "")
    (hlookup : frames.lookup? label = some uri) : frames.boundLabel? uri ≠ none := by
  obtain ⟨d, hmem, rfl, rfl⟩ := exists_of_lookup?_eq_some hlookup
  intro hnone
  simp only [boundLabel?, Option.map_eq_none_iff, List.find?_eq_none] at hnone
  apply hnone d
  · exact List.mem_filter.mpr ⟨hmem, by simp [hlabel]⟩
  · simpa using hlookup

theorem toList_numbered (n : Nat) :
    (numbered n).toList = 'n' :: 's' :: Nat.toDigits 10 n := by
  change ("ns" ++ Nat.repr n).toList = _
  rw [String.toList_append, Nat.toList_repr]
  rfl

theorem numbered_injective : Function.Injective numbered := by
  intro n m heq
  have hchars := congrArg String.toList heq
  rw [toList_numbered, toList_numbered] at hchars
  simp only [List.cons.injEq, true_and] at hchars
  have hdigits := congrArg (fun cs => Nat.ofDigitChars 10 cs 0) hchars
  simpa using hdigits

theorem isNCName_numbered (n : Nat) : isNCName (numbered n) = true := by
  have hdigits : ∀ c ∈ Nat.toDigits 10 n, isNameChar c = true := by
    intro c hc
    have hdigit := Nat.isDigit_of_mem_toDigits (by decide) (by decide) hc
    simp only [Char.isDigit, Bool.and_eq_true, decide_eq_true_eq] at hdigit
    have hlow : 48 ≤ c.toNat := hdigit.1
    have hhigh : c.toNat ≤ 57 := hdigit.2
    simp [isNameChar, liesIn, nameRestRanges, hlow, hhigh]
  simp only [isNCName, toList_numbered, List.all_cons, Bool.and_eq_true,
    List.all_eq_true]
  exact ⟨by decide, by decide, hdigits⟩

theorem numbered_ne (n : Nat) {s : String} (hs : s.toList.head? ≠ some 'n') :
    numbered n ≠ s := by
  rintro rfl
  rw [toList_numbered] at hs
  exact hs rfl

/-- Among more numbered prefixes than there are declarations one is free. -/
theorem exists_free (frames : Frames) (start : Nat) :
    ∃ n ∈ List.range' start (frames.flatten.length + 1),
      (frames.lookup? (numbered n)).isNone = true := by
  by_contra hnone
  simp only [not_exists, not_and, Bool.not_eq_true, Option.isNone_eq_false_iff] at hnone
  have hsubset : (List.range' start (frames.flatten.length + 1)).map numbered ⊆
      frames.flatten.map NamespaceDecl.label := by
    intro label hlabel
    obtain ⟨n, hn, rfl⟩ := List.mem_map.mp hlabel
    obtain ⟨uri, huri⟩ := Option.isSome_iff_exists.mp (hnone n hn)
    obtain ⟨d, hd, hdlabel, _⟩ := exists_of_lookup?_eq_some huri
    exact List.mem_map.mpr ⟨d, hd, hdlabel⟩
  have hnodup : ((List.range' start (frames.flatten.length + 1)).map numbered).Nodup :=
    List.Nodup.map numbered_injective List.nodup_range'
  have hlength := (hnodup.subperm hsubset).length_le
  simp only [List.length_map, List.length_range'] at hlength
  omega

/-- The first free numbered prefix is found, and no more are tried than there are
declarations, and one more. -/
theorem find?_freeNumber (frames : Frames) (start : Nat) :
    (List.range' start (frames.flatten.length + 1)).find?
        (fun n => (frames.lookup? (numbered n)).isNone) =
      some (frames.freeNumber start) := by
  simp only [freeNumber]
  cases hfind : (List.range' start (frames.flatten.length + 1)).find?
      fun n => (frames.lookup? (numbered n)).isNone with
  | none =>
      obtain ⟨n, hn, hfree⟩ := frames.exists_free start
      exact absurd hfree (List.find?_eq_none.mp hfind n hn)
  | some n => rfl

theorem lookup?_freeNumber (frames : Frames) (start : Nat) :
    frames.lookup? (numbered (frames.freeNumber start)) = none := by
  have hfree := List.find?_some (frames.find?_freeNumber start)
  simpa using hfree

/-- A prefix that may stand in front of a name. -/
def IsLabel (label : String) : Prop :=
  isNCName label = true ∧ label ≠ "xmlns"

theorem IsLabel.ne_empty (hlabel : IsLabel label) : label ≠ "" := by
  rintro rfl
  exact absurd hlabel.1 (by decide)

/-- What holds of the declarations around an element at all times. -/
structure IsSound (frames : Frames) : Prop where
  nonempty : frames ≠ []
  xml : frames.lookup? "xml" = some xmlNamespace
  labels : ∀ d ∈ frames.flatten, d.label = "" ∨ IsLabel d.label

theorem isSound_initial : IsSound initial := by
  refine ⟨by simp [initial], by decide, fun d hd => ?_⟩
  simp only [initial, List.flatten_cons, List.flatten_nil, List.append_nil,
    List.mem_singleton] at hd
  subst hd
  exact Or.inr ⟨by decide, by decide⟩

theorem IsSound.isLabel (hsound : frames.IsSound) (hlabel : label ≠ "")
    (hlookup : frames.lookup? label = some uri) : IsLabel label := by
  obtain ⟨d, hmem, rfl, _⟩ := exists_of_lookup?_eq_some hlookup
  exact (hsound.labels d hmem).resolve_left hlabel

end Frames

end Epub.Xml
