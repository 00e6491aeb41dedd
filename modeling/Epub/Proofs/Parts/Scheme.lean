/-
References with a scheme.  A URL with a scheme and a fragment are meant to be left as they
are, and every other reference to be joined.  What is looked for instead of a scheme is the
mark `://`, anywhere in the reference: the two come apart where a scheme is not followed by
two slashes, and where the mark stands behind something that is no scheme.
-/
import Epub.Proofs.Parts.Destination

namespace Epub.Parts

def isSchemeChar (c : Char) : Bool :=
  c.isAlphanum || c = '+' || c = '-' || c = '.'

/-- Whether a reference starts with a scheme: a letter, then letters, digits, `+`, `-` or
`.`, then a colon. -/
def HasScheme (href : String) : Prop :=
  ∃ letter more rest, href.toList = letter :: (more ++ ':' :: rest) ∧
    letter.isAlpha = true ∧ ∀ c ∈ more, isSchemeChar c = true

def startsWithScheme : List Char → Bool
  | [] => false
  | letter :: rest => letter.isAlpha && (rest.dropWhile isSchemeChar).head? = some ':'

theorem startsWithScheme_iff {href : String} :
    startsWithScheme href.toList = true ↔ HasScheme href := by
  constructor
  · intro hstarts
    cases hhref : href.toList with
    | nil => rw [hhref] at hstarts; contradiction
    | cons letter rest =>
        rw [hhref, startsWithScheme, Bool.and_eq_true, decide_eq_true_iff] at hstarts
        obtain ⟨hletter, hcolon⟩ := hstarts
        obtain ⟨behind, hbehind⟩ := List.head?_eq_some_iff.mp hcolon
        refine ⟨letter, rest.takeWhile isSchemeChar, behind, ?_, hletter, ?_⟩
        · rw [hhref, ← hbehind, List.takeWhile_append_dropWhile]
        · exact fun c hc => List.mem_takeWhile_imp hc
  · rintro ⟨letter, more, rest, hhref, hletter, hmore⟩
    rw [hhref, startsWithScheme, hletter, List.dropWhile_append_of_pos hmore]
    rfl

instance (href : String) : Decidable (HasScheme href) :=
  decidable_of_iff (startsWithScheme href.toList = true) startsWithScheme_iff

/-- What a reference is meant to lead to. -/
structure Resolves (base href result : String) : Prop where
  kept : HasScheme href ∨ IsFragment href → result = href
  joined : ¬(HasScheme href ∨ IsFragment href) → result = joined base href

instance (base href result : String) : Decidable (Resolves base href result) :=
  decidable_of_iff _ ⟨fun h => ⟨h.1, h.2⟩, fun h => And.intro h.kept h.joined⟩

/-- Two slashes in a row make an empty component, which no joined path has. -/
theorem joined_ne_of_hasMark (base : String) {href : String} (hmark : HasMark href) :
    joined base href ≠ href := by
  intro hsame
  obtain ⟨front, back, hsplit⟩ := hmark
  have hhref : href.toList = (front ++ [':']) ++ '/' :: ([] ++ '/' :: back) := by
    rw [← hsplit]
    simp
  have hempty : [] ∈ components href := by
    rw [components_of_ne (by simp [hhref]), hhref, List.splitOn_append_cons_self,
      List.splitOn_append_cons_self]
    simp
  rw [← hsame, components_joined] at hempty
  exact (separable_destination base.toList href.toList [] hempty).1 rfl

theorem resolves_self_iff {base href : String} :
    Resolves base href href ↔ HasScheme href ∨ IsFragment href ∨ joined base href = href := by
  constructor
  · intro hresolves
    by_cases hkept : HasScheme href ∨ IsFragment href
    · exact hkept.imp_right Or.inl
    · exact Or.inr (Or.inr (hresolves.joined hkept).symm)
  · intro hcases
    refine ⟨fun _ => rfl, fun hnot => ?_⟩
    rcases hcases with hscheme | hfragment | hsame
    · exact absurd (Or.inl hscheme) hnot
    · exact absurd (Or.inr hfragment) hnot
    · exact hsame.symm

theorem resolves_joined_iff {base href : String} :
    Resolves base href (joined base href) ↔
      (HasScheme href ∨ IsFragment href → joined base href = href) :=
  ⟨Resolves.kept, fun hkept => ⟨hkept, fun _ => rfl⟩⟩

/-- A reference is left as it is exactly if it is a fragment or has the mark.  This is right
exactly if mark and scheme come together, or the path that a URL without the mark is joined
to happens to be the URL itself. -/
theorem resolves_resolveHref_iff (base href : String) :
    resolveHref base href =
        (if HasMark href ∨ IsFragment href then href else joined base href) ∧
      (Resolves base href (resolveHref base href) ↔
        IsFragment href ∨ (HasScheme href ↔ HasMark href) ∨
          HasScheme href ∧ joined base href = href) := by
  refine ⟨resolveHref_eq base href, ?_⟩
  rw [resolveHref_eq]
  by_cases hfragment : IsFragment href
  · rw [if_pos (Or.inr hfragment), resolves_self_iff]
    exact iff_of_true (Or.inr (Or.inl hfragment)) (Or.inl hfragment)
  by_cases hmark : HasMark href
  · have hne := joined_ne_of_hasMark base hmark
    rw [if_pos (Or.inl hmark), resolves_self_iff]
    simp only [hfragment, hmark, hne, iff_true, and_false, or_false, false_or]
  · rw [if_neg (not_or.mpr ⟨hmark, hfragment⟩), resolves_joined_iff]
    by_cases hscheme : HasScheme href
    · simp only [hscheme, hfragment, hmark, or_false, false_or, forall_const, iff_false,
        not_true_eq_false, true_and]
    · simp only [hscheme, hfragment, hmark, or_false, false_or, false_and, false_imp_iff]

/-- A scheme without two slashes behind it is joined, and a mark that no scheme stands before
keeps a reference from being joined. -/
theorem not_resolves_resolveHref_query :
    HasScheme "mailto:a@b" ∧
      resolveHref "OEBPS/package.opf" "mailto:a@b" = "OEBPS/mailto:a@b" ∧
      ¬Resolves "OEBPS/package.opf" "mailto:a@b"
        (resolveHref "OEBPS/package.opf" "mailto:a@b") ∧
      ¬HasScheme "a.xhtml?to=http://b" ∧ ¬IsFragment "a.xhtml?to=http://b" ∧
      joined "OEBPS/package.opf" "a.xhtml?to=http://b" = "OEBPS/a.xhtml?to=http:/b" ∧
      resolveHref "OEBPS/package.opf" "a.xhtml?to=http://b" = "a.xhtml?to=http://b" ∧
      ¬Resolves "OEBPS/package.opf" "a.xhtml?to=http://b"
        (resolveHref "OEBPS/package.opf" "a.xhtml?to=http://b") := by
  decide

end Epub.Parts
