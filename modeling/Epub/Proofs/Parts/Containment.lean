/-
References and the root of the container.  A reference that is joined leads to a path
without empty components.  Its own segments never lead out of the root and leave no dots
behind, so the path stays inside the root exactly when the directories of the base that it
does not leave do.
-/
import Epub.Proofs.Parts.Destination

namespace Epub.Parts

/-- A path without a slash at either end and without empty components. -/
structure IsPath (path : String) : Prop where
  starts : path.toList.head? ≠ some '/'
  ends : path.toList.getLast? ≠ some '/'
  filled : ∀ component ∈ components path, component ≠ []

/-- A path that stays inside the root: every component of it is a name. -/
structure IsContained (path : String) : Prop extends IsPath path where
  named : ∀ component ∈ components path, IsName component

section Paths

variable {path : String}

/-- A slash at the end of a path makes an empty component. -/
theorem isPath_iff : IsPath path ↔ ∀ component ∈ components path, component ≠ [] := by
  constructor
  · exact IsPath.filled
  · intro hfilled
    refine ⟨fun hstarts => ?_, fun hends => ?_, hfilled⟩
    · obtain ⟨rest, hpath⟩ := List.head?_eq_some_iff.mp hstarts
      apply hfilled []
      · rw [components_of_ne (by simp [hpath]), hpath, List.splitOn_cons_eq_if_modifyHead]
        exact List.mem_cons_self
      · rfl
    · obtain ⟨front, hpath⟩ := List.getLast?_eq_some_iff.mp hends
      apply hfilled []
      · rw [components_of_ne (by simp [hpath]), hpath, List.splitOn_append_cons_self]
        exact List.mem_append_right _ List.mem_cons_self
      · rfl

theorem isContained_iff : IsContained path ↔ ∀ component ∈ components path, IsName component := by
  constructor
  · exact IsContained.named
  · intro hnamed
    exact ⟨isPath_iff.mpr fun component hmem => (hnamed component hmem).1, hnamed⟩

end Paths

theorem isPath_joined (base href : String) : IsPath (joined base href) := by
  rw [isPath_iff, components_joined]
  intro component hmem
  exact (separable_destination base.toList href.toList component hmem).1

/-- What a reference keeps of its base decides whether it stays inside the root. -/
theorem isContained_joined_iff (base href : String) :
    IsContained (joined base href) ↔
      ∀ directory ∈ remaining base.toList href.toList, IsName directory := by
  rw [isContained_iff, components_joined, destination, List.forall_mem_append]
  exact and_iff_left fun component hmem => (isName_of_mem_keeps hmem).2

/-- A reference that is joined leads to a path, and stays inside the root exactly when all
directories that remain of its base are names. -/
theorem isContained_resolveHref_iff (base href : String) (hrelative : IsRelative href) :
    IsPath (resolveHref base href) ∧
      (IsContained (resolveHref base href) ↔
        ∀ directory ∈ remaining base.toList href.toList, IsName directory) := by
  rw [resolveHref_of_isRelative base hrelative]
  exact ⟨isPath_joined base href, isContained_joined_iff base href⟩

/-- A reference that leaves all directories of its base, those outside the root included. -/
theorem isContained_resolveHref_climbing :
    IsRelative "../../..//./a/b/../c/" ∧
      resolveHref "..//OEBPS/./package.opf" "../../..//./a/b/../c/" = "a/c" ∧
      IsContained (resolveHref "..//OEBPS/./package.opf" "../../..//./a/b/../c/") := by
  have hrelative : IsRelative "../../..//./a/b/../c/" := by decide
  obtain ⟨-, hcontained⟩ := isContained_resolveHref_iff "..//OEBPS/./package.opf"
    "../../..//./a/b/../c/" hrelative
  exact ⟨hrelative, by decide, hcontained.mpr (by decide)⟩

/-- Directories of the base outside the root are kept. -/
theorem not_isContained_resolveHref_outside :
    IsRelative "chapter.xhtml" ∧
      resolveHref "../package.opf" "chapter.xhtml" = "../chapter.xhtml" ∧
      ¬IsContained (resolveHref "../package.opf" "chapter.xhtml") := by
  have hresolved : resolveHref "../package.opf" "chapter.xhtml" = "../chapter.xhtml" := by decide
  refine ⟨by decide, hresolved, fun hcontained => ?_⟩
  have hdots : IsName ['.', '.'] := hcontained.named _ (by rw [hresolved]; decide)
  exact hdots.2.2 rfl

end Epub.Parts
