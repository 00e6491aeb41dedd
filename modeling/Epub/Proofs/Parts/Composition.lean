/-
References in stages.  A reference from a part that was itself reached by a reference leads
where both lead when they are written behind one another, with the name of the part in
between left out.
-/
import Epub.Proofs.Parts.Destination

namespace Epub.Parts

/-- A reference up to its last slash, without the segment behind it. -/
def directoryPart (href : String) : String :=
  String.ofList (href.toList.rdropWhile (· ≠ '/'))

/-- The segment behind the last slash of a reference. -/
def lastSegment (href : String) : List Char :=
  href.toList.rtakeWhile (· ≠ '/')

section Segments

theorem toList_directoryPart_append (href : String) :
    (directoryPart href).toList ++ lastSegment href = href.toList := by
  rw [directoryPart, String.toList_ofList]
  exact List.rdropWhile_append_rtakeWhile

theorem slash_not_mem_lastSegment (href : String) : '/' ∉ lastSegment href := by
  intro hmem
  have hother := List.mem_rtakeWhile_imp hmem
  simp at hother

theorem directoryPart_cases (href : String) :
    (directoryPart href).toList = [] ∨ ∃ front, (directoryPart href).toList = front ++ ['/'] := by
  rw [directoryPart, String.toList_ofList]
  by_cases hnil : href.toList.rdropWhile (· ≠ '/') = []
  · exact Or.inl hnil
  · have hslash : (href.toList.rdropWhile (· ≠ '/')).getLast hnil = '/' := by
      simpa only [decide_eq_true_eq, not_not] using List.rdropWhile_last_not _ _ hnil
    have hconcat := List.dropLast_append_getLast hnil
    rw [hslash] at hconcat
    exact Or.inr ⟨_, hconcat.symm⟩

/-- What follows a directory part adds segments of its own. -/
theorem exists_splitOn_directoryPart (href : String) :
    ∃ segments, ∀ rest : List Char, ((directoryPart href).toList ++ rest).splitOn '/' =
      segments ++ rest.splitOn '/' := by
  rcases directoryPart_cases href with hnil | ⟨front, hfront⟩
  · exact ⟨[], fun rest => by rw [hnil]; rfl⟩
  · refine ⟨front.splitOn '/', fun rest => ?_⟩
    rw [hfront, List.append_assoc, List.singleton_append, List.splitOn_append_cons_self]

end Segments

section Joining

variable {base front left right : List Char}

/-- Where a reference starts is told by its first character. -/
theorem startOf_append (hleft : left.head? ≠ some '/') (hright : right.head? ≠ some '/') :
    startOf base (front ++ left) = startOf base (front ++ right) := by
  cases front with
  | nil => rw [List.nil_append, List.nil_append, startOf, startOf, if_neg hleft, if_neg hright]
  | cons c rest => rfl

/-- Where two references meet no mark comes about, unless the second one is rooted. -/
theorem mark_append (hright : right.head? ≠ some '/')
    (hmark : "://".toList <:+: left ++ right) :
    "://".toList <:+: left ∨ "://".toList <:+: right := by
  rcases List.infix_append_iff_ne_nil.mp hmark with hfront | hback |
    ⟨before, behind, hbefore, hbehind, hsplit, -, hprefix⟩
  · exact Or.inl hfront
  · exact Or.inr hback
  · exfalso
    obtain ⟨rest, rfl⟩ := hprefix
    -- Whatever is cut off the mark starts with a slash.
    have hsuffix : behind <:+ [':', '/', '/'] := ⟨before, hsplit.symm⟩
    simp only [List.suffix_cons_iff, List.suffix_nil] at hsuffix
    rcases hsuffix with rfl | rfl | rfl | rfl
    · exact hbefore (List.self_eq_append_left.mp hsplit)
    · exact hright rfl
    · exact hright rfl
    · exact hbehind rfl

/-- The directories of a path are all its components but the last. -/
theorem directories_intercalate {entered : List (List Char)} {name : List Char}
    (hseparable : Separable (entered ++ [name])) :
    directories (List.intercalate ['/'] (entered ++ [name])) = entered := by
  rw [directories, hseparable.splitOn_intercalate (List.append_ne_nil_of_right_ne_nil _ (by simp)),
    List.dropLast_concat, List.filter_eq_self]
  intro component hmem
  exact decide_eq_true (hseparable component (List.mem_append_left _ hmem)).1

end Joining

/-- Joining in two stages.  The name reached first is the only component that the second
stage does not take over. -/
theorem joined_joined (base first second : String) (hrooted : second.toList.head? ≠ some '/')
    (hname : IsName (lastSegment first)) :
    joined (joined base first) second = joined base (directoryPart first ++ second) := by
  obtain ⟨segments, hsegments⟩ := exists_splitOn_directoryPart first
  have hslash := slash_not_mem_lastSegment first
  have hlast : (lastSegment first).head? ≠ some '/' := fun hhead =>
    hslash (List.mem_of_head? hhead)
  -- The directory part of the first reference is folded in both ways.
  have hfirst : destination base.toList first.toList =
      foldSegments (startOf base.toList first.toList).reverse segments ++ [lastSegment first] := by
    rw [← foldSegments_startOf, ← toList_directoryPart_append first, hsegments,
      List.splitOn_eq_singleton hslash, foldSegments_append, foldSegments_enter hname]
    rw [foldSegments, List.reverse_cons, List.reverse_reverse]
  have hstart : startOf (joined base first).toList second.toList =
      foldSegments (startOf base.toList first.toList).reverse segments := by
    have hseparable := separable_destination base.toList first.toList
    rw [hfirst] at hseparable
    rw [startOf, if_neg hrooted, joined, String.toList_ofList, hfirst,
      directories_intercalate hseparable]
  have hwhole : startOf base.toList (directoryPart first ++ second).toList =
      startOf base.toList first.toList := by
    rw [String.toList_append, startOf_append hrooted hlast, toList_directoryPart_append]
  have hdestination : destination (joined base first).toList second.toList =
      destination base.toList (directoryPart first ++ second).toList := by
    rw [← foldSegments_startOf, hstart, ← foldSegments_append, ← hsegments, ← hwhole,
      ← String.toList_append, foldSegments_startOf]
  rw [joined, hdestination, joined]

theorem isRelative_directoryPart_append {first second : String} (hfirst : IsRelative first)
    (hsecond : IsRelative second) (hrooted : second.toList.head? ≠ some '/') :
    IsRelative (directoryPart first ++ second) := by
  have hprefix : (directoryPart first).toList <+: first.toList :=
    ⟨lastSegment first, toList_directoryPart_append first⟩
  constructor
  · rw [HasMark, String.toList_append]
    intro hmark
    rcases mark_append hrooted hmark with hpart | hother
    · exact hfirst.unmarked (hpart.trans hprefix.isInfix)
    · exact hsecond.unmarked hother
  · have hwhole := hfirst.whole
    rw [IsFragment, ← toList_directoryPart_append first] at hwhole
    rw [IsFragment, String.toList_append]
    cases hpart : (directoryPart first).toList with
    | nil => exact hsecond.whole
    | cons c rest =>
        rw [hpart] at hwhole
        exact hwhole

/-- Resolving a reference from the part that another one leads to is resolving both at once. -/
theorem resolveHref_resolveHref (base first second : String) (hfirst : IsRelative first)
    (hsecond : IsRelative second) (hrooted : second.toList.head? ≠ some '/')
    (hname : IsName (lastSegment first)) :
    resolveHref (resolveHref base first) second =
      resolveHref base (directoryPart first ++ second) := by
  rw [resolveHref_of_isRelative base hfirst, resolveHref_of_isRelative _ hsecond,
    resolveHref_of_isRelative base (isRelative_directoryPart_append hfirst hsecond hrooted)]
  exact joined_joined base first second hrooted hname

/-- The second reference leaves what the first one entered, and then the whole base. -/
theorem resolveHref_resolveHref_climbing :
    IsRelative "text//./a.xhtml" ∧ IsRelative "../../../../images/" ∧
      "../../../../images/".toList.head? ≠ some '/' ∧ IsName (lastSegment "text//./a.xhtml") ∧
      resolveHref "../OEBPS/package.opf" "text//./a.xhtml" = "../OEBPS/text/a.xhtml" ∧
      resolveHref "../OEBPS/text/a.xhtml" "../../../../images/" = "images" ∧
      resolveHref "../OEBPS/package.opf" "text//./../../../../images/" = "images" := by
  have hfirst : IsRelative "text//./a.xhtml" := by decide
  have hsecond : IsRelative "../../../../images/" := by decide
  have hrooted : "../../../../images/".toList.head? ≠ some '/' := by decide
  have hname : IsName (lastSegment "text//./a.xhtml") := by decide
  have hbetween : resolveHref "../OEBPS/package.opf" "text//./a.xhtml" =
      "../OEBPS/text/a.xhtml" := by decide
  have htarget : resolveHref "../OEBPS/text/a.xhtml" "../../../../images/" = "images" := by
    decide
  have hsame : directoryPart "text//./a.xhtml" ++ "../../../../images/" =
      "text//./../../../../images/" := by decide
  have hwhole := resolveHref_resolveHref "../OEBPS/package.opf" "text//./a.xhtml"
    "../../../../images/" hfirst hsecond hrooted hname
  rw [hbetween, htarget, hsame] at hwhole
  exact ⟨hfirst, hsecond, hrooted, hname, hbetween, htarget, hwhole.symm⟩

end Epub.Parts
