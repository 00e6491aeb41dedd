/-
Where references lead.  A reference starts at the root or in the directory of its base, and
leads to a path whose components are what it leaves of that start, followed by the names it
keeps.  Nothing it says itself can lead out of the root; the directories of the base are
taken as they are.
-/
import Epub.Proofs.Parts.Folding

namespace Epub.Parts

section Splitting

variable {segment : List Char} {components : List (List Char)}

theorem not_mem_of_mem_splitOn {cs : List Char} (hmem : segment ∈ cs.splitOn '/') :
    '/' ∉ segment := by
  induction cs generalizing segment with
  | nil => simp_all
  | cons c rest ih =>
      rw [List.splitOn_cons_eq_if_modifyHead] at hmem
      split at hmem
      · rcases List.mem_cons.mp hmem with rfl | hrest
        · exact List.not_mem_nil
        · exact ih hrest
      · rename_i hc
        obtain ⟨first, others, hsplit⟩ := List.exists_cons_of_ne_nil (List.splitOn_ne_nil '/' rest)
        rw [hsplit] at hmem ih
        rcases List.mem_cons.mp hmem with rfl | hrest
        · have hne : '/' ≠ c := fun heq => hc (beq_of_eq heq.symm)
          exact List.not_mem_cons_of_ne_of_not_mem hne (ih List.mem_cons_self)
        · exact ih (List.mem_cons_of_mem first hrest)

/-- Components that can be joined to a path and split off again. -/
def Separable (components : List (List Char)) : Prop :=
  ∀ component ∈ components, component ≠ [] ∧ '/' ∉ component

theorem Separable.splitOn_intercalate (hseparable : Separable components)
    (hne : components ≠ []) : (List.intercalate ['/'] components).splitOn '/' = components :=
  List.splitOn_intercalate '/' (fun component hmem => (hseparable component hmem).2) hne

theorem Separable.intercalate_eq_nil (hseparable : Separable components) :
    List.intercalate ['/'] components = [] ↔ components = [] := by
  constructor
  · intro hnil
    by_contra hne
    have hsplit := hseparable.splitOn_intercalate hne
    rw [hnil, List.splitOn_nil] at hsplit
    exact (hseparable [] (hsplit ▸ List.mem_singleton_self _)).1 rfl
  · rintro rfl
    rfl

theorem separable_directories (path : List Char) : Separable (directories path) := by
  intro component hmem
  obtain ⟨hsegment, hne⟩ := List.mem_filter.mp hmem
  exact ⟨of_decide_eq_true hne, not_mem_of_mem_splitOn (List.dropLast_subset _ hsegment)⟩

theorem separable_keeps (cs : List Char) : Separable (keeps (cs.splitOn '/')) := by
  intro component hmem
  obtain ⟨hsegment, hname⟩ := isName_of_mem_keeps hmem
  exact ⟨hname.1, not_mem_of_mem_splitOn hsegment⟩

end Splitting

/-- The directories where a reference starts. -/
def startOf (base href : List Char) : List (List Char) :=
  if href.head? = some '/' then [] else directories base

/-- The directories of its start that a reference does not leave. -/
def remaining (base href : List Char) : List (List Char) :=
  (startOf base href).rdrop (climbs (href.splitOn '/'))

/-- The components of the path that a reference leads to. -/
def destination (base href : List Char) : List (List Char) :=
  remaining base href ++ keeps (href.splitOn '/')

/-- A reference starts in directories of its base, if in any. -/
theorem mem_directories_of_mem_startOf {base href directory : List Char}
    (hmem : directory ∈ startOf base href) : directory ∈ directories base := by
  rw [startOf] at hmem
  split at hmem
  · exact absurd hmem List.not_mem_nil
  · exact hmem

theorem mem_directories_of_mem_remaining {base href directory : List Char}
    (hmem : directory ∈ remaining base href) : directory ∈ directories base :=
  mem_directories_of_mem_startOf (List.mem_of_mem_take hmem)

theorem separable_destination (base href : List Char) : Separable (destination base href) := by
  intro component hmem
  rcases List.mem_append.mp hmem with hremaining | hown
  · exact separable_directories base component (mem_directories_of_mem_remaining hremaining)
  · exact separable_keeps href component hown

/-- Folding the segments of a reference onto its start leads to its destination. -/
theorem foldSegments_startOf (base href : List Char) :
    foldSegments (startOf base href).reverse (href.splitOn '/') = destination base href := by
  rw [foldSegments_eq, ← List.rdrop_eq_reverse_drop_reverse]
  rfl

/-- The path that a reference leads to when it is joined. -/
def joined (base href : String) : String :=
  String.ofList (List.intercalate ['/'] (destination base.toList href.toList))

/-- Whether `://` stands somewhere in a reference. -/
def HasMark (href : String) : Prop :=
  "://".toList <:+: href.toList

/-- Whether a reference is a fragment only. -/
def IsFragment (href : String) : Prop :=
  href.toList.head? = some '#'

theorem occursIn_iff {mark cs : List Char} : occursIn mark cs = true ↔ mark <:+: cs := by
  induction cs with
  | nil => simp [occursIn]
  | cons c rest ih =>
      rw [occursIn, Bool.or_eq_true, ih, List.infix_cons_iff, List.isPrefixOf_iff_prefix]

instance (href : String) : Decidable (HasMark href) :=
  decidable_of_iff (occursIn "://".toList href.toList = true) occursIn_iff

instance (href : String) : Decidable (IsFragment href) :=
  inferInstanceAs (Decidable (_ = _))

/-- A reference that is joined to a base. -/
structure IsRelative (href : String) : Prop where
  unmarked : ¬HasMark href
  whole : ¬IsFragment href

instance (href : String) : Decidable (IsRelative href) :=
  decidable_of_iff (¬HasMark href ∧ ¬IsFragment href)
    ⟨fun h => ⟨h.1, h.2⟩, fun h => ⟨h.unmarked, h.whole⟩⟩

theorem isAbsolute_iff {href : String} :
    isAbsolute href.toList = true ↔ HasMark href ∨ IsFragment href := by
  rw [isAbsolute, Bool.or_eq_true, occursIn_iff, decide_eq_true_iff]
  rfl

/-- A reference is left as it is or joined. -/
theorem resolveHref_eq (base href : String) :
    resolveHref base href =
      if HasMark href ∨ IsFragment href then href else joined base href := by
  rw [resolveHref]
  by_cases habsolute : HasMark href ∨ IsFragment href
  · rw [if_pos (isAbsolute_iff.mpr habsolute), if_pos habsolute]
  · rw [if_neg (fun h => habsolute (isAbsolute_iff.mp h)), if_neg habsolute, joined,
      ← foldSegments_startOf]
    rfl

theorem resolveHref_of_isRelative (base : String) {href : String} (hrelative : IsRelative href) :
    resolveHref base href = joined base href := by
  rw [resolveHref_eq, if_neg (not_or.mpr ⟨hrelative.unmarked, hrelative.whole⟩)]

/-- The components of a path; the root has none. -/
def components (path : String) : List (List Char) :=
  if path = "" then [] else path.toList.splitOn '/'

theorem components_of_ne {path : String} (hne : path.toList ≠ []) :
    components path = path.toList.splitOn '/' := by
  rw [components, if_neg]
  rintro rfl
  exact hne rfl

theorem components_joined (base href : String) :
    components (joined base href) = destination base.toList href.toList := by
  have hseparable := separable_destination base.toList href.toList
  rw [components, joined]
  by_cases hnil : destination base.toList href.toList = []
  · rw [hnil]
    rfl
  · rw [if_neg, String.toList_ofList, hseparable.splitOn_intercalate hnil]
    intro hempty
    apply hnil
    rw [← hseparable.intercalate_eq_nil]
    simpa using congrArg String.toList hempty

end Epub.Parts
