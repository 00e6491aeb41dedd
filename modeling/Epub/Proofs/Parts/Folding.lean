/-
Segments folded onto directories.  What a reference does to the directories it starts from
can be told from its segments alone: it leaves a number of them, and enters some of its own
that it does not leave again.
-/
import Epub.Parts.Href
import Mathlib.Data.List.DropRight

namespace Epub.Parts

/-- A segment that names a directory or a part. -/
def IsName (segment : List Char) : Prop :=
  segment ≠ [] ∧ segment ≠ ['.'] ∧ segment ≠ ['.', '.']

instance (segment : List Char) : Decidable (IsName segment) :=
  inferInstanceAs (Decidable (_ ∧ _))

/-- How many of the directories entered before are left. -/
def climbs : List (List Char) → Nat
  | [] => 0
  | segment :: rest =>
      if segment = [] ∨ segment = ['.'] then climbs rest
      else if segment = ['.', '.'] then climbs rest + 1
      else climbs rest - 1

/-- The directories that are entered and not left again: no climb that starts behind a name
reaches it. -/
def keeps : List (List Char) → List (List Char)
  | [] => []
  | segment :: rest =>
      if IsName segment ∧ climbs rest = 0 then segment :: keeps rest else keeps rest

section Segments

variable {segment : List Char} {rest front back entered : List (List Char)}

theorem isName_of_mem_keeps {segments : List (List Char)} (hmem : segment ∈ keeps segments) :
    segment ∈ segments ∧ IsName segment := by
  induction segments with
  | nil => exact absurd hmem List.not_mem_nil
  | cons first rest ih =>
      rw [keeps] at hmem
      split at hmem
      · rename_i hkept
        rcases List.mem_cons.mp hmem with rfl | hrest
        · exact ⟨List.mem_cons_self, hkept.1⟩
        · exact (ih hrest).imp_left (List.mem_cons_of_mem first)
      · exact (ih hmem).imp_left (List.mem_cons_of_mem first)

/-- The three things a segment can do. -/
theorem segment_cases (segment : List Char) :
    (segment = [] ∨ segment = ['.']) ∨ segment = ['.', '.'] ∨ IsName segment := by
  rw [IsName]
  tauto

theorem foldSegments_stay (hstay : segment = [] ∨ segment = ['.']) :
    foldSegments entered (segment :: rest) = foldSegments entered rest := by
  rw [foldSegments, if_pos hstay]

theorem foldSegments_climb :
    foldSegments entered (['.', '.'] :: rest) = foldSegments entered.tail rest := by
  rw [foldSegments, if_neg (by decide), if_pos rfl]

theorem foldSegments_enter (hname : IsName segment) :
    foldSegments entered (segment :: rest) = foldSegments (segment :: entered) rest := by
  rw [foldSegments, if_neg (not_or.mpr ⟨hname.1, hname.2.1⟩), if_neg hname.2.2]

/-- Folding leaves as many directories as the segments climb, and enters what they keep. -/
theorem foldSegments_eq (entered segments : List (List Char)) :
    foldSegments entered segments =
      (entered.drop (climbs segments)).reverse ++ keeps segments := by
  induction segments generalizing entered with
  | nil => simp [foldSegments, climbs, keeps]
  | cons segment rest ih =>
      rcases segment_cases segment with hstay | rfl | hname
      · have hnot : ¬(IsName segment ∧ climbs rest = 0) := by
          rintro ⟨hname, -⟩
          exact hstay.elim hname.1 hname.2.1
        rw [foldSegments_stay hstay, ih, climbs, if_pos hstay, keeps, if_neg hnot]
      · have hnot : ¬(IsName ['.', '.'] ∧ climbs rest = 0) := fun hname => hname.1.2.2 rfl
        rw [foldSegments_climb, ih, climbs, if_neg (by decide), if_pos rfl, keeps, if_neg hnot,
          List.drop_tail]
      · rw [foldSegments_enter hname, ih, climbs,
          if_neg (not_or.mpr ⟨hname.1, hname.2.1⟩), if_neg hname.2.2, keeps]
        -- A name is left again exactly if the segments behind it climb at all.
        cases hclimbs : climbs rest with
        | zero => simp [hname]
        | succ n => simp

/-- Folding in two stages. -/
theorem foldSegments_append (entered front back : List (List Char)) :
    foldSegments entered (front ++ back) =
      foldSegments (foldSegments entered front).reverse back := by
  induction front generalizing entered with
  | nil => simp [foldSegments]
  | cons segment rest ih =>
      rw [List.cons_append]
      rcases segment_cases segment with hstay | rfl | hname
      · rw [foldSegments_stay hstay, foldSegments_stay hstay, ih]
      · rw [foldSegments_climb, foldSegments_climb, ih]
      · rw [foldSegments_enter hname, foldSegments_enter hname, ih]

end Segments

end Epub.Parts
