/-
Elements that are read alike.  Reading goes through the parts of an element one by one and
stops at the first that fails, so where the parts come out alike, the whole does: with related
results or with the same error, or with whatever there is where the first has an error that is
excused.
-/
import Epub.Proofs.Binding.Fields

namespace Epub.Binding

open Epub.Schema Epub.Xml

variable {κ : Type}

/-- Whether two slots hold the same, but for records that are related one by one. -/
inductive SlotAlike (R : Record κ → Record κ → Prop) :
    Option (FieldValue κ) → Option (FieldValue κ) → Prop where
  | same (slot : Option (FieldValue κ)) : SlotAlike R slot slot
  | element {record record' : Record κ} (hrecord : R record record') :
      SlotAlike R (some (.element record)) (some (.element record'))
  | list {records records' : List (Record κ)} (hrecords : List.Forall₂ R records records') :
      SlotAlike R (some (.list records)) (some (.list records'))

theorem SlotAlike.eq {slot slot' : Option (FieldValue κ)} (halike : SlotAlike Eq slot slot') :
    slot = slot' := by
  cases halike with
  | same slot => rfl
  | element hrecord => rw [hrecord]
  | list hrecords =>
      rw [List.forall₂_eq_eq_eq] at hrecords
      rw [hrecords]

section Alike

variable {family : Family κ} {key : κ} {e e' : Element}
  {R : Record κ → Record κ → Prop} {excused : Error → Prop}

/-- Whether of two children the one is told as the same as the other, and read alike. -/
structure ReadsAgree {ρ : Type} (tell : Element → Option ρ)
    (read : ρ → String → Element → Except Error (List (Record κ)))
    (R : Record κ → Record κ → Prop) (excused : Error → Prop) (child child' : Element) :
    Prop where
  name : child'.name = child.name
  told : tell child' = tell child
  outcome : ∀ role, tell child = some role → ∀ path,
    Agree (List.Forall₂ R) excused (read role path child) (read role path child')

theorem ReadsAgree.refl {ρ : Type} {tell : Element → Option ρ}
    {read : ρ → String → Element → Except Error (List (Record κ))}
    (hrefl : ∀ record, R record record) (child : Element) :
    ReadsAgree tell read R excused child child :=
  ⟨rfl, rfl, fun _ _ _ => .refl (fun _ => List.forall₂_same.mpr fun record _ => hrefl record) _⟩

theorem readEach_agrees {ρ : Type} {tell : Element → Option ρ}
    {read : ρ → String → Element → Except Error (List (Record κ))} (path : String)
    {found found' : List Element}
    (hagree : List.Forall₂ (ReadsAgree tell read R excused) found found') :
    Agree (List.Forall₂ R) excused (readEach tell read path found)
      (readEach tell read path found') := by
  have htold : Agree
      (List.Forall₂ fun item item' : ρ × Element =>
        Agree (List.Forall₂ R) excused (read item.1 (childPath path item.2) item.2)
          (read item'.1 (childPath path item'.2) item'.2))
      excused (tellAll tell path found) (tellAll tell path found') := by
    apply Agree.mapM
    refine hagree.imp fun child child' hchild => ?_
    rw [hchild.told, hchild.name]
    cases hrole : tell child with
    | none => exact .error _
    | some role =>
        have hpath : childPath path child' = childPath path child := by
          rw [childPath, childPath, hchild.name]
        refine .ok ?_
        rw [hpath]
        exact hchild.outcome role hrole _
  rw [readEach, readEach]
  refine htold.bind fun told told' htold => (Agree.mapM htold).bind fun parts parts' hparts => ?_
  exact .ok (List.rel_flatten hparts)

theorem slotAlike_collect (kind : FieldKind κ) {records records' : List (Record κ)}
    (hrecords : List.Forall₂ R records records') :
    SlotAlike R (some (collect kind records)) (some (collect kind records')) := by
  by_cases helement : ∃ type, kind = .element type
  · obtain ⟨type, rfl⟩ := helement
    cases hrecords with
    | nil => exact .list .nil
    | cons hrecord hrest =>
        cases hrest with
        | nil => exact .element hrecord
        | cons hsecond hrest => exact .list (.cons hrecord (.cons hsecond hrest))
  · have hcollect : ∀ records : List (Record κ), collect kind records = .list records := by
      intro records
      cases kind <;> simp_all [collect]
    rw [hcollect, hcollect]
    exact .list hrecords

variable [DecidableEq κ]

/-- A field reads alike where the children that it considers are. -/
theorem readChildren_agrees {index : Nat} {bound : BoundField κ} (hns : e'.ns = e.ns)
    (hagree : List.Forall₂
      (ReadsAgree (roleOf? family bound.field e.ns) (readAs family) R excused)
      (e.children.filter (considers family key index bound.field e.ns))
      (e'.children.filter (considers family key index bound.field e.ns))) (path : String) :
    Agree (SlotAlike R) excused (readChildren family key path e index bound)
      (readChildren family key path e' index bound) := by
  have hread := readEach_agrees path hagree
  rw [readChildren, readChildren, hns]
  generalize e.children.filter (considers family key index bound.field e.ns) = found at *
  generalize e'.children.filter (considers family key index bound.field e.ns) = found' at *
  cases hagree with
  | nil => exact .refl .same _
  | @cons _ _ rest rest' _ hrest =>
      have hmany : rest' ≠ [] ↔ rest ≠ [] := by
        rw [← List.length_pos_iff, ← List.length_pos_iff, hrest.length_eq]
      simp only [hmany]
      split
      · exact .error _
      · exact hread.map fun _ _ hrecords => slotAlike_collect _ hrecords

/-- An element is read alike where each of its fields is. -/
theorem readElement_agrees {S : Option (FieldValue κ) → Option (FieldValue κ) → Prop}
    {path : String} (hfamily : IsBound family key)
    (hfields : ∀ index bound, (family key).fields[index]? = some bound →
      Agree S excused (readField family key path e index bound)
        (readField family key path e' index bound))
    (hrecord : ∀ slots slots', List.Forall₂ S slots slots' → R (.mk key slots) (.mk key slots')) :
    Agree R excused (readElement family key path e).outcome
      (readElement family key path e').outcome := by
  cases htags : (family key).descriptor.tags with
  | error fault =>
      rw [readElement_of_fault htags, readElement_of_fault htags]
      exact .error _
  | ok tags =>
      rw [readElement_of_tags hfamily htags, readElement_of_tags hfamily htags]
      refine Agree.map (Agree.mapM (List.forall₂_same.mpr fun item hitem => ?_)) hrecord
      exact hfields item.2 item.1 (List.mem_zipIdx_iff_getElem?.mp hitem)

end Alike

end Epub.Binding
