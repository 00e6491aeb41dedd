/-
Records: values of described types.  A record has one slot for each field of
its type, in declared order, and an empty slot stands for the default.
-/
import Epub.SortedMap
import Epub.Schema.Scalar
import Epub.Xml.Element

namespace Epub.Xml

/-- Qualified names are ordered by the local name, then by the namespace, and
no namespace comes first. -/
instance : Ord QName where
  compare := compareLex (compareOn QName.name) (compareOn QName.ns)

instance : Std.TransOrd QName :=
  inferInstanceAs
    (Std.TransCmp (compareLex (compareOn QName.name) (compareOn QName.ns)))

instance : Std.LawfulEqOrd QName where
  eq_of_compare := by
    rintro ⟨name, ns⟩ ⟨name', ns'⟩ heq
    change (compare name name').then (compare ns ns') = .eq at heq
    obtain ⟨hname, hns⟩ := Ordering.then_eq_eq.mp heq
    rw [Std.LawfulEqCmp.eq_of_compare hname, Std.LawfulEqCmp.eq_of_compare hns]

end Epub.Xml

namespace Epub.Binding

open Epub.Schema Epub.Xml

/-- Attributes kept under their resolved names.  Sorted, so that they do not
depend on the order in the document. -/
abbrev OtherAttributes : Type := SortedMap QName String

mutual

/-- A value of the type under the key `type`. -/
inductive Record (κ : Type) where
  | mk (type : κ) (slots : List (Option (FieldValue κ)))

/-- What one field of a record holds. -/
inductive FieldValue (κ : Type) where
  | scalar (value : Scalar)
  | element (record : Record κ)
  | list (records : List (Record κ))
  | overflow (other : OtherAttributes)

end

variable {κ : Type}

instance [Inhabited κ] : Inhabited (Record κ) := ⟨.mk default []⟩

mutual

/-- Equality of records is decidable. -/
def Record.decEq [DecidableEq κ] :
    (left right : Record κ) → Decidable (left = right)
  | .mk type slots, .mk type' slots' =>
      if htype : type = type' then
        match decEqSlots slots slots' with
        | isTrue hslots => isTrue (by rw [htype, hslots])
        | isFalse hslots => isFalse (by simp [hslots])
      else isFalse (by simp [htype])

/-- Equality of lists of slots is decidable. -/
def decEqSlots [DecidableEq κ] :
    (left right : List (Option (FieldValue κ))) → Decidable (left = right)
  | [], [] => isTrue rfl
  | [], _ :: _ => isFalse (by simp)
  | _ :: _, [] => isFalse (by simp)
  | head :: tail, head' :: tail' =>
      match decEqSlot head head', decEqSlots tail tail' with
      | isTrue hhead, isTrue htail => isTrue (by rw [hhead, htail])
      | isFalse hhead, _ => isFalse (by simp [hhead])
      | _, isFalse htail => isFalse (by simp [htail])

/-- Equality of slots is decidable. -/
def decEqSlot [DecidableEq κ] :
    (left right : Option (FieldValue κ)) → Decidable (left = right)
  | none, none => isTrue rfl
  | none, some _ => isFalse (by simp)
  | some _, none => isFalse (by simp)
  | some value, some value' =>
      match FieldValue.decEq value value' with
      | isTrue hvalue => isTrue (by rw [hvalue])
      | isFalse hvalue => isFalse (by simp [hvalue])

/-- Equality of field values is decidable. -/
def FieldValue.decEq [DecidableEq κ] :
    (left right : FieldValue κ) → Decidable (left = right)
  | .scalar value, .scalar value' => decidable_of_iff (value = value') (by simp)
  | .element record, .element record' =>
      match Record.decEq record record' with
      | isTrue hrecord => isTrue (by rw [hrecord])
      | isFalse hrecord => isFalse (by simp [hrecord])
  | .list records, .list records' =>
      match decEqRecords records records' with
      | isTrue hrecords => isTrue (by rw [hrecords])
      | isFalse hrecords => isFalse (by simp [hrecords])
  | .overflow other, .overflow other' => decidable_of_iff (other = other') (by simp)
  | .scalar _, .element _ => isFalse (by simp)
  | .scalar _, .list _ => isFalse (by simp)
  | .scalar _, .overflow _ => isFalse (by simp)
  | .element _, .scalar _ => isFalse (by simp)
  | .element _, .list _ => isFalse (by simp)
  | .element _, .overflow _ => isFalse (by simp)
  | .list _, .scalar _ => isFalse (by simp)
  | .list _, .element _ => isFalse (by simp)
  | .list _, .overflow _ => isFalse (by simp)
  | .overflow _, .scalar _ => isFalse (by simp)
  | .overflow _, .element _ => isFalse (by simp)
  | .overflow _, .list _ => isFalse (by simp)

/-- Equality of lists of records is decidable. -/
def decEqRecords [DecidableEq κ] :
    (left right : List (Record κ)) → Decidable (left = right)
  | [], [] => isTrue rfl
  | [], _ :: _ => isFalse (by simp)
  | _ :: _, [] => isFalse (by simp)
  | head :: tail, head' :: tail' =>
      match Record.decEq head head', decEqRecords tail tail' with
      | isTrue hhead, isTrue htail => isTrue (by rw [hhead, htail])
      | isFalse hhead, _ => isFalse (by simp [hhead])
      | _, isFalse htail => isFalse (by simp [htail])

end

instance [DecidableEq κ] : DecidableEq (Record κ) := Record.decEq

instance [DecidableEq κ] : DecidableEq (FieldValue κ) := FieldValue.decEq

namespace Record

/-- The key of the record's type. -/
def type : Record κ → κ
  | .mk type _ => type

def slots : Record κ → List (Option (FieldValue κ))
  | .mk _ slots => slots

/-- What the field at `index` holds, if anything. -/
def slot? (record : Record κ) (index : Nat) : Option (FieldValue κ) :=
  record.slots[index]?.join

/-- The text of the scalar at `index`. -/
def text? (record : Record κ) (index : Nat) : Option String :=
  match record.slot? index with
  | some (.scalar value) => some value.text
  | _ => none

/-- The element at `index`. -/
def element? (record : Record κ) (index : Nat) : Option (Record κ) :=
  match record.slot? index with
  | some (.element inner) => some inner
  | _ => none

/-- The members of the list at `index`. -/
def members (record : Record κ) (index : Nat) : List (Record κ) :=
  match record.slot? index with
  | some (.list records) => records
  | _ => []

/-- The leftover attributes at `index`. -/
def other (record : Record κ) (index : Nat) : OtherAttributes :=
  match record.slot? index with
  | some (.overflow other) => other
  | _ => SortedMap.empty

theorem sizeOf_member_lt [SizeOf κ] {record member : Record κ} {index : Nat}
    (hmember : member ∈ record.members index) : sizeOf member < sizeOf record := by
  obtain ⟨type, slots⟩ := record
  simp only [members, slot?, Record.slots] at hmember
  split at hmember
  · rename_i records hslot
    have hsome : some (FieldValue.list records) ∈ slots := by
      simp only [Option.join_eq_some_iff] at hslot
      exact List.mem_of_getElem? hslot
    have hslots := List.sizeOf_lt_of_mem hsome
    have hrecords := List.sizeOf_lt_of_mem hmember
    simp only [Option.some.sizeOf_spec, FieldValue.list.sizeOf_spec,
      Record.mk.sizeOf_spec] at hslots ⊢
    omega
  · simp at hmember

end Record

end Epub.Binding
