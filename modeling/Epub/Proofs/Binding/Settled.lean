/-
Records as they come back.  A slot that leaves nothing behind in a document is as
good as empty; a record without such slots is settled.
-/
import Epub.Binding.Writing
import Epub.Proofs.Binding.Scalar
import Mathlib.Data.List.Forall2

namespace Epub.Binding

open Epub.Schema Epub.Xml

variable {κ : Type}

/-- The records that a slot holds. -/
def slotMembers : Option (FieldValue κ) → List (Record κ)
  | some (.element record) => [record]
  | some (.list records) => records
  | _ => []

/-- The leftover attributes that a slot holds. -/
def slotEntries : Option (FieldValue κ) → List (QName × String)
  | some (.overflow other) => other.entries
  | _ => []

/-- The leftover attributes in a slot. -/
def slotOther : Option (FieldValue κ) → OtherAttributes
  | some (.overflow other) => other
  | _ => SortedMap.empty

/-- Whether a field of this kind may hold what the slot holds. -/
def BoundField.Carries (bound : BoundField κ) (slot : Option (FieldValue κ)) : Prop :=
  match slot, bound.field.kind with
  | none, _ => True
  | some (.scalar value), .value => bound.scalar.Holds value
  | some (.element record), .element type => record.type = type
  | some (.list records), .list type => ∀ record ∈ records, record.type = type
  | some (.list records), .variants types => ∀ record ∈ records, record.type ∈ types
  | some (.overflow _), .overflow => True
  | _, _ => False

/-- Whether a slot holds a value of the kind of its field.  Of a scalar nothing more is
asked. -/
def BoundField.Admits (bound : BoundField κ) (slot : Option (FieldValue κ)) : Prop :=
  match slot, bound.field.kind with
  | none, _ => True
  | some (.scalar _), .value => True
  | some (.element record), .element type => record.type = type
  | some (.list records), .list type => ∀ record ∈ records, record.type = type
  | some (.list records), .variants types => ∀ record ∈ records, record.type ∈ types
  | some (.overflow _), .overflow => True
  | _, _ => False

theorem BoundField.Carries.admits {bound : BoundField κ} {slot : Option (FieldValue κ)}
    (hcarries : bound.Carries slot) : bound.Admits slot := by
  cases slot with
  | none => trivial
  | some value =>
      cases value <;> cases hkind : bound.field.kind <;>
        simp_all [BoundField.Carries, BoundField.Admits]

/-- Only a field for leftover attributes holds some. -/
theorem kind_of_mem_slotEntries {bound : BoundField κ} {slot : Option (FieldValue κ)}
    (hcarries : bound.Carries slot) {entry : QName × String} (hentry : entry ∈ slotEntries slot) :
    bound.field.kind = .overflow := by
  cases slot with
  | none => exact absurd hentry List.not_mem_nil
  | some value =>
      cases value with
      | overflow other =>
          cases hkind : bound.field.kind <;> simp [BoundField.Carries, hkind] at hcarries
          rfl
      | _ => exact absurd hentry List.not_mem_nil

/-- Any other field holds none. -/
theorem slotEntries_eq_nil {bound : BoundField κ} {slot : Option (FieldValue κ)}
    (hcarries : bound.Carries slot) (hkind : bound.field.kind ≠ .overflow) :
    slotEntries slot = [] := by
  rw [List.eq_nil_iff_forall_not_mem]
  exact fun entry hentry => hkind (kind_of_mem_slotEntries hcarries hentry)

/-- Whether each slot, here and in the members, holds what its field may hold. -/
inductive Record.WellTyped (family : Family κ) : Record κ → Prop where
  | mk {key : κ} {slots : List (Option (FieldValue κ))}
      (hslots : List.Forall₂ BoundField.Carries (family key).fields slots)
      (hmembers : ∀ slot ∈ slots, ∀ member ∈ slotMembers slot, Record.WellTyped family member) :
      Record.WellTyped family (.mk key slots)

/-- Whether a field writes nothing for its slot. -/
def BoundField.skips (bound : BoundField κ) : Option (FieldValue κ) → Bool
  | none => true
  | some (.scalar value) => (bound.written? value).isNone
  | some (.element _) => false
  | some (.list records) =>
      records.isEmpty && (bound.field.wrapper.isNone || bound.field.hasDefault)
  | some (.overflow other) => other.isEmpty

/-- Whether the slot is an empty text, which a reader takes for no text. -/
def BoundField.isSilent (bound : BoundField κ) : Option (FieldValue κ) → Bool
  | some (.scalar value) => bound.field.isText && value.text = ""
  | _ => false

mutual

/-- The record without what is lost on the way: every slot that leaves nothing
behind is emptied. -/
def Record.settle (family : Family κ) : Record κ → Record κ
  | .mk key slots => .mk key (settleSlots family (family key).fields slots)

/-- Settle the slots of some fields. -/
def settleSlots (family : Family κ) :
    List (BoundField κ) → List (Option (FieldValue κ)) → List (Option (FieldValue κ))
  | bound :: fields, slot :: slots =>
      settleSlot family bound slot :: settleSlots family fields slots
  | [], _ => []
  | _ :: _, [] => []

/-- Settle the slot of a field. -/
def settleSlot (family : Family κ) (bound : BoundField κ) :
    Option (FieldValue κ) → Option (FieldValue κ)
  | none => none
  | some value =>
      if bound.skips (some value) || bound.isSilent (some value) then none
      else some (settleValue family value)

/-- Settle what a slot holds. -/
def settleValue (family : Family κ) : FieldValue κ → FieldValue κ
  | .scalar value => .scalar value
  | .element record => .element (record.settle family)
  | .list records => .list (settleRecords family records)
  | .overflow other => .overflow other

/-- Settle records. -/
def settleRecords (family : Family κ) : List (Record κ) → List (Record κ)
  | [] => []
  | record :: rest => record.settle family :: settleRecords family rest

end

section Settle

variable {family : Family κ} {bound : BoundField κ}

theorem settleRecords_eq_map (records : List (Record κ)) :
    settleRecords family records = records.map (Record.settle family) := by
  induction records with
  | nil => rfl
  | cons record rest ih => rw [settleRecords, ih, List.map_cons]

@[simp] theorem settle_type (record : Record κ) :
    (record.settle family).type = record.type := by
  cases record
  rfl

theorem settleSlot_of_skips {slot : Option (FieldValue κ)} (hskips : bound.skips slot = true)
    (family : Family κ) : settleSlot family bound slot = none := by
  cases slot with
  | none => rfl
  | some value => simp [settleSlot, hskips]

theorem settleSlot_of_list {bound : BoundField κ} {records : List (Record κ)}
    (hskips : bound.skips (some (.list records)) = false) :
    settleSlot family bound (some (.list records)) =
      some (.list (settleRecords family records)) := by
  simp [settleSlot, hskips, BoundField.isSilent, settleValue]

theorem settleSlot_of_scalar {bound : BoundField κ} {value : Scalar}
    (hwritten : bound.written? value = some value)
    (htext : bound.field.isText = true → value.text ≠ "") :
    settleSlot family bound (some (.scalar value)) = some (.scalar value) := by
  simpa [settleSlot, BoundField.skips, BoundField.isSilent, settleValue, hwritten] using htext

theorem settleSlot_of_silent {bound : BoundField κ} {slot : Option (FieldValue κ)}
    (hsilent : bound.isSilent slot = true) : settleSlot family bound slot = none := by
  cases slot with
  | none => rfl
  | some value => simp [settleSlot, hsilent]

theorem settleSlot_of_element (bound : BoundField κ) (record : Record κ) :
    settleSlot family bound (some (.element record)) =
      some (.element (record.settle family)) := rfl

theorem settleSlot_of_overflow (bound : BoundField κ) {other : OtherAttributes}
    (hleft : other.isEmpty = false) :
    settleSlot family bound (some (.overflow other)) = some (.overflow other) := by
  simp [settleSlot, BoundField.skips, BoundField.isSilent, settleValue, hleft]

/-- A field that writes all it holds, and no text, loses nothing. -/
theorem settleSlot_attribute (homits : bound.omitsDefault = false)
    (htext : bound.field.isText = false) (value : Scalar) :
    settleSlot family bound (some (.scalar value)) = some (.scalar value) :=
  settleSlot_of_scalar (by simp [BoundField.written?, homits]) (by simp [htext])

theorem zip_settleSlots (fields : List (BoundField κ)) (slots : List (Option (FieldValue κ))) :
    fields.zip (settleSlots family fields slots) =
      (fields.zip slots).map fun pair => (pair.1, settleSlot family pair.1 pair.2) := by
  induction fields generalizing slots with
  | nil => rfl
  | cons bound rest ih =>
      cases slots with
      | nil => rfl
      | cons slot slots => rw [settleSlots, List.zip_cons_cons, ih]; rfl

theorem settleSlots_eq_map {ρ : Type} (rows : List ρ) (f : ρ → BoundField κ)
    (g : ρ → Option (FieldValue κ)) :
    settleSlots family (rows.map f) (rows.map g) =
      rows.map fun row => settleSlot family (f row) (g row) := by
  induction rows with
  | nil => rfl
  | cons row rest ih => rw [List.map_cons, List.map_cons, settleSlots, ih, List.map_cons]

/-- The members that are left are those there were, settled. -/
theorem mem_slotMembers_settleSlot {slot : Option (FieldValue κ)} {member : Record κ}
    (hmember : member ∈ slotMembers (settleSlot family bound slot)) :
    ∃ inner ∈ slotMembers slot, member = inner.settle family := by
  cases slot with
  | none => exact absurd hmember List.not_mem_nil
  | some value =>
      rw [settleSlot] at hmember
      split at hmember
      · exact absurd hmember List.not_mem_nil
      · cases value with
        | scalar value => exact absurd hmember List.not_mem_nil
        | overflow other => exact absurd hmember List.not_mem_nil
        | element record => exact ⟨record, List.mem_singleton_self _, by
            simpa [settleValue, slotMembers] using hmember⟩
        | list records =>
            simp only [settleValue, slotMembers, settleRecords_eq_map] at hmember
            obtain ⟨inner, hinner, rfl⟩ := List.mem_map.mp hmember
            exact ⟨inner, hinner, rfl⟩

theorem mem_slotEntries_settleSlot {slot : Option (FieldValue κ)} {entry : QName × String}
    (hentry : entry ∈ slotEntries (settleSlot family bound slot)) : entry ∈ slotEntries slot := by
  cases slot with
  | none => exact hentry
  | some value =>
      rw [settleSlot] at hentry
      split at hentry
      · exact absurd hentry List.not_mem_nil
      · cases value <;> exact hentry

end Settle

end Epub.Binding
