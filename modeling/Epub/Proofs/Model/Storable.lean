/-
Storable records: those of which nothing is lost in a document.  Whether a record can be
stored is seen from its slots, one by one.
-/
import Epub.Proofs.Model.Sound

namespace Epub.Model

open Epub.Binding Epub.Schema Epub.Text Epub.Xml

/-- A record that can be stored where an element of its type stands: nothing of it is
missing, and all of it can be written. -/
structure IsStorable (record : ElementRecord) : Prop where
  complete : (record.settle family).Complete family record.type.place
  legible : record.IsLegible family

/-- Whether a slot of a field can be stored. -/
structure Lasts (bound : BoundField ElementType) (slot : Slot) : Prop where
  default : settleSlot family bound slot = none → bound.field.hasDefault = true
  shows : bound.field.isText = true → ∀ value, slot = some (.scalar value) →
    value.text = "" ∨ isBlankText value.text = false
  other : ∀ entry ∈ slotEntries slot, entry.1.IsAttributeName
  members : ∀ member ∈ slotMembers slot, IsStorable member

section Storable

variable {key : ElementType} {slots : List Slot}

/-- A record can be stored if its slots can, and leftover attributes are told apart. -/
theorem isStorable_of_lasts (htyped : (Record.mk key slots).WellTyped family)
    (hlasts : List.Forall₂ Lasts (fieldsOf key) slots)
    (hapart : ∀ slot ∈ slots, ∀ entry ∈ slotEntries slot,
      IsApart key.place ((fieldsOf key).zip (settleSlots family (fieldsOf key) slots))
        (entryAttribute entry)) : IsStorable (.mk key slots) := by
  have hslot : ∀ slot ∈ slots, ∃ bound, Lasts bound slot := by
    intro slot hslot
    obtain ⟨bound, _, hbound⟩ := exists_of_forall₂ hlasts.flip hslot
    exact ⟨bound, hbound⟩
  cases htyped with
  | mk hcarries hmembers =>
      constructor
      · refine (isSound_mk_iff.mpr ⟨List.forall₂_iff_zip.mpr ⟨hlasts.length_eq, ?_⟩, ?_⟩).complete
        · intro bound slot hpair
          have hlast := List.forall₂_zip hlasts hpair
          refine ⟨⟨List.forall₂_zip hcarries hpair, hlast.default⟩, fun member hmember => ?_⟩
          exact ⟨rfl, hmembers slot (List.of_mem_zip hpair).2 member hmember,
            (hlast.members member hmember).complete⟩
        · rw [AreApart, zip_settleSlots]
          rw [zip_settleSlots] at hapart
          intro row hrow entry hentry
          obtain ⟨pair, hpair, rfl⟩ := List.mem_map.mp hrow
          exact hapart pair.2 (List.of_mem_zip hpair).2 entry (mem_slotEntries_settleSlot hentry)
      · refine .mk ?_ ?_ ?_
        · exact fun row hrow => (List.forall₂_zip hlasts hrow).shows
        · intro slot hmem
          obtain ⟨_, hbound⟩ := hslot slot hmem
          exact hbound.other
        · intro slot hmem member hmember
          obtain ⟨_, hbound⟩ := hslot slot hmem
          exact (hbound.members member hmember).legible

/-- Where no field takes leftover attributes, there are none to be told apart. -/
theorem isStorable_of_plain (htyped : (Record.mk key slots).WellTyped family)
    (hplain : ∀ bound ∈ fieldsOf key, bound.field.kind ≠ .overflow)
    (hlasts : List.Forall₂ Lasts (fieldsOf key) slots) : IsStorable (.mk key slots) := by
  refine isStorable_of_lasts htyped hlasts fun slot hslot entry hentry => ?_
  cases htyped with
  | mk hcarries _ =>
      obtain ⟨bound, hbound, hcarries⟩ := exists_of_forall₂ hcarries.flip hslot
      rw [slotEntries_eq_nil hcarries (hplain bound hbound)] at hentry
      exact absurd hentry List.not_mem_nil

/-- A record that can be stored is sound. -/
theorem IsStorable.isSound {record : ElementRecord} (hstorable : IsStorable record)
    (htyped : record.WellTyped family) : IsSound record.type record :=
  ⟨rfl, htyped, hstorable.complete⟩

end Storable

namespace Lasts

variable {bound : BoundField ElementType} {slot : Slot}

/-- What is no text, may be absent and holds no elements can be stored anyway. -/
theorem optional (hdefault : bound.field.hasDefault = true) (htext : bound.field.isText = false)
    (hother : slotEntries slot = []) (hmembers : slotMembers slot = []) : Lasts bound slot :=
  ⟨fun _ => hdefault, by simp [htext], by simp [hother], by simp [hmembers]⟩

theorem string? (hdefault : bound.field.hasDefault = true) (htext : bound.field.isText = false)
    (s : Option String) : Lasts bound (Slot.string? s) :=
  optional hdefault htext (slotEntries_string? s) (slotMembers_string? s)

theorem direction? (direction : Option Direction) :
    Lasts directionField (Slot.direction? direction) :=
  optional rfl rfl (slotEntries_direction? direction) (slotMembers_direction? direction)

theorem linear (linear : Linear) : Lasts linearField (Slot.keyword linear.word) :=
  optional rfl rfl rfl rfl

theorem pageProgression? (progression : Option PageProgression) :
    Lasts pageProgressionField
      (progression.bind fun progression => Slot.keyword progression.word) :=
  optional rfl rfl (by cases progression <;> rfl) (by cases progression <;> rfl)

/-- An attribute that has to be there is always written. -/
theorem string (homits : bound.omitsDefault = false) (htext : bound.field.isText = false)
    (s : String) : Lasts bound (Slot.string s) := by
  refine ⟨fun hnone => ?_, by simp [htext], nofun, nofun⟩
  rw [Slot.string, settleSlot_attribute homits htext] at hnone
  contradiction

/-- A text lasts if a character of it shows, or it is empty and may be absent. -/
theorem text {s : String}
    (hshows : bound.field.hasDefault = true ∧ s = "" ∨ isBlankText s = false) :
    Lasts bound (Slot.string s) := by
  refine ⟨fun hnone => ?_, ?_, nofun, nofun⟩
  · rcases hshows with ⟨hdefault, _⟩ | hshows
    · exact hdefault
    · have hsame := slotText?_settle_string bound s
      rw [hnone] at hsame
      rw [← hsame] at hshows
      exact absurd hshows (by decide)
  · rintro _ value hvalue
    obtain rfl : Scalar.string s = value := FieldValue.scalar.inj (Option.some.inj hvalue)
    exact hshows.imp_left And.right

theorem element {record : ElementRecord} (hrecord : IsStorable record) :
    Lasts bound (Slot.element record) := by
  refine ⟨fun hnone => ?_, nofun, nofun, by simpa [slotMembers, Slot.element] using hrecord⟩
  rw [Slot.element, settleSlot_of_element] at hnone
  contradiction

theorem element? {α : Type} {toRecord : α → ElementRecord}
    (hdefault : bound.field.hasDefault = true) {model : Option α}
    (hrecord : ∀ a, model = some a → IsStorable (toRecord a)) :
    Lasts bound (model.bind fun a => Slot.element (toRecord a)) := by
  cases model with
  | none => exact ⟨fun _ => hdefault, nofun, nofun, nofun⟩
  | some a => exact element (hrecord a rfl)

/-- A list lasts if it is not empty, or may be. -/
theorem list {records : List ElementRecord} (hrecords : ∀ record ∈ records, IsStorable record)
    (hnonempty : bound.field.hasDefault = true ∨ records ≠ []) :
    Lasts bound (Slot.list records) :=
  ⟨fun hnone => hnonempty.resolve_right fun hcons => settleSlot_list_ne_none bound hcons hnone,
    nofun, nofun, hrecords⟩

/-- A list in an element of its own lasts anyway: one that has to be there is written even
if it is empty. -/
theorem wrapped {records : List ElementRecord} (hwrapper : bound.field.wrapper.isSome = true)
    (hrecords : ∀ record ∈ records, IsStorable record) : Lasts bound (Slot.list records) := by
  by_cases hdefault : bound.field.hasDefault = true
  · exact list hrecords (Or.inl hdefault)
  · have hkept : bound.skips (some (.list records)) = false := by
      simp [BoundField.skips, hdefault, Option.isNone_eq_false_iff.mpr hwrapper]
    refine ⟨fun hnone => ?_, by simp [Slot.list], by simp [Slot.list, slotEntries], hrecords⟩
    rw [Slot.list, settleSlot_of_list hkept] at hnone
    contradiction

end Lasts

end Epub.Model
