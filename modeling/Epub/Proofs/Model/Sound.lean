/-
Sound records put together.  A record is sound when each slot stands where it is, and the
leftover attributes are told apart from those of the fields; so a slot of a sound record can
be replaced by another one that stands.
-/
import Epub.Proofs.Model.Represents

namespace Epub.Model

open Epub.Binding Epub.Schema Epub.Xml

section Records

variable {key : ElementType} {slots : List Slot} {bound : BoundField ElementType} {slot : Slot}

/-- Whether no field of the type `key` would take a leftover attribute in the slots for one
that is its own. -/
def AreApart (key : ElementType) (slots : List Slot) : Prop :=
  ∀ row ∈ (fieldsOf key).zip slots, ∀ entry ∈ slotEntries row.2,
    IsApart key.place ((fieldsOf key).zip slots) (entryAttribute entry)

theorem isSound_mk_iff : IsSound key (.mk key slots) ↔
    List.Forall₂ Stands (fieldsOf key) slots ∧
      AreApart key (settleSlots family (fieldsOf key) slots) := by
  constructor
  · intro hsound
    refine ⟨List.forall₂_iff_get.mpr ⟨hsound.slots_length.symm, fun index hfield hslot => ?_⟩, ?_⟩
    · have hstands := hsound.stands index (List.getElem?_eq_getElem hfield)
      rwa [Record.slot?, Record.slots, List.getElem?_eq_getElem hslot] at hstands
    · have hcomplete := hsound.complete
      rw [Record.settle] at hcomplete
      cases hcomplete with
      | mk _ hother _ => exact hother
  · rintro ⟨hstands, hapart⟩
    refine ⟨rfl, ?_, ?_⟩
    · refine wellTyped_of_fits (hstands.imp fun _ _ hslot => ⟨hslot.1.carries, ?_⟩)
      exact fun member hmember => (hslot.2 member hmember).wellTyped
    · rw [Record.settle]
      refine .mk ?_ hapart ?_
      · rw [zip_settleSlots]
        intro row hrow
        obtain ⟨pair, hpair, rfl⟩ := List.mem_map.mp hrow
        exact (List.forall₂_zip hstands hpair).1.default
      · rw [zip_settleSlots]
        intro row hrow member hmember
        obtain ⟨pair, hpair, rfl⟩ := List.mem_map.mp hrow
        obtain ⟨inner, hinner, rfl⟩ := mem_slotMembers_settleSlot hmember
        obtain ⟨hfilled, hmembers⟩ := List.forall₂_zip hstands hpair
        have hplace := memberName_place key key.mem_all pair.1 (List.of_mem_zip hpair).1
          inner.type (hfilled.carries.type_mem hinner)
        rw [settle_type]
        change Record.Complete family (memberName family pair.1.field key.place inner.type).ns _
        rw [hplace]
        exact (hmembers inner hinner).complete

/-- A slot can be replaced by one that stands there, if it brings no leftover attributes and
its field reads none of those that are there. -/
theorem IsSound.set (hsound : IsSound key (.mk key slots)) (index : Nat)
    (hbound : (fieldsOf key)[index]? = some bound) (hstands : Stands bound slot)
    (hentries : slotEntries slot = [])
    (hunread : ∀ other ∈ slots, ∀ entry ∈ slotEntries other,
      ¬Reads bound.field key.place (entryAttribute entry)) :
    IsSound key (.mk key (slots.set index slot)) := by
  obtain ⟨hslots, hapart⟩ := isSound_mk_iff.mp hsound
  refine isSound_mk_iff.mpr ⟨forall₂_set hslots hbound hstands, ?_⟩
  rw [AreApart, zip_settleSlots] at hapart ⊢
  intro row hrow entry hentry other hother hreads
  obtain ⟨⟨field, held⟩, hpair, rfl⟩ := List.mem_map.mp hrow
  obtain ⟨⟨reader, kept⟩, hreader, rfl⟩ := List.mem_map.mp hother
  have hheld := mem_slotEntries_settleSlot hentry
  -- the attribute stands in one of the other slots
  rcases mem_zip_set hpair with hold | ⟨_, rfl⟩
  · rcases mem_zip_set hreader with hkept | ⟨hsame, _⟩
    · exact hapart _ (List.mem_map_of_mem hold) entry hentry _ (List.mem_map_of_mem hkept) hreads
    · obtain rfl : bound = reader := Option.some.inj (hbound.symm.trans hsame)
      exact absurd hreads (hunread held (List.of_mem_zip hold).2 entry hheld)
  · rw [hentries] at hheld
    exact absurd hheld List.not_mem_nil

/-- Only `meta` keeps attributes besides its own. -/
theorem kind_ne_overflow : ∀ type ∈ ElementType.all, type ≠ .metaInfo →
    ∀ bound ∈ fieldsOf type, bound.field.kind ≠ .overflow := by
  decide +kernel

/-- In any other element than `meta`, a slot can be replaced by each one that stands. -/
theorem IsSound.set_of_plain (hsound : IsSound key (.mk key slots)) (index : Nat)
    (hplain : key ≠ .metaInfo) (hbound : (fieldsOf key)[index]? = some bound)
    (hstands : Stands bound slot) : IsSound key (.mk key (slots.set index slot)) := by
  have hnone : ∀ other ∈ slots, slotEntries other = [] := by
    intro other hother
    obtain ⟨field, hfield, hheld⟩ := exists_of_forall₂ (isSound_mk_iff.mp hsound).1.flip hother
    exact slotEntries_eq_nil hheld.1.carries (kind_ne_overflow key key.mem_all hplain field hfield)
  refine hsound.set index hbound hstands ?_ fun other hother entry hentry => ?_
  · exact slotEntries_eq_nil hstands.1.carries
      (kind_ne_overflow key key.mem_all hplain bound (List.mem_of_getElem? hbound))
  · rw [hnone other hother] at hentry
    exact absurd hentry List.not_mem_nil

end Records

/-- A list that is not empty leaves something behind. -/
theorem settleSlot_list_ne_none {records : List ElementRecord} (bound : BoundField ElementType)
    (hrecords : records ≠ []) : settleSlot family bound (Slot.list records) ≠ none := by
  have hkept : bound.skips (some (.list records)) = false := by
    simp [BoundField.skips, hrecords]
  rw [Slot.list, settleSlot_of_list hkept]
  exact Option.some_ne_none _

namespace Stands

variable {bound : BoundField ElementType}

theorem empty (hdefault : bound.field.hasDefault = true) : Stands bound none :=
  ⟨⟨trivial, fun _ => hdefault⟩, nofun⟩

theorem element {type : ElementType} (hkind : bound.field.kind = .element type)
    {record : ElementRecord} (hsound : IsSound type record) :
    Stands bound (Slot.element record) := by
  refine ⟨⟨carries_element hkind hsound.type, nofun⟩, fun member hmember => ?_⟩
  rw [List.mem_singleton.mp hmember, hsound.type]
  exact hsound

/-- Records stand in a list if they are sound, and there are some or may be none. -/
theorem list {records : List ElementRecord} (hcarries : bound.Carries (Slot.list records))
    (hrecords : ∀ record ∈ records, IsSound record.type record)
    (hnonempty : bound.field.hasDefault = true ∨ records ≠ []) :
    Stands bound (Slot.list records) :=
  ⟨⟨hcarries, fun hnone => hnonempty.resolve_right fun hcons =>
    settleSlot_list_ne_none bound hcons hnone⟩, hrecords⟩

/-- A list that has to be there, and has no element of its own, is not empty. -/
theorem ne_nil {records : List ElementRecord} (hstands : Stands bound (Slot.list records))
    (hrequired : bound.field.hasDefault = false) (hwrapper : bound.field.wrapper = none) :
    records ≠ [] := by
  rintro rfl
  have hdefault := hstands.1.default
    (settleSlot_of_skips (by simp [Slot.list, BoundField.skips, hwrapper]) family)
  rw [hrequired] at hdefault
  contradiction

end Stands

end Epub.Model
