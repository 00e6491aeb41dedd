/-
Slots of models: what a field of a model makes of its slot is what the field was, and
what it makes of a slot is the slot again.
-/
import Epub.Model.Conversion
import Epub.Proofs.Binding.Unambiguous

namespace Epub

namespace Binding

open Epub.Schema Epub.Xml

variable {κ : Type}

/-- The text in a slot. -/
def slotText? : Option (FieldValue κ) → Option String
  | some (.scalar value) => some value.text
  | _ => none

/-- The element in a slot. -/
def slotElement? : Option (FieldValue κ) → Option (Record κ)
  | some (.element record) => some record
  | _ => none

/-- The list in a slot. -/
def slotList : Option (FieldValue κ) → List (Record κ)
  | some (.list records) => records
  | _ => []

/-- A slot that is settled for its field: it holds what the field may hold, and is
empty only if the field may be absent. -/
structure BoundField.Filled (family : Family κ) (bound : BoundField κ)
    (slot : Option (FieldValue κ)) : Prop where
  carries : bound.Carries slot
  default : settleSlot family bound slot = none → bound.field.hasDefault = true

end Binding

namespace Model

open Epub.Binding Epub.Schema Epub.Xml

section Parts

variable (s : Option String) (direction : Option Direction)

@[simp] theorem slotEntries_string (s : String) : slotEntries (Slot.string s) = [] := rfl

@[simp] theorem slotEntries_overflow (other : OtherAttributes) :
    slotEntries (some (.overflow other) : Slot) = other.entries := rfl

@[simp] theorem Slot.string?_eq_none : Slot.string? s = none ↔ s = none := by
  cases s <;> simp [Slot.string?, Slot.string]

@[simp] theorem slotMembers_none : slotMembers (none : Slot) = [] := rfl

@[simp] theorem slotMembers_string (s : String) : slotMembers (Slot.string s) = [] := rfl

@[simp] theorem slotMembers_keyword (word : String) : slotMembers (Slot.keyword word) = [] := rfl

@[simp] theorem slotMembers_element (record : ElementRecord) :
    slotMembers (Slot.element record) = [record] := rfl

@[simp] theorem slotMembers_list (records : List ElementRecord) :
    slotMembers (Slot.list records) = records := rfl

@[simp] theorem slotMembers_overflow (other : OtherAttributes) :
    slotMembers (some (.overflow other) : Slot) = [] := rfl

@[simp] theorem slotEntries_string? : slotEntries (Slot.string? s) = [] := by
  cases s <;> rfl

@[simp] theorem slotMembers_string? : slotMembers (Slot.string? s) = [] := by
  cases s <;> rfl

@[simp] theorem slotEntries_direction? : slotEntries (Slot.direction? direction) = [] := by
  cases direction <;> rfl

@[simp] theorem slotMembers_direction? : slotMembers (Slot.direction? direction) = [] := by
  cases direction <;> rfl

end Parts

section Read

variable (bound : BoundField ElementType)

/-- A text is read back, and one that has been left out is read as an empty one. -/
theorem slotText?_settle_string (s : String) :
    (slotText? (settleSlot family bound (Slot.string s))).getD "" = s := by
  by_cases hempty : s = ""
  · subst hempty
    rw [Slot.string, settleSlot]
    split <;> rfl
  · have hkept : settleSlot family bound (Slot.string s) = Slot.string s := by
      refine settleSlot_of_scalar ?_ fun _ => hempty
      simp [BoundField.written?, Scalar.isDefault, hempty]
    rw [hkept]
    rfl

variable {bound}

theorem settleSlot_string? (homits : bound.omitsDefault = false)
    (htext : bound.field.isText = false) (s : Option String) :
    settleSlot family bound (Slot.string? s) = Slot.string? s := by
  cases s with
  | none => rfl
  | some s => exact settleSlot_attribute homits htext (.string s)

theorem settleSlot_direction? (direction : Option Direction) :
    settleSlot family directionField (Slot.direction? direction) =
      Slot.direction? direction := by
  cases direction <;> rfl

@[simp] theorem slotText?_string? (s : Option String) : slotText? (Slot.string? s) = s := by
  cases s <;> rfl

@[simp] theorem slotText?_direction? (direction : Option Direction) :
    (slotText? (Slot.direction? direction)).bind Direction.ofWord? = direction := by
  cases direction with
  | none => rfl
  | some direction => exact direction.ofWord_word

theorem slotText?_settle_linear (linear : Linear) :
    ((slotText? (settleSlot family linearField (Slot.keyword linear.word))).bind
      Linear.ofWord?).getD .yes = linear := by
  cases linear <;> decide +kernel

variable (bound)

@[simp] theorem slotElement?_settle_element (record : ElementRecord) :
    slotElement? (settleSlot family bound (Slot.element record)) =
      some (record.settle family) := by
  rw [Slot.element, settleSlot_of_element]
  rfl

@[simp] theorem slotList_settle_list (records : List ElementRecord) :
    slotList (settleSlot family bound (Slot.list records)) =
      records.map (Record.settle family) := by
  rw [Slot.list, settleSlot]
  split
  · rename_i hlost
    have hempty : records = [] := by
      simp only [BoundField.skips, BoundField.isSilent, Bool.or_false, Bool.and_eq_true] at hlost
      exact List.isEmpty_iff.mp hlost.1
    rw [hempty]
    rfl
  · rw [settleValue, settleRecords_eq_map]
    rfl

@[simp] theorem slotOther_settle_overflow (other : OtherAttributes) :
    slotOther (settleSlot family bound (some (.overflow other))) = other := by
  rw [settleSlot]
  split
  · rename_i hlost
    have hempty : other.entries = [] := by
      simp only [BoundField.skips, BoundField.isSilent, Bool.or_false] at hlost
      exact List.isEmpty_iff.mp hlost
    exact SortedMap.ext_entries hempty.symm
  · rfl

end Read

section Write

variable {bound : BoundField ElementType} {slot : Slot}

theorem carries_string (hkind : bound.field.kind = .value) (hscalar : bound.scalar = .string)
    (s : String) : bound.Carries (Slot.string s) := by
  simp [BoundField.Carries, Slot.string, hkind, hscalar, ScalarType.Holds]

theorem carries_string? (hkind : bound.field.kind = .value) (hscalar : bound.scalar = .string)
    (s : Option String) : bound.Carries (Slot.string? s) := by
  cases s with
  | none => trivial
  | some s => exact carries_string hkind hscalar s

theorem carries_direction? (direction : Option Direction) :
    directionField.Carries (Slot.direction? direction) := by
  cases direction with
  | none => trivial
  | some direction =>
      change direction.word ∈ Direction.keywords.words
      cases direction <;> decide

theorem carries_linear (linear : Linear) : linearField.Carries (Slot.keyword linear.word) := by
  change linear.word ∈ Linear.keywords.words
  cases linear <;> decide

theorem carries_pageProgression? (progression : Option PageProgression) :
    pageProgressionField.Carries
      (progression.bind fun progression => Slot.keyword progression.word) := by
  cases progression with
  | none => trivial
  | some progression =>
      change progression.word ∈ PageProgression.keywords.words
      cases progression <;> decide

theorem carries_element {type : ElementType} (hkind : bound.field.kind = .element type)
    {record : ElementRecord} (htype : record.type = type) :
    bound.Carries (Slot.element record) := by
  simp [BoundField.Carries, Slot.element, hkind, htype]

theorem carries_list {type : ElementType} (hkind : bound.field.kind = .list type)
    {records : List ElementRecord} (htypes : ∀ record ∈ records, record.type = type) :
    bound.Carries (Slot.list records) := by
  simpa [BoundField.Carries, Slot.list, hkind] using htypes

/-- What a slot of a string holds is a string. -/
theorem string?_slotText? (hcarries : bound.Carries slot) (hkind : bound.field.kind = .value)
    (hscalar : bound.scalar = .string) : Slot.string? (slotText? slot) = slot := by
  cases slot with
  | none => rfl
  | some value =>
      cases value with
      | scalar value =>
          cases value <;> simp [BoundField.Carries, hkind, hscalar, ScalarType.Holds] at hcarries
          rfl
      | _ => simp [BoundField.Carries, hkind] at hcarries

/-- A string that is there, or may be left out when it is empty, is written as it was. -/
theorem settle_string (hfilled : bound.Filled family slot) (hkind : bound.field.kind = .value)
    (hscalar : bound.scalar = .string)
    (habsent : bound.field.hasDefault = true → bound.field.isText = true) :
    settleSlot family bound (Slot.string ((slotText? slot).getD "")) =
      settleSlot family bound slot := by
  cases hslot : slotText? slot with
  | some s =>
      have hsame := string?_slotText? hfilled.carries hkind hscalar
      rw [hslot] at hsame
      rw [← hsame]
      rfl
  | none =>
      have hsame := string?_slotText? hfilled.carries hkind hscalar
      rw [hslot] at hsame
      subst hsame
      have htext := habsent (hfilled.default rfl)
      simp [Slot.string, settleSlot, BoundField.isSilent, htext, Scalar.text, Slot.string?]

/-- The word of a keyword is one of its type. -/
theorem exists_word {keywords : Keywords} (hcarries : bound.Carries slot)
    (hkind : bound.field.kind = .value) (hscalar : bound.scalar = .keyword keywords) :
    slot = none ∨ ∃ word ∈ keywords.words, slot = Slot.keyword word := by
  cases slot with
  | none => exact Or.inl rfl
  | some value =>
      cases value with
      | scalar value =>
          cases value with
          | keyword word =>
              simp only [BoundField.Carries, hkind, hscalar, ScalarType.Holds] at hcarries
              exact Or.inr ⟨word, hcarries, rfl⟩
          | _ => simp [BoundField.Carries, hkind, hscalar, ScalarType.Holds] at hcarries
      | _ => simp [BoundField.Carries, hkind] at hcarries

theorem direction?_slotText? (hcarries : directionField.Carries slot) :
    Slot.direction? ((slotText? slot).bind Direction.ofWord?) = slot := by
  rcases exists_word hcarries rfl rfl with rfl | ⟨word, hword, rfl⟩
  · rfl
  · obtain ⟨direction, _, rfl⟩ := List.mem_map.mp hword
    change Slot.direction? (Direction.ofWord? direction.word) = _
    rw [direction.ofWord_word]
    rfl

theorem pageProgression?_slotText?
    (hcarries : pageProgressionField.Carries slot) :
    (((slotText? slot).bind PageProgression.ofWord?).bind fun progression =>
      Slot.keyword progression.word) = slot := by
  rcases exists_word hcarries rfl rfl with rfl | ⟨word, hword, rfl⟩
  · rfl
  · obtain ⟨progression, _, rfl⟩ := List.mem_map.mp hword
    change ((PageProgression.ofWord? progression.word).bind fun progression =>
      Slot.keyword progression.word) = _
    rw [progression.ofWord_word]
    rfl

theorem settle_linear (hcarries : linearField.Carries slot) :
    settleSlot family linearField
        (Slot.keyword (((slotText? slot).bind Linear.ofWord?).getD .yes).word) =
      settleSlot family linearField slot := by
  rcases exists_word hcarries rfl rfl with rfl | ⟨word, hword, rfl⟩
  · rfl
  · obtain ⟨linear, _, rfl⟩ := List.mem_map.mp hword
    change settleSlot family linearField
      (Slot.keyword ((Linear.ofWord? linear.word).getD .yes).word) = _
    rw [linear.ofWord_word]
    rfl

/-- An element that has to be there is written as it was, if its record is. -/
theorem settle_element {α : Type} [Inhabited α] {type : ElementType}
    {toRecord : α → ElementRecord} {ofRecord : ElementRecord → α}
    (hfilled : bound.Filled family slot) (hkind : bound.field.kind = .element type)
    (hrequired : bound.field.hasDefault = false)
    (hmembers : ∀ member ∈ slotMembers slot,
      (toRecord (ofRecord member)).settle family = member.settle family) :
    settleSlot family bound
        (Slot.element (toRecord (((slotElement? slot).map ofRecord).getD default))) =
      settleSlot family bound slot := by
  have hcarries := hfilled.carries
  cases slot with
  | none => exact absurd (hfilled.default rfl) (by simp [hrequired])
  | some value =>
      cases value with
      | element record =>
          have hsame := hmembers record List.mem_cons_self
          simp [Slot.element, slotElement?, settleSlot_of_element, hsame]
      | _ => simp [BoundField.Carries, hkind] at hcarries

theorem settle_element? {α : Type} {type : ElementType}
    {toRecord : α → ElementRecord} {ofRecord : ElementRecord → α}
    (hcarries : bound.Carries slot) (hkind : bound.field.kind = .element type)
    (hmembers : ∀ member ∈ slotMembers slot,
      (toRecord (ofRecord member)).settle family = member.settle family) :
    settleSlot family bound
        (((slotElement? slot).map ofRecord).bind fun a => Slot.element (toRecord a)) =
      settleSlot family bound slot := by
  cases slot with
  | none => rfl
  | some value =>
      cases value with
      | element record =>
          have hsame := hmembers record List.mem_cons_self
          simp [Slot.element, slotElement?, settleSlot_of_element, hsame]
      | _ => simp [BoundField.Carries, hkind] at hcarries

/-- A list is written as it was, if the records of its members are. -/
theorem settle_list {records : List ElementRecord} (hfilled : bound.Filled family slot)
    (hlist : bound.field.kind.isList = true)
    (hmembers : records.map (Record.settle family) =
      (slotList slot).map (Record.settle family)) :
    settleSlot family bound (Slot.list records) = settleSlot family bound slot := by
  have hcarries := hfilled.carries
  cases slot with
  | none =>
      have hempty : records = [] := List.map_eq_nil_iff.mp hmembers
      have hdefault := hfilled.default rfl
      simp [hempty, Slot.list, settleSlot, BoundField.skips, hdefault]
  | some value =>
      cases value with
      | list others =>
          have hempty : records.isEmpty = others.isEmpty := by
            rw [← List.isEmpty_map (f := Record.settle family), hmembers, slotList,
              List.isEmpty_map]
          simp only [slotList] at hmembers
          simp only [Slot.list, settleSlot, BoundField.skips, hempty, BoundField.isSilent,
            settleValue, settleRecords_eq_map, hmembers]
      | scalar value =>
          cases hkind : bound.field.kind <;> simp [BoundField.Carries, hkind] at hcarries
          simp [hkind, FieldKind.isList] at hlist
      | element record =>
          cases hkind : bound.field.kind <;> simp [BoundField.Carries, hkind] at hcarries
          simp [hkind, FieldKind.isList] at hlist
      | overflow other =>
          cases hkind : bound.field.kind <;> simp [BoundField.Carries, hkind] at hcarries
          simp [hkind, FieldKind.isList] at hlist

theorem settle_overflow (hcarries : bound.Carries slot)
    (hkind : bound.field.kind = .overflow) :
    settleSlot family bound (some (.overflow (slotOther slot))) =
      settleSlot family bound slot := by
  cases slot with
  | none => rfl
  | some value =>
      cases value with
      | overflow other => rfl
      | _ => simp [BoundField.Carries, hkind] at hcarries

end Write

end Model

end Epub
