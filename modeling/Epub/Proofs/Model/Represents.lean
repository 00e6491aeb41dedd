/-
Models and their records.  A model is represented by records of its type when each of
its fields keeps what it holds: the record of a model is read as the model, and the
model read off a record has, once settled, the same record.
-/
import Epub.Proofs.Binding.RoundTrip
import Epub.Proofs.Model.Place
import Epub.Proofs.Model.Slot

namespace Epub.Model

open Epub.Binding Epub.Schema Epub.Xml

/-- A record that can stand for an element of the type `key` at its place. -/
structure IsSound (key : ElementType) (record : ElementRecord) : Prop where
  type : record.type = key
  wellTyped : record.WellTyped family
  complete : (record.settle family).Complete family key.place

/-- A model has a sound record for each of its values, and the other way round. -/
structure Represents {α : Type} (key : ElementType) (toRecord : α → ElementRecord)
    (ofRecord : ElementRecord → α) : Prop where
  type : ∀ a, (toRecord a).type = key
  wellTyped : ∀ a, (toRecord a).WellTyped family
  ofRecord_settle : ∀ a, ofRecord ((toRecord a).settle family) = a
  settle_toRecord : ∀ record, IsSound key record →
    (toRecord (ofRecord record)).settle family = record.settle family

/-- A model whose record lacks nothing can be written, and read from what is written. -/
theorem Represents.exists_document {α : Type} {key : ElementType} {toRecord : α → ElementRecord}
    {ofRecord : ElementRecord → α} (hrepresents : Represents key toRecord ofRecord)
    {uri : String} (hrule : (family key).rule = .fixed uri) (hplace : key.place = some uri)
    {a : α} (hcomplete : ((toRecord a).settle family).Complete family key.place) :
    ∃ document : Document, (writeDocument family (toRecord a)).outcome = .ok document ∧
      writeElement family (toRecord a) (family key).name key.place (family key).declarations =
        .ok document.root ∧
      (ofRecord <$> readDocument family key document).outcome = .ok a := by
  have hroot : (family key).rule.effective none = key.place := by
    rw [hrule, hplace]
    rfl
  have hwrites := exists_writeDocument (hrepresents.wellTyped a)
  rw [hrepresents.type, hroot] at hwrites
  obtain ⟨document, hwrite, helement, hread⟩ := hwrites (unambiguous_place key) hcomplete
  refine ⟨document, hwrite, helement, ?_⟩
  rw [Traced.outcome_map, hread, Except.map, hrepresents.ofRecord_settle]

theorem settleSlots_eq_of_forall₂ {fields : List (BoundField ElementType)} {start : Nat}
    {slots : List Slot} {settled : BoundField ElementType × Nat → Slot}
    (hslots : List.Forall₂ (fun pair slot => settleSlot family pair.1 slot = settled pair)
      (fields.zipIdx start) slots) :
    settleSlots family fields slots = (fields.zipIdx start).map settled := by
  induction fields generalizing start slots with
  | nil =>
      cases hslots
      rw [settleSlots, List.zipIdx_nil, List.map_nil]
  | cons bound rest ih =>
      rw [List.zipIdx_cons] at hslots ⊢
      cases hslots with
      | cons hslot hrest => rw [settleSlots, hslot, ih hrest, List.map_cons]

namespace IsSound

variable {key : ElementType} {record : ElementRecord}

theorem slots_length (hsound : IsSound key record) :
    record.slots.length = (fieldsOf key).length := by
  obtain ⟨rfl, htyped, _⟩ := hsound
  cases htyped with
  | mk hslots _ => exact hslots.length_eq.symm

theorem getElem?_slots (hsound : IsSound key record) {index : Nat}
    (hindex : index < (fieldsOf key).length) :
    record.slots[index]? = some (record.slot? index) := by
  have hlt : index < record.slots.length := by
    rw [hsound.slots_length]
    exact hindex
  rw [Record.slot?, List.getElem?_eq_getElem hlt]
  rfl

theorem mem_zip (hsound : IsSound key record) {index : Nat} {bound : BoundField ElementType}
    (hbound : (fieldsOf key)[index]? = some bound) :
    (bound, record.slot? index) ∈ (fieldsOf key).zip record.slots := by
  rw [List.mem_iff_getElem?]
  refine ⟨index, List.getElem?_zip_eq_some.mpr ⟨hbound, ?_⟩⟩
  exact hsound.getElem?_slots (List.getElem?_eq_some_iff.mp hbound).1

/-- Each slot of a sound record is filled as its field asks. -/
theorem filled (hsound : IsSound key record) (index : Nat) {bound : BoundField ElementType}
    (hbound : (fieldsOf key)[index]? = some bound) :
    bound.Filled family (record.slot? index) := by
  have hpair := hsound.mem_zip hbound
  obtain ⟨rfl, htyped, hcomplete⟩ := hsound
  cases htyped with
  | @mk key slots hslots _ =>
      refine ⟨List.forall₂_zip hslots hpair, ?_⟩
      rw [Record.settle] at hcomplete
      cases hcomplete with
      | mk hdefault _ _ =>
          rw [zip_settleSlots] at hdefault
          exact hdefault _ (List.mem_map_of_mem hpair)

/-- The members of a sound record are sound. -/
theorem member (hsound : IsSound key record) (index : Nat) {bound : BoundField ElementType}
    (hbound : (fieldsOf key)[index]? = some bound) :
    ∀ member ∈ slotMembers (record.slot? index), IsSound member.type member := by
  intro member hmember
  have hpair := hsound.mem_zip hbound
  have hcarries := (hsound.filled index hbound).carries
  obtain ⟨rfl, htyped, hcomplete⟩ := hsound
  cases htyped with
  | @mk key slots _ hmembers =>
      refine ⟨rfl, hmembers _ (List.of_mem_zip hpair).2 member hmember, ?_⟩
      have hinner := hcomplete.member hpair hmember
      have hplace := memberName_place key key.mem_all bound (List.of_mem_zip hpair).1 member.type
        (hcarries.type_mem hmember)
      rwa [← hplace]

/-- A record whose slots are those of a sound one, once settled, is that record. -/
theorem settle_eq (hsound : IsSound key record) {other : ElementRecord}
    (htype : other.type = key)
    (hslots : List.Forall₂ (fun pair slot =>
      settleSlot family pair.1 slot = settleSlot family pair.1 (record.slot? pair.2))
      (fieldsOf key).zipIdx other.slots) : other.settle family = record.settle family := by
  have hown : List.Forall₂ (fun pair slot =>
      settleSlot family pair.1 slot = settleSlot family pair.1 (record.slot? pair.2))
      (fieldsOf key).zipIdx record.slots := by
    refine List.forall₂_iff_get.mpr ⟨by simp [hsound.slots_length], fun index hindex hslot => ?_⟩
    have hget := hsound.getElem?_slots (by simpa using hindex)
    rw [List.getElem?_eq_getElem hslot, Option.some_inj] at hget
    simp [hget]
  obtain ⟨rfl, _, _⟩ := hsound
  obtain ⟨key, slots⟩ := record
  obtain ⟨_, others⟩ := other
  obtain rfl : _ = key := htype
  rw [Record.settle, Record.settle]
  congr 1
  exact (settleSlots_eq_of_forall₂ hslots).trans (settleSlots_eq_of_forall₂ hown).symm

end IsSound

/-- Whether a slot holds what its field may hold, and only well-typed records. -/
def Fits (bound : BoundField ElementType) (slot : Slot) : Prop :=
  bound.Carries slot ∧ ∀ member ∈ slotMembers slot, member.WellTyped family

/-- Whether a slot stands in a sound record. -/
def Stands (bound : BoundField ElementType) (slot : Slot) : Prop :=
  bound.Filled family slot ∧ ∀ member ∈ slotMembers slot, IsSound member.type member

/-- A field that keeps what it holds: what is written of a value is read as the value,
and what is read off a slot is written as the slot was. -/
structure Keeps {α : Type} (bound : BoundField ElementType) (write : α → Slot)
    (read : Slot → α) : Prop where
  fits : ∀ a, Fits bound (write a)
  read_settle : ∀ a, read (settleSlot family bound (write a)) = a
  settle_write : ∀ slot, Stands bound slot →
    settleSlot family bound (write (read slot)) = settleSlot family bound slot

/-- Fields that keep what they hold, the first of them at the index `start`. -/
structure KeepsAll {α : Type} (fields : List (BoundField ElementType)) (start : Nat)
    (write : α → List Slot) (read : (Nat → Slot) → α) : Prop where
  fits : ∀ a, List.Forall₂ Fits fields (write a)
  read_settle : ∀ a slot?,
    (∀ index, slot? (start + index) = (settleSlots family fields (write a))[index]?.join) →
      read slot? = a
  settle_write : ∀ slot?, (∀ pair ∈ fields.zipIdx start, Stands pair.1 (slot? pair.2)) →
    List.Forall₂ (fun pair slot =>
      settleSlot family pair.1 slot = settleSlot family pair.1 (slot? pair.2))
      (fields.zipIdx start) (write (read slot?))

theorem KeepsAll.nil (start : Nat) :
    KeepsAll [] start (fun _ : Unit => []) (fun _ => ()) :=
  ⟨fun _ => .nil, fun _ _ _ => rfl, fun _ _ => .nil⟩

theorem KeepsAll.cons {α β : Type} {bound : BoundField ElementType}
    {fields : List (BoundField ElementType)} {start : Nat} {write : α → Slot}
    {read : Slot → α} {writeRest : β → List Slot} {readRest : (Nat → Slot) → β}
    (hfirst : Keeps bound write read)
    (hrest : KeepsAll fields (start + 1) writeRest readRest) :
    KeepsAll (bound :: fields) start (fun pair : α × β => write pair.1 :: writeRest pair.2)
      (fun slot? => (read (slot? start), readRest slot?)) := by
  refine ⟨fun pair => .cons (hfirst.fits pair.1) (hrest.fits pair.2), ?_, ?_⟩
  · rintro ⟨a, b⟩ slot? hslot
    have hhead : slot? start = settleSlot family bound (write a) := by
      rw [← Nat.add_zero start, hslot, settleSlots]
      rfl
    have htail : readRest slot? = b := by
      refine hrest.read_settle b slot? fun index => ?_
      rw [Nat.add_assoc, Nat.add_comm 1, hslot, settleSlots, List.getElem?_cons_succ]
    rw [hhead, hfirst.read_settle, htail]
  · intro slot? hstands
    rw [List.zipIdx_cons] at hstands ⊢
    obtain ⟨hhead, htail⟩ := List.forall_mem_cons.mp hstands
    exact .cons (hfirst.settle_write _ hhead) (hrest.settle_write slot? htail)

theorem wellTyped_of_fits {key : ElementType} {slots : List Slot}
    (hfits : List.Forall₂ Fits (fieldsOf key) slots) :
    (Record.mk key slots).WellTyped family := by
  refine .mk (hfits.imp fun _ _ hfits => hfits.1) fun slot hslot => ?_
  obtain ⟨_, _, hfits⟩ := exists_of_forall₂ hfits.flip hslot
  exact hfits.2

theorem IsSound.stands {key : ElementType} {record : ElementRecord}
    (hsound : IsSound key record) (index : Nat) {bound : BoundField ElementType}
    (hbound : (fieldsOf key)[index]? = some bound) : Stands bound (record.slot? index) :=
  ⟨hsound.filled index hbound, hsound.member index hbound⟩

/-- A model represents its type when its fields, taken together, keep what they hold. -/
theorem represents_of_fields {α τ : Type} {key : ElementType} {toRecord : α → ElementRecord}
    {ofRecord : ElementRecord → α} {write : τ → List Slot} {read : (Nat → Slot) → τ}
    (hfields : KeepsAll (fieldsOf key) 0 write read) (pack : α → τ) (unpack : τ → α)
    (hpack : ∀ t, pack (unpack t) = t) (hunpack : ∀ a, unpack (pack a) = a)
    (hto : ∀ a, toRecord a = .mk key (write (pack a)))
    (hof : ∀ record, ofRecord record = unpack (read record.slot?)) :
    Represents key toRecord ofRecord := by
  constructor
  · intro a
    rw [hto]
    rfl
  · intro a
    rw [hto]
    exact wellTyped_of_fits (hfields.fits (pack a))
  · intro a
    rw [hof, hto]
    refine (congrArg unpack (hfields.read_settle (pack a) _ fun index => ?_)).trans (hunpack a)
    rw [Nat.zero_add, Record.slot?]
    rfl
  · intro record hsound
    refine hsound.settle_eq (by rw [hto]; rfl) ?_
    rw [hto, hof, hpack]
    refine hfields.settle_write record.slot? fun pair hpair => ?_
    exact hsound.stands pair.2 (List.mem_zipIdx_iff_getElem?.mp hpair)

namespace Keeps

variable {bound : BoundField ElementType}

theorem fits_of_scalar {slot : Slot} (hcarries : bound.Carries slot)
    (hscalar : slotMembers slot = []) : Fits bound slot :=
  ⟨hcarries, by simp [hscalar]⟩

/-- A string that may be absent. -/
theorem string? (hkind : bound.field.kind = .value) (hscalar : bound.scalar = .string)
    (homits : bound.omitsDefault = false) (htext : bound.field.isText = false) :
    Keeps bound Slot.string? slotText? := by
  refine ⟨fun s => fits_of_scalar (carries_string? hkind hscalar s) (slotMembers_string? s),
    fun s => ?_, fun slot hstands => ?_⟩
  · rw [settleSlot_string? homits htext, slotText?_string?]
  · rw [string?_slotText? hstands.1.carries hkind hscalar]

/-- A string that is there, or is a text and may be left out when it is empty. -/
theorem string (hkind : bound.field.kind = .value) (hscalar : bound.scalar = .string)
    (habsent : bound.field.hasDefault = true → bound.field.isText = true) :
    Keeps bound Slot.string fun slot => (slotText? slot).getD "" :=
  ⟨fun s => fits_of_scalar (carries_string hkind hscalar s) rfl, slotText?_settle_string bound,
    fun _ hstands => settle_string hstands.1 hkind hscalar habsent⟩

/-- A string that has to be there, so what is read in its absence does not matter. -/
theorem required (hkind : bound.field.kind = .value) (hscalar : bound.scalar = .string)
    (homits : bound.omitsDefault = false) (htext : bound.field.isText = false)
    (hrequired : bound.field.hasDefault = false) (absent : String) :
    Keeps bound Slot.string fun slot => (slotText? slot).getD absent := by
  refine ⟨fun s => fits_of_scalar (carries_string hkind hscalar s) rfl, fun s => ?_,
    fun slot hstands => ?_⟩
  · rw [Slot.string, settleSlot_attribute homits htext]
    rfl
  · have hsame := string?_slotText? hstands.1.carries hkind hscalar
    cases htext : slotText? slot with
    | some s =>
        rw [htext] at hsame
        rw [← hsame]
        rfl
    | none =>
        rw [htext] at hsame
        subst hsame
        have hdefault := hstands.1.default rfl
        rw [hrequired] at hdefault
        contradiction

theorem direction : Keeps directionField Slot.direction?
    fun slot => (slotText? slot).bind Direction.ofWord? := by
  refine ⟨fun d => fits_of_scalar (carries_direction? d) (slotMembers_direction? d), fun d => ?_,
    fun slot hstands => ?_⟩
  · rw [settleSlot_direction?, slotText?_direction?]
  · rw [direction?_slotText? hstands.1.carries]

theorem linear : Keeps linearField (fun linear => Slot.keyword linear.word)
    fun slot => ((slotText? slot).bind Linear.ofWord?).getD .yes :=
  ⟨fun l => fits_of_scalar (carries_linear l) rfl, slotText?_settle_linear,
    fun _ hstands => settle_linear hstands.1.carries⟩

theorem pageProgression :
    Keeps pageProgressionField
      (fun progression => progression.bind fun progression => Slot.keyword progression.word)
      fun slot => (slotText? slot).bind PageProgression.ofWord? := by
  refine ⟨fun p => fits_of_scalar (carries_pageProgression? p) (by cases p <;> rfl), fun p => ?_,
    fun slot hstands => ?_⟩
  · cases p with
    | none => rfl
    | some p => exact p.ofWord_word
  · rw [pageProgression?_slotText? hstands.1.carries]

theorem overflow (hkind : bound.field.kind = .overflow) :
    Keeps bound (fun other => some (.overflow other)) slotOther :=
  ⟨fun other => fits_of_scalar (by simp [BoundField.Carries, hkind]) rfl,
    slotOther_settle_overflow bound, fun _ hstands => settle_overflow hstands.1.carries hkind⟩

theorem mem_slotMembers_of_mem_slotList {slot : Slot} {member : ElementRecord}
    (hmember : member ∈ slotList slot) : member ∈ slotMembers slot := by
  cases slot with
  | none => exact absurd hmember List.not_mem_nil
  | some value =>
      cases value with
      | list records => exact hmember
      | _ => exact absurd hmember List.not_mem_nil

variable {α : Type} {type : ElementType} {toRecord : α → ElementRecord}
  {ofRecord : ElementRecord → α}

/-- The members of a slot of one type are those of which the model is read off. -/
theorem settle_member (hmodel : Represents type toRecord ofRecord) {slot : Slot}
    (hstands : Stands bound slot) (htypes : bound.field.kind.types = [type]) :
    ∀ member ∈ slotMembers slot,
      (toRecord (ofRecord member)).settle family = member.settle family := by
  intro member hmember
  have htype := hstands.1.carries.type_mem hmember
  rw [htypes, List.mem_singleton] at htype
  exact hmodel.settle_toRecord member (htype ▸ hstands.2 member hmember)

/-- Elements of one type. -/
theorem list (hmodel : Represents type toRecord ofRecord)
    (hkind : bound.field.kind = .list type) :
    Keeps bound (fun models => Slot.list (models.map toRecord))
      fun slot => (slotList slot).map ofRecord := by
  refine ⟨fun models => ⟨carries_list hkind ?_, ?_⟩, fun models => ?_, fun slot hstands => ?_⟩
  · simp [hmodel.type]
  · simp [slotMembers, Slot.list, hmodel.wellTyped]
  · rw [slotList_settle_list, List.map_map, List.map_map, List.map_congr_left, List.map_id]
    exact fun model _ => hmodel.ofRecord_settle model
  · refine settle_list hstands.1 (by rw [hkind]; rfl) ?_
    rw [List.map_map, List.map_map, List.map_congr_left]
    exact fun member hmember => settle_member hmodel hstands (by rw [hkind]; rfl) member
      (mem_slotMembers_of_mem_slotList hmember)

/-- An element that has to be there. -/
theorem element [Inhabited α] (hmodel : Represents type toRecord ofRecord)
    (hkind : bound.field.kind = .element type) (hrequired : bound.field.hasDefault = false) :
    Keeps bound (fun model => Slot.element (toRecord model))
      fun slot => ((slotElement? slot).map ofRecord).getD default := by
  refine ⟨fun model => ⟨carries_element hkind (hmodel.type model), ?_⟩, fun model => ?_,
    fun slot hstands => settle_element hstands.1 hkind hrequired
      (settle_member hmodel hstands (by rw [hkind]; rfl))⟩
  · simp [slotMembers, Slot.element, hmodel.wellTyped]
  · rw [slotElement?_settle_element]
    exact hmodel.ofRecord_settle model

/-- An element that may be absent. -/
theorem element? (hmodel : Represents type toRecord ofRecord)
    (hkind : bound.field.kind = .element type) :
    Keeps bound (fun model => model.bind fun model => Slot.element (toRecord model))
      fun slot => (slotElement? slot).map ofRecord := by
  refine ⟨fun model => ?_, fun model => ?_,
    fun slot hstands => settle_element? hstands.1.carries hkind
      (settle_member hmodel hstands (by rw [hkind]; rfl))⟩
  · cases model with
    | none => exact ⟨trivial, by simp [slotMembers]⟩
    | some model =>
        refine ⟨carries_element hkind (hmodel.type model), ?_⟩
        simp [slotMembers, Slot.element, hmodel.wellTyped]
  · cases model with
    | none => rfl
    | some model =>
        rw [Option.bind_some, slotElement?_settle_element, Option.map_some,
          hmodel.ofRecord_settle]

end Keeps

end Epub.Model
