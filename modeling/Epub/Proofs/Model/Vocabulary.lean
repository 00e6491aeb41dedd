/-
Records of the EPUB documents and vocabularies.  The tables say which fields are outside of
a vocabulary; a record keeps to it if those are empty, and if the records inside keep to it.
-/
import Epub.Proofs.Binding.Vocabulary
import Epub.Proofs.Binding.Written
import Epub.Proofs.Model.Total

namespace Epub.Model

open Epub.Binding Epub.Schema Epub.Xml

/-- The resolved name of the elements of a type. -/
def ElementType.key (type : ElementType) : QName :=
  ⟨type.name, type.place⟩

/-- The members of a field are called what the elements of their types are called. -/
theorem memberName_key : ∀ type ∈ ElementType.all, ∀ bound ∈ fieldsOf type,
    ∀ member ∈ bound.field.kind.types,
      (memberName family bound.field type.place member).key = member.key := by
  decide +kernel

/-- Only a container has lists in wrappers. -/
theorem placement_ne_wrappedList : ∀ type ∈ ElementType.all, type ≠ .container →
    ∀ bound ∈ fieldsOf type, bound.field.placement ≠ .wrappedList := by
  decide +kernel

/-- Only `meta` has attributes of any name. -/
theorem eq_metaInfo_of_overflow : ∀ type ∈ ElementType.all, ∀ bound ∈ fieldsOf type,
    bound.field.kind = .overflow → type = .metaInfo := by
  decide +kernel

/-- Whether a record, written as an element of its type, keeps to the vocabulary. -/
def KeepsTo (vocabulary : Vocabulary) (record : ElementRecord) : Prop :=
  vocabulary.Admits family record.type.key record

/-- Whether a field is for an attribute that the vocabulary lacks. -/
def lacks (vocabulary : Vocabulary) (type : ElementType) (bound : BoundField ElementType) : Bool :=
  bound.field.placement = .attr &&
    !vocabulary.hasAttribute type.key ⟨bound.field.tag.name, bound.field.rule.forAttribute⟩

/-- The positions of these fields. -/
def foreign (vocabulary : Vocabulary) (type : ElementType) : List Nat :=
  ((fieldsOf type).zipIdx.filter fun field => lacks vocabulary type field.1).map Prod.snd

section Records

variable {vocabulary : Vocabulary} {record : ElementRecord} {type : ElementType}
  {indices : List Nat}

theorem mem_foreign {index : Nat} : index ∈ foreign vocabulary type ↔
    ∃ bound, (fieldsOf type)[index]? = some bound ∧ lacks vocabulary type bound = true := by
  constructor
  · intro hindex
    obtain ⟨⟨bound, _⟩, hfield, rfl⟩ := List.mem_map.mp hindex
    obtain ⟨hmem, hlacks⟩ := List.mem_filter.mp hfield
    exact ⟨bound, List.mem_zipIdx_iff_getElem?.mp hmem, hlacks⟩
  · rintro ⟨bound, hbound, hlacks⟩
    have hmem : (bound, index) ∈ (fieldsOf type).zipIdx := List.mem_zipIdx_iff_getElem?.mpr hbound
    exact List.mem_map.mpr ⟨(bound, index), List.mem_filter.mpr ⟨hmem, hlacks⟩, rfl⟩

/-- The keys that a field leaves are its own, or those of leftover attributes. -/
theorem mem_keys {bound : BoundField ElementType} {slot : Slot} {key : QName}
    (hkey : key ∈ bound.keys slot) :
    (bound.field.placement = .attr ∧ slot ≠ none ∧
      key = ⟨bound.field.tag.name, bound.field.rule.forAttribute⟩) ∨
    ∃ entry ∈ slotEntries slot, entry.1 = key := by
  cases slot with
  | none => exact absurd hkey List.not_mem_nil
  | some value =>
      cases value with
      | scalar value =>
          rw [BoundField.keys] at hkey
          split at hkey
          · rename_i hwritten
            exact Or.inl ⟨hwritten.1, by simp, List.mem_singleton.mp hkey⟩
          · exact absurd hkey List.not_mem_nil
      | overflow other => exact Or.inr (List.mem_map.mp hkey)
      | element record => exact absurd hkey List.not_mem_nil
      | list records => exact absurd hkey List.not_mem_nil

/-- Each slot of a well-typed record stands beside a field that may hold it. -/
theorem exists_field (htyped : record.WellTyped family) {slot : Slot}
    (hslot : slot ∈ record.slots) :
    ∃ bound, (bound, slot) ∈ (fieldsOf record.type).zip record.slots ∧ bound.Carries slot := by
  cases htyped with
  | @mk type slots hslots _ =>
      obtain ⟨index, hlt, rfl⟩ := List.mem_iff_getElem.mp hslot
      have hfields : index < (fieldsOf type).length := hslots.length_eq ▸ hlt
      refine ⟨(fieldsOf type)[index], List.mem_iff_getElem?.mpr ⟨index, ?_⟩, hslots.get hfields hlt⟩
      exact List.getElem?_zip_eq_some.mpr
        ⟨List.getElem?_eq_getElem hfields, List.getElem?_eq_getElem hlt⟩

/-- Each field of a well-typed record has a slot that holds what it may hold. -/
theorem exists_slot (htyped : record.WellTyped family) {index : Nat}
    {bound : BoundField ElementType} (hbound : (fieldsOf record.type)[index]? = some bound) :
    ∃ slot, record.slots[index]? = some slot ∧ bound.Carries slot := by
  cases htyped with
  | @mk type slots hslots _ =>
      obtain ⟨hfields, rfl⟩ := List.getElem?_eq_some_iff.mp hbound
      have hlt : index < slots.length := hslots.length_eq ▸ hfields
      exact ⟨slots[index], List.getElem?_eq_getElem hlt, hslots.get hfields hlt⟩

/-- Only the record of a `meta` holds leftover attributes. -/
theorem type_of_mem_slotEntries (htyped : record.WellTyped family) {slot : Slot}
    (hslot : slot ∈ record.slots) {entry : QName × String} (hentry : entry ∈ slotEntries slot) :
    record.type = .metaInfo := by
  obtain ⟨bound, hrow, hcarries⟩ := exists_field htyped hslot
  have hkind := kind_of_mem_slotEntries hcarries hentry
  exact eq_metaInfo_of_overflow record.type record.type.mem_all bound (List.of_mem_zip hrow).1 hkind

/-- A record keeps to a vocabulary with its element if its slots do. -/
theorem keepsTo_of_slots (htyped : record.WellTyped family) (htype : record.type = type)
    (hcontainer : type ≠ .container) (helement : vocabulary.hasElement type.key = true)
    (hforeign : foreign vocabulary type = indices)
    (hnone : ∀ index ∈ indices, record.slots[index]? = some none)
    (hother : ∀ slot ∈ record.slots, ∀ entry ∈ slotEntries slot,
      vocabulary.hasAttribute type.key entry.1 = true)
    (hmembers : ∀ slot ∈ record.slots, ∀ member ∈ slotMembers slot, KeepsTo vocabulary member) :
    KeepsTo vocabulary record := by
  subst htype hforeign
  cases htyped with
  | @mk type slots hslots _ =>
      have hall := type.mem_all
      refine .mk helement ?_ ?_ ?_
      · rintro ⟨bound, slot⟩ hrow key hkey
        obtain ⟨index, hat⟩ := List.mem_iff_getElem?.mp hrow
        obtain ⟨hbound, hslot⟩ := List.getElem?_zip_eq_some.mp hat
        rcases mem_keys hkey with ⟨hplace, hfull, rfl⟩ | ⟨entry, hentry, rfl⟩
        · by_contra hlacks
          have hmem : index ∈ foreign vocabulary type :=
            mem_foreign.mpr ⟨bound, hbound, by simpa [lacks, hplace, Record.type] using hlacks⟩
          exact hfull (Option.some.inj (hslot.symm.trans (hnone index hmem)))
        · exact hother slot (List.mem_of_getElem? hslot) entry hentry
      · rintro ⟨bound, slot⟩ hrow hplace
        exact absurd hplace
          (placement_ne_wrappedList type hall hcontainer bound (List.of_mem_zip hrow).1)
      · rintro ⟨bound, slot⟩ hrow member hmember
        have htype := (List.forall₂_zip hslots hrow).type_mem hmember
        have hname : (memberName family bound.field type.key.ns member.type).key =
            member.type.key :=
          memberName_key type hall bound (List.of_mem_zip hrow).1 member.type htype
        exact hname ▸ hmembers slot (List.of_mem_zip hrow).2 member hmember

/-- Where no attribute of any name may stand, the slots of the fields outside of the
vocabulary are all that counts beside the records inside. -/
theorem keepsTo_of_members (htyped : record.WellTyped family) (htype : record.type = type)
    (hplain : type ≠ .container ∧ type ≠ .metaInfo)
    (helement : vocabulary.hasElement type.key = true)
    (hforeign : foreign vocabulary type = indices)
    (hnone : ∀ index ∈ indices, record.slots[index]? = some none)
    (hmembers : ∀ slot ∈ record.slots, ∀ member ∈ slotMembers slot, KeepsTo vocabulary member) :
    KeepsTo vocabulary record := by
  refine keepsTo_of_slots htyped htype hplain.1 helement hforeign hnone ?_ hmembers
  intro slot hslot entry hentry
  exact absurd (htype ▸ type_of_mem_slotEntries htyped hslot hentry) hplain.2

/-- Types of which a vocabulary has all elements and attributes, and inside of which there
are no others. -/
structure Covers (vocabulary : Vocabulary) (types : List ElementType) : Prop where
  table : ∀ type ∈ types, type ≠ .container ∧ vocabulary.hasElement type.key = true ∧
    foreign vocabulary type = []
  members : ∀ type ∈ types, ∀ bound ∈ fieldsOf type, ∀ member ∈ bound.field.kind.types,
    member ∈ types
  other : .metaInfo ∈ types →
    ∀ key, vocabulary.hasAttribute ElementType.metaInfo.key key = true

/-- Whatever it holds, a record of such a type keeps to the vocabulary. -/
theorem Covers.keepsTo {types : List ElementType} (hcovers : Covers vocabulary types)
    (htyped : record.WellTyped family) (htype : record.type ∈ types) :
    KeepsTo vocabulary record := by
  have hinner := htyped
  induction htyped with
  | @mk type slots hslots hmembers ih =>
      obtain ⟨hcontainer, helement, hforeign⟩ := hcovers.table type htype
      refine keepsTo_of_slots hinner rfl hcontainer helement hforeign (by simp) ?_ ?_
      · intro slot hslot entry hentry
        obtain rfl : type = .metaInfo := type_of_mem_slotEntries hinner hslot hentry
        exact hcovers.other htype entry.1
      · intro slot hslot member hmember
        obtain ⟨bound, hrow, hcarries⟩ := exists_field hinner hslot
        have hmem := hcovers.members type htype bound (List.of_mem_zip hrow).1 member.type
          (hcarries.type_mem hmember)
        exact ih slot hslot member hmember hmem (hmembers slot hslot member hmember)

/-- Whatever it holds, a model of such a type keeps to the vocabulary. -/
theorem Covers.keepsTo_toRecord {α : Type} {types : List ElementType} {toRecord : α → ElementRecord}
    {ofRecord : ElementRecord → α} (hcovers : Covers vocabulary types)
    (hrepresents : Represents type toRecord ofRecord) (htype : type ∈ types) (a : α) :
    KeepsTo vocabulary (toRecord a) :=
  hcovers.keepsTo (hrepresents.wellTyped a) ((hrepresents.type a).symm ▸ htype)

/-- The records inside of one that keeps to a vocabulary keep to it. -/
theorem KeepsTo.member (hkeeps : KeepsTo vocabulary record) (htyped : record.WellTyped family)
    {slot : Slot} (hslot : slot ∈ record.slots) {member : ElementRecord}
    (hmember : member ∈ slotMembers slot) : KeepsTo vocabulary member := by
  obtain ⟨bound, hrow, hcarries⟩ := exists_field htyped hslot
  have hname : (memberName family bound.field record.type.key.ns member.type).key =
      member.type.key :=
    memberName_key record.type record.type.mem_all bound (List.of_mem_zip hrow).1 member.type
      (hcarries.type_mem hmember)
  cases hkeeps with
  | mk _ _ _ hmembers =>
      rw [KeepsTo, ← hname]
      exact hmembers (bound, slot) hrow member hmember

/-- A record that keeps to a vocabulary has no scalar for an attribute outside of it, unless
the field leaves out its default. -/
theorem KeepsTo.slot_ne (hkeeps : KeepsTo vocabulary record) {index : Nat}
    {bound : BoundField ElementType} (hbound : (fieldsOf record.type)[index]? = some bound)
    (hlacks : lacks vocabulary record.type bound = true) (homits : bound.omitsDefault = false)
    (value : Scalar) : record.slots[index]? ≠ some (some (.scalar value)) := by
  obtain ⟨type, slots⟩ := record
  intro hslot
  obtain ⟨hplace, hmissing⟩ : bound.field.placement = .attr ∧ vocabulary.hasAttribute type.key
      ⟨bound.field.tag.name, bound.field.rule.forAttribute⟩ = false := by
    simpa [lacks, Record.type] using hlacks
  cases hkeeps with
  | mk _ hattributes _ _ =>
      have hrow : (bound, some (.scalar value)) ∈ (fieldsOf type).zip slots :=
        List.mem_iff_getElem?.mpr ⟨index, List.getElem?_zip_eq_some.mpr ⟨hbound, hslot⟩⟩
      have hhas := hattributes _ hrow ⟨bound.field.tag.name, bound.field.rule.forAttribute⟩
        (by simp [BoundField.keys, BoundField.written?, hplace, homits])
      exact absurd (hhas.symm.trans hmissing) (by simp)

/-- Whether the elements of a type belong to the vocabulary and hold nothing but scalars, of
which those at these positions do not belong to it. -/
def Excludes (vocabulary : Vocabulary) (type : ElementType) (indices : List Nat) : Prop :=
  vocabulary.hasElement type.key = true ∧
  (∀ bound ∈ fieldsOf type, bound.field.kind = .value) ∧
  foreign vocabulary type = indices ∧
  ∀ index ∈ indices, ∀ bound ∈ (fieldsOf type)[index]?, bound.omitsDefault = false

instance (vocabulary : Vocabulary) (type : ElementType) (indices : List Nat) :
    Decidable (Excludes vocabulary type indices) :=
  inferInstanceAs (Decidable (_ ∧ _))

/-- A model of scalars keeps to the vocabulary exactly when those are absent. -/
theorem Represents.keepsTo_iff {α : Type} {toRecord : α → ElementRecord}
    {ofRecord : ElementRecord → α} (hrepresents : Represents type toRecord ofRecord)
    (hexcludes : Excludes vocabulary type indices) (a : α) :
    KeepsTo vocabulary (toRecord a) ↔
      ∀ index ∈ indices, (toRecord a).slots[index]? = some none := by
  obtain ⟨helement, hvalues, hforeign, homits⟩ := hexcludes
  have hplain : type ≠ .container ∧ type ≠ .metaInfo := by
    constructor <;> rintro rfl <;> exact absurd hvalues (by decide)
  have htyped := hrepresents.wellTyped a
  have htype := hrepresents.type a
  -- of the model only the record and its type matter
  generalize toRecord a = record at htyped htype ⊢
  subst htype
  constructor
  · intro hkeeps index hindex
    obtain ⟨bound, hbound, hlacks⟩ := mem_foreign.mp (hforeign ▸ hindex)
    obtain ⟨slot, hslot, hcarries⟩ := exists_slot htyped hbound
    have hkind := hvalues bound (List.mem_of_getElem? hbound)
    cases slot with
    | none => exact hslot
    | some value =>
        cases value with
        | scalar value =>
            have homit := homits index hindex bound hbound
            exact absurd hslot (hkeeps.slot_ne hbound hlacks homit value)
        | _ => simp [BoundField.Carries, hkind] at hcarries
  · intro hnone
    refine keepsTo_of_members htyped rfl hplain helement hforeign hnone ?_
    intro slot hslot member hmember
    obtain ⟨bound, hrow, hcarries⟩ := exists_field htyped hslot
    have hinner := hcarries.type_mem hmember
    rw [hvalues bound (List.of_mem_zip hrow).1] at hinner
    exact absurd hinner List.not_mem_nil

/-- Where the fields outside of the vocabulary are empty, the records inside decide. -/
theorem keepsTo_iff_members (htyped : record.WellTyped family) (htype : record.type = type)
    (hplain : type ≠ .container ∧ type ≠ .metaInfo)
    (helement : vocabulary.hasElement type.key = true)
    (hforeign : foreign vocabulary type = indices)
    (hnone : ∀ index ∈ indices, record.slots[index]? = some none) :
    KeepsTo vocabulary record ↔
      ∀ slot ∈ record.slots, ∀ member ∈ slotMembers slot, KeepsTo vocabulary member :=
  ⟨fun hkeeps _ hslot _ hmember => hkeeps.member htyped hslot hmember,
    keepsTo_of_members htyped htype hplain helement hforeign hnone⟩

/-- A written document keeps to a vocabulary exactly when the record does. -/
theorem everywhere_knows_iff_keepsTo (htyped : record.WellTyped family)
    (hroot : (family record.type).rule.effective none = record.type.place) {document : Document}
    (hwrite : (writeDocument family record).outcome = .ok document) :
    document.root.Everywhere vocabulary.Knows ↔ KeepsTo vocabulary record := by
  have helement := writeElement_of_writeDocument hwrite
  rw [hroot] at helement
  have hnamed : writeElement family record record.type.key.name record.type.key.ns
      (family record.type).declarations = .ok document.root := helement
  exact Vocabulary.everywhere_knows_iff htyped (wellBound_family _) hnamed

end Records

section Models

variable {vocabulary : Vocabulary}

theorem Metadata.keepsTo_iff (helement : vocabulary.hasElement ElementType.metadata.key = true)
    (metadata : Metadata) :
    KeepsTo vocabulary metadata.toRecord ↔
      ∀ entry ∈ metadata.entries, KeepsTo vocabulary entry.toRecord := by
  have hforeign : foreign vocabulary .metadata = [] := rfl
  rw [keepsTo_iff_members (Metadata.represents.wellTyped metadata)
    (Metadata.represents.type metadata) (by decide) helement hforeign (by simp)]
  simp [Metadata.toRecord, Record.slots]

theorem Manifest.keepsTo_iff (helement : vocabulary.hasElement ElementType.manifest.key = true)
    (hforeign : foreign vocabulary .manifest = []) (manifest : Manifest) :
    KeepsTo vocabulary manifest.toRecord ↔
      ∀ item ∈ manifest.items, KeepsTo vocabulary item.toRecord := by
  rw [keepsTo_iff_members (Manifest.represents.wellTyped manifest)
    (Manifest.represents.type manifest) (by decide) helement hforeign (by simp)]
  simp [Manifest.toRecord, Record.slots]

theorem Spine.keepsTo_iff {spine : Spine} {indices : List Nat}
    (helement : vocabulary.hasElement ElementType.spine.key = true)
    (hforeign : foreign vocabulary .spine = indices)
    (hnone : ∀ index ∈ indices, spine.toRecord.slots[index]? = some none) :
    KeepsTo vocabulary spine.toRecord ↔
      ∀ itemref ∈ spine.itemrefs, KeepsTo vocabulary itemref.toRecord := by
  rw [keepsTo_iff_members (Spine.represents.wellTyped spine) (Spine.represents.type spine)
    (by decide) helement hforeign hnone]
  obtain ⟨id, toc, progression, itemrefs⟩ := spine
  cases progression <;> simp [Spine.toRecord, Record.slots]

/-- A collection keeps to a vocabulary with its attributes if all that stands inside does. -/
theorem Collection.keepsTo_iff
    (helement : vocabulary.hasElement ElementType.collection.key = true)
    (hforeign : foreign vocabulary .collection = []) (collection : Collection) :
    KeepsTo vocabulary collection.toRecord ↔
      (∀ metadata ∈ collection.metadata, KeepsTo vocabulary metadata.toRecord) ∧
      (∀ inner ∈ collection.collections, KeepsTo vocabulary inner.toRecord) ∧
      ∀ link ∈ collection.links, KeepsTo vocabulary link.toRecord := by
  rw [keepsTo_iff_members (Collection.represents.wellTyped collection)
    (Collection.represents.type collection) (by decide) helement hforeign (by simp)]
  obtain ⟨role, id, lang, dir, metadata, collections, links⟩ := collection
  cases metadata <;> simp [Collection.toRecord_eq, Record.slots]

/-- A package keeps to a vocabulary if its attributes do and so does what stands inside. -/
theorem Package.keepsTo_iff {package : Package} {indices : List Nat}
    (helement : vocabulary.hasElement ElementType.package.key = true)
    (hforeign : foreign vocabulary .package = indices)
    (hnone : ∀ index ∈ indices, package.toRecord.slots[index]? = some none) :
    KeepsTo vocabulary package.toRecord ↔
      KeepsTo vocabulary package.metadata.toRecord ∧
      KeepsTo vocabulary package.manifest.toRecord ∧
      KeepsTo vocabulary package.spine.toRecord ∧
      (∀ guide ∈ package.guide, KeepsTo vocabulary guide.toRecord) ∧
      (∀ bindings ∈ package.bindings, KeepsTo vocabulary bindings.toRecord) ∧
      ∀ collection ∈ package.collections, KeepsTo vocabulary collection.toRecord := by
  rw [keepsTo_iff_members (Package.represents.wellTyped package)
    (Package.represents.type package) (by decide) helement hforeign hnone]
  obtain ⟨version, uniqueIdentifier, prefixes, lang, dir, id, metadata, manifest, spine, guide,
    bindings, collections⟩ := package
  cases guide <;> cases bindings <;>
    simp [Package.toRecord, Record.slots, Collection.toRecords_eq_map]

/-- The document of a package keeps to a vocabulary exactly when the package does. -/
theorem Package.everywhere_knows_iff {package : Package} {document : Document}
    (hwrite : package.toDocument.outcome = .ok document) :
    document.root.Everywhere vocabulary.Knows ↔ KeepsTo vocabulary package.toRecord :=
  everywhere_knows_iff_keepsTo (Package.represents.wellTyped package) rfl hwrite

end Models

end Epub.Model
