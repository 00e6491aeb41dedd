/-
Well-bound families: every table makes sense, and every field is taken as its kind
asks.  Any value of such a type can be written, whatever its scalars are.
-/
import Epub.Proofs.Binding.Rows

namespace Epub.Binding

open Epub.Schema Epub.Xml

variable {κ : Type}

/-- Whether a field of the kind may be taken so.  A scalar may be read as any type, and
the types of a list of variants may be named in any order. -/
def Accessor.Fits : Accessor κ → FieldKind κ → Prop
  | .value _, .value => True
  | .raw, .value => True
  | .element type, .element type' => type = type'
  | .list type, .list type' => type = type'
  | .variants types, .variants types' => ∀ type, type ∈ types ↔ type ∈ types'
  | .overflow, .overflow => True
  | _, _ => False

namespace Accessor.Fits

variable {accessor : Accessor κ} {kind : FieldKind κ}

theorem value_or_raw (hfits : accessor.Fits kind) (hkind : kind = .value) :
    (∃ type, accessor = .value type) ∨ accessor = .raw := by
  subst hkind
  cases accessor <;> simp_all [Fits]

theorem eq_element (hfits : accessor.Fits kind) {type : κ} (hkind : kind = .element type) :
    accessor = .element type := by
  subst hkind
  cases accessor <;> simp_all [Fits]

theorem eq_list (hfits : accessor.Fits kind) {type : κ} (hkind : kind = .list type) :
    accessor = .list type := by
  subst hkind
  cases accessor <;> simp_all [Fits]

theorem eq_overflow (hfits : accessor.Fits kind) (hkind : kind = .overflow) :
    accessor = .overflow := by
  subst hkind
  cases accessor <;> simp_all [Fits]

theorem exists_variants (hfits : accessor.Fits kind) {types : List κ}
    (hkind : kind = .variants types) :
    ∃ types', accessor = .variants types' ∧ ∀ type, type ∈ types' ↔ type ∈ types := by
  subst hkind
  cases accessor <;> simp_all [Fits]

end Accessor.Fits

theorem BoundField.Faithful.fits {bound : BoundField κ} (hfaithful : bound.Faithful) :
    bound.accessor.Fits bound.field.kind := by
  rw [hfaithful]
  cases bound.field.kind <;> simp [Accessor.ofKind, Accessor.Fits]

/-- The tags of the fields. -/
def BoundType.tags (type : BoundType κ) : List Tag :=
  type.fields.map fun bound => bound.field.tag

/-- Whether the table of a type makes sense and its fields are taken as their kinds ask. -/
structure BoundType.IsInOrder (type : BoundType κ) : Prop where
  tags : type.descriptor.tags = .ok type.tags
  fits : ∀ bound ∈ type.fields, bound.accessor.Fits bound.field.kind

/-- Tags that can be resolved are those of the fields. -/
theorem BoundType.eq_tags {type : BoundType κ} {tags : List Tag}
    (htags : type.descriptor.tags = .ok tags) : type.descriptor.tags = .ok type.tags := by
  rw [htags, Descriptor.eq_of_tags htags, BoundType.tags, BoundType.descriptor, List.map_map]
  rfl

/-- The types of the elements that may stand inside an element of the type `key`, at any
depth, and of this element. -/
inductive Includes (family : Family κ) (key : κ) : κ → Prop where
  | here : Includes family key key
  | inside {type member : κ} {bound : BoundField κ} (hincludes : Includes family key type)
      (hbound : bound ∈ (family type).fields) (hmember : member ∈ bound.field.kind.types) :
      Includes family key member

theorem Includes.trans {family : Family κ} {key type member : κ}
    (hfirst : Includes family key type) (hsecond : Includes family type member) :
    Includes family key member := by
  induction hsecond with
  | here => exact hfirst
  | inside _ hbound hmember ih => exact .inside ih hbound hmember

/-- Whether no type that is reached from `key` is out of order. -/
def WellBound (family : Family κ) (key : κ) : Prop :=
  ∀ type, Includes family key type → (family type).IsInOrder

theorem WellBound.here {family : Family κ} {key : κ} (hfamily : WellBound family key) :
    (family key).IsInOrder :=
  hfamily key .here

theorem WellBound.inside {family : Family κ} {key member : κ} {bound : BoundField κ}
    (hfamily : WellBound family key) (hbound : bound ∈ (family key).fields)
    (hmember : member ∈ bound.field.kind.types) : WellBound family member :=
  fun type hincludes => hfamily type (Includes.trans (.inside .here hbound hmember) hincludes)

/-- Whether each slot, here and in the members, holds a value of the kind of its field. -/
inductive Record.IsShaped (family : Family κ) : Record κ → Prop where
  | mk {key : κ} {slots : List (Option (FieldValue κ))}
      (hslots : List.Forall₂ BoundField.Admits (family key).fields slots)
      (hmembers : ∀ slot ∈ slots, ∀ member ∈ slotMembers slot, Record.IsShaped family member) :
      Record.IsShaped family (.mk key slots)

theorem Record.WellTyped.isShaped {family : Family κ} {record : Record κ}
    (htyped : record.WellTyped family) : record.IsShaped family := by
  induction htyped with
  | mk hslots _ ih => exact .mk (hslots.imp fun _ _ hcarries => hcarries.admits) ih

section Writing

variable {family : Family κ}

/-- Whether a record can be written into any element. -/
def IsWritten (family : Family κ) (record : Record κ) : Prop :=
  ∀ e, ∃ written, writeInto family e record = .ok written

theorem exists_writeItems {records : List (Record κ)}
    (hrecords : ∀ record ∈ records, IsWritten family record) (naming : κ → ItemName)
    (e : Element) : ∃ written, writeItems family naming e records = .ok written := by
  induction records generalizing e with
  | nil => exact ⟨e, rfl⟩
  | cons record rest ih =>
      obtain ⟨child, hchild⟩ := hrecords record List.mem_cons_self
        ((Element.empty (naming record.type).name (naming record.type).ns).declareAll
          (naming record.type).declarations)
      obtain ⟨written, hrest⟩ := ih (fun other hother =>
        hrecords other (List.mem_cons_of_mem record hother)) (e.addChild child)
      exact ⟨written, by rw [writeItems, hchild, ok_bind, hrest]⟩

/-- What a field may hold finds its place in the element. -/
theorem exists_writeSlot {bound : BoundField κ} {slot : Option (FieldValue κ)}
    (hadmits : bound.Admits slot) (hmembers : ∀ member ∈ slotMembers slot, IsWritten family member)
    (typeName : String) (ns : Option String) (e : Element) :
    ∃ written, writeSlot family typeName ns bound bound.field.tag e slot = .ok written := by
  cases slot with
  | none => exact ⟨e, rfl⟩
  | some value =>
      rw [writeSlot]
      cases value with
      | scalar value =>
          have hplace : bound.field.tag.placement = .attr ∨ bound.field.tag.placement = .text := by
            cases hkind : bound.field.kind <;> cases htext : bound.field.isText <;>
              simp_all [BoundField.Admits, FieldDecl.tag, FieldDecl.placement]
          cases hwritten : bound.written? value with
          | none => exact ⟨e, by simp only [writeValue, hwritten]⟩
          | some written =>
              rcases hplace with hplace | hplace
              · exact ⟨_, by simp only [writeValue, hwritten, hplace]; rfl⟩
              · exact ⟨_, by simp only [writeValue, hwritten, hplace]; rfl⟩
      | element record =>
          have hplace : bound.field.tag.placement = .childElement := by
            cases hkind : bound.field.kind <;>
              simp_all [BoundField.Admits, FieldDecl.tag, FieldDecl.placement]
          obtain ⟨child, hchild⟩ := hmembers record List.mem_cons_self
            ((Element.empty bound.field.tag.name (bound.field.tag.rule.effective ns)).declareAll
              bound.field.tag.declarations)
          simp only [writeValue, hplace, hchild, ok_bind]
          exact ⟨_, rfl⟩
      | list records =>
          have hlist : bound.field.kind.isList = true := by
            cases hkind : bound.field.kind <;> simp_all [BoundField.Admits, FieldKind.isList]
          have hrecords : ∀ record ∈ records, IsWritten family record := hmembers
          cases hwrapper : bound.field.wrapper.isSome with
          | true =>
              have hplace : bound.field.tag.placement = .wrappedList :=
                placement_of_list hlist hwrapper
              simp only [writeValue, hplace]
              split
              · exact ⟨e, rfl⟩
              · obtain ⟨wrapper, hitems⟩ := exists_writeItems hrecords
                  (itemNaming family bound.field bound.field.tag
                    (bound.field.tag.rule.effective ns) [])
                  ((Element.empty bound.field.tag.wrapperName
                    (bound.field.tag.rule.effective ns)).declareAll bound.field.tag.declarations)
                simp only [hitems, ok_bind]
                exact ⟨_, rfl⟩
          | false =>
              have hplace : bound.field.tag.placement = .unwrappedList :=
                placement_of_list hlist hwrapper
              simp only [writeValue, hplace]
              exact exists_writeItems hrecords _ e
      | overflow other =>
          have hplace : bound.field.tag.placement = .overflow := by
            cases hkind : bound.field.kind <;>
              simp_all [BoundField.Admits, FieldDecl.tag, FieldDecl.placement]
          simp only [writeValue, hplace]
          split <;> exact ⟨_, rfl⟩

theorem exists_writeSlots {fields : List (BoundField κ)} {slots : List (Option (FieldValue κ))}
    (hslots : List.Forall₂ BoundField.Admits fields slots)
    (hmembers : ∀ slot ∈ slots, ∀ member ∈ slotMembers slot, IsWritten family member)
    (typeName : String) (ns : Option String) (e : Element) :
    ∃ written, writeSlots family typeName ns (fields.zip (fields.map fun bound =>
      bound.field.tag)) e slots = .ok written := by
  induction hslots generalizing e with
  | nil => exact ⟨e, rfl⟩
  | @cons bound slot fields slots hadmits _ ih =>
      obtain ⟨inner, hslot⟩ := exists_writeSlot hadmits (hmembers slot List.mem_cons_self)
        typeName ns e
      obtain ⟨written, hrest⟩ := ih (fun other hother =>
        hmembers other (List.mem_cons_of_mem slot hother)) inner
      exact ⟨written, by rw [List.map_cons, List.zip_cons_cons, writeSlots, hslot, ok_bind, hrest]⟩

/-- A value of a well-bound type can be written. -/
theorem Record.IsShaped.isWritten {record : Record κ} (hshaped : record.IsShaped family)
    (hfamily : WellBound family record.type) : IsWritten family record := by
  induction hshaped with
  | @mk key slots hslots _ ih =>
      have horder : (family key).IsInOrder := hfamily.here
      have hmembers : ∀ slot ∈ slots, ∀ member ∈ slotMembers slot, IsWritten family member := by
        intro slot hslot member hmember
        obtain ⟨bound, hbound, hadmits⟩ := exists_of_forall₂ hslots.flip hslot
        exact ih slot hslot member hmember (hfamily.inside hbound
          (BoundField.Admits.type_mem hadmits hmember))
      intro e
      obtain ⟨written, hwritten⟩ := exists_writeSlots hslots hmembers (family key).name e.ns e
      exact ⟨written, by rw [writeInto, horder.tags, ok_bind]; exact hwritten⟩

/-- Such a value can be written under any name, and as a document. -/
theorem Record.IsShaped.exists_element {record : Record κ} (hshaped : record.IsShaped family)
    (hfamily : WellBound family record.type) (name : String) (ns : Option String)
    (declarations : List NamespaceDecl) :
    ∃ e, writeElement family record name ns declarations = .ok e :=
  hshaped.isWritten hfamily _

theorem Record.IsShaped.exists_document {record : Record κ} (hshaped : record.IsShaped family)
    (hfamily : WellBound family record.type) :
    ∃ document, (writeDocument family record).outcome = .ok document := by
  obtain ⟨root, hroot⟩ := hshaped.exists_element hfamily (family record.type).name
    ((family record.type).rule.effective none) (family record.type).declarations
  refine ⟨⟨root⟩, ?_⟩
  simp only [writeDocument, Traced.outcome_bind, Traced.outcome_note, Traced.outcome_lift,
    Traced.outcome_pure, ok_bind, hroot, Except.mapError]

end Writing

end Epub.Binding
