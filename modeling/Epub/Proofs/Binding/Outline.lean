/-
Outlines of written elements: their names, the keys of their attributes, and what stands
inside of them, whatever the values are and whether or not they can be read again.
-/
import Epub.Proofs.Binding.Locating
import Epub.Proofs.Binding.WellBound

namespace Epub

namespace Xml

namespace Element

theorem mem_keys_setIn {key other : QName} (value : String) (attributes : List Attribute) :
    other ∈ (setIn key value attributes).map Attribute.key ↔
      other ∈ attributes.map Attribute.key ∨ other = key := by
  induction attributes with
  | nil => simp [setIn, Attribute.key]
  | cons head tail ih =>
      rw [setIn]
      by_cases hhead : head.key = key
      · have hsame : Attribute.key { head with value } = head.key := rfl
        rw [if_pos hhead, List.map_cons, List.map_cons, hsame, hhead]
        simp only [List.mem_cons]
        tauto
      · rw [if_neg hhead, List.map_cons, List.map_cons, List.mem_cons, List.mem_cons, ih, or_assoc]

end Element

end Xml

namespace Binding

open Epub.Schema Epub.Xml

variable {κ : Type}

/-- The keys of the attributes that a field leaves. -/
def BoundField.keys (bound : BoundField κ) : Option (FieldValue κ) → List QName
  | some (.scalar value) =>
      if bound.field.placement = .attr ∧ (bound.written? value).isSome then
        [⟨bound.field.tag.name, bound.field.rule.forAttribute⟩]
      else []
  | some (.overflow other) => other.keys
  | _ => []

/-- Whether an element has got attributes under these keys and these children, and has
stayed the same otherwise. -/
structure Grown (e : Element) (keys : List QName) (children : List Element)
    (grown : Element) : Prop where
  name : elementKey grown = elementKey e
  keys : ∀ key, key ∈ grown.attributes.map Attribute.key ↔
    key ∈ e.attributes.map Attribute.key ∨ key ∈ keys
  children : grown.children = e.children ++ children

theorem Grown.refl (e : Element) : Grown e [] [] e :=
  ⟨rfl, fun key => by simp, by simp⟩

theorem Grown.trans {e inner grown : Element} {keys keys' : List QName}
    {children children' : List Element} (hfirst : Grown e keys children inner)
    (hsecond : Grown inner keys' children' grown) :
    Grown e (keys ++ keys') (children ++ children') grown := by
  refine ⟨hsecond.name.trans hfirst.name, fun key => ?_, ?_⟩
  · rw [hsecond.keys, hfirst.keys, List.mem_append, or_assoc]
  · rw [hsecond.children, hfirst.children, List.append_assoc]

theorem grown_setAttribute (e : Element) (key : QName) (value : String) :
    Grown e [key] [] (e.setAttribute key value) := by
  refine ⟨rfl, fun other => ?_, (List.append_nil _).symm⟩
  rw [Element.setAttribute, Element.mem_keys_setIn, List.mem_singleton]

/-- Leftover attributes get there, or were there before. -/
theorem grown_addOther (e : Element) (other : OtherAttributes) :
    Grown e other.keys [] (addOther e other) := by
  rw [addOther, SortedMap.keys]
  generalize other.entries = entries
  induction entries generalizing e with
  | nil => exact Grown.refl e
  | cons entry rest ih =>
      obtain ⟨key, value⟩ := entry
      have hfirst : Grown e [key] []
          (if (e.get? key).isSome then e else e.setAttribute key value) := by
        by_cases hhas : (e.get? key).isSome = true
        · rw [if_pos hhas]
          have hmem := Element.mem_keys_iff.mpr (Option.isSome_iff_exists.mp hhas)
          refine ⟨rfl, fun other => ⟨Or.inl, ?_⟩, (List.append_nil _).symm⟩
          rintro (hold | hnew)
          · exact hold
          · exact List.mem_singleton.mp hnew ▸ hmem
        · rw [if_neg hhas]
          exact grown_setAttribute e key value
      exact hfirst.trans (ih _)

section Slots

variable {family : Family κ} {ns : Option String} {bound : BoundField κ}
  {slot : Option (FieldValue κ)} {part : Part}

/-- The attributes of a part have the keys that its field leaves. -/
theorem Wrote.keys_eq (hwrote : Wrote family ns bound slot part) :
    part.attributes.map Attribute.key = bound.keys slot := by
  cases hwrote with
  | nothing hcarries hskips =>
      cases slot with
      | none => rfl
      | some value =>
          cases value with
          | scalar value => simp_all [BoundField.skips, BoundField.keys]
          | element record => rfl
          | list records => rfl
          | overflow other =>
              have hempty : other.entries = [] := List.isEmpty_iff.mp hskips
              rw [BoundField.keys, SortedMap.keys, hempty]
              rfl
  | attr hplace hwritten => simp [BoundField.keys, hplace, hwritten, Attribute.key]
  | text hplace hwritten => simp [BoundField.keys, hplace]
  | element _ _ => rfl
  | wrapped _ _ _ => rfl
  | items _ _ _ => rfl
  | overflow _ _ =>
      rw [List.map_map]
      rfl

/-- A field adds its part to whatever is there. -/
theorem Wrote.exists_grown (hwrote : Wrote family ns bound slot part) (typeName : String)
    (e : Element) :
    ∃ grown, writeSlot family typeName ns bound bound.field.tag e slot = .ok grown ∧
      Grown e (bound.keys slot) part.children grown := by
  have htag : bound.field.tag.placement = bound.field.placement := rfl
  rw [← hwrote.keys_eq]
  by_cases hnone : part.attributes = []
  · refine ⟨assemble e [part], writeSlot_of_wrote hwrote typeName (absurd hnone), rfl, ?_, ?_⟩
    · simp [assemble, hnone]
    · simp [assemble]
  · cases hwrote with
    | @attr value hplace hwritten =>
        refine ⟨_, ?_, grown_setAttribute e _ value.text⟩
        simp only [writeSlot, writeValue, hwritten, htag, hplace]
        rfl
    | @overflow other hplace hskips =>
        have hempty : other.isEmpty = false := hskips
        have hkeys : (other.entries.map entryAttribute).map Attribute.key = other.keys := by
          rw [List.map_map]
          rfl
        refine ⟨addOther e other, ?_, hkeys ▸ grown_addOther e other⟩
        simp only [writeSlot, writeValue, htag, hplace, hempty]
        rfl
    | nothing _ _ => exact absurd rfl hnone
    | text _ _ => exact absurd rfl hnone
    | element _ _ => exact absurd rfl hnone
    | wrapped _ _ _ => exact absurd rfl hnone
    | items _ _ _ => exact absurd rfl hnone

/-- The fields add their parts one after the other. -/
theorem exists_grown_of_rows {rows : List (Row κ)}
    (hrows : ∀ row ∈ rows, Wrote family ns row.bound row.slot row.part) (typeName : String)
    (e : Element) :
    ∃ grown, writeSlots family typeName ns
        (rows.map fun row => (row.bound, row.bound.field.tag)) e (rows.map Row.slot) =
          .ok grown ∧
      Grown e (rows.flatMap fun row => row.bound.keys row.slot)
        (rows.flatMap fun row => row.part.children) grown := by
  induction rows generalizing e with
  | nil => exact ⟨e, rfl, Grown.refl e⟩
  | cons row rest ih =>
      obtain ⟨inner, hfirst, hinner⟩ :=
        (hrows row List.mem_cons_self).exists_grown typeName e
      obtain ⟨grown, hrest, hgrown⟩ :=
        ih (fun other hother => hrows other (List.mem_cons_of_mem row hother)) inner
      refine ⟨grown, ?_, hinner.trans hgrown⟩
      rw [List.map_cons, List.map_cons, writeSlots, hfirst, ok_bind, hrest]

/-- A list that is left out has no members. -/
theorem eq_nil_of_skips {records : List (Record κ)}
    (hskips : bound.skips (some (.list records)) = true) : records = [] := by
  simp only [BoundField.skips, Bool.and_eq_true] at hskips
  exact List.isEmpty_iff.mp hskips.1

/-- A member of a list, or the one of an element, stands among the children of its part, or
among those of the wrapper. -/
theorem Wrote.exists_child (hwrote : Wrote family ns bound slot part) {member : Record κ}
    (hmember : member ∈ slotMembers slot) :
    ∃ child, WritesChild family (memberName family bound.field ns) member child ∧
      (child ∈ part.children ∨ ∃ wrapper ∈ part.children, child ∈ wrapper.children) := by
  cases hwrote with
  | @element record child _ hchild =>
      rw [List.mem_singleton.mp hmember]
      exact ⟨child, hchild, Or.inl List.mem_cons_self⟩
  | wrapped _ _ hitems =>
      obtain ⟨child, hchild, hwrites⟩ := exists_of_forall₂ hitems hmember
      exact ⟨child, hwrites, Or.inr ⟨_, List.mem_cons_self, hchild⟩⟩
  | items _ _ hitems =>
      obtain ⟨child, hchild, hwrites⟩ := exists_of_forall₂ hitems hmember
      exact ⟨child, hwrites, Or.inl hchild⟩
  | nothing _ hskips =>
      cases slot with
      | none => exact absurd hmember List.not_mem_nil
      | some value =>
          cases value with
          | scalar value => exact absurd hmember List.not_mem_nil
          | overflow other => exact absurd hmember List.not_mem_nil
          | element record => contradiction
          | list records =>
              rw [eq_nil_of_skips hskips] at hmember
              exact absurd hmember List.not_mem_nil
  | attr _ _ => exact absurd hmember List.not_mem_nil
  | text _ _ => exact absurd hmember List.not_mem_nil
  | overflow _ _ => exact absurd hmember List.not_mem_nil

/-- An element is written as the one child of its part. -/
theorem Wrote.exists_element {record : Record κ}
    (hwrote : Wrote family ns bound (some (.element record)) part) :
    ∃ child, WritesChild family (memberName family bound.field ns) record child ∧
      part.children = [child] := by
  cases hwrote with
  | element _ hchild => exact ⟨_, hchild, rfl⟩
  | nothing _ hskips => contradiction

/-- The members of a list without a wrapper are written in turn. -/
theorem Wrote.forall₂_items {records : List (Record κ)}
    (hwrote : Wrote family ns bound (some (.list records)) part)
    (hplace : bound.field.placement = .unwrappedList) :
    List.Forall₂ (WritesChild family (memberName family bound.field ns)) records
      part.children := by
  cases hwrote with
  | items _ _ hitems => exact hitems
  | wrapped hother _ _ => rw [hplace] at hother; contradiction
  | nothing _ hskips =>
      rw [eq_nil_of_skips hskips]
      exact .nil

/-- A list that is written inside a wrapper has one. -/
theorem Wrote.exists_wrapper (hwrote : Wrote family ns bound slot part)
    (hplace : bound.field.placement = .wrappedList) (hskips : bound.skips slot = false) :
    ∃ items, wrapperElement bound.field ns items ∈ part.children := by
  cases hwrote with
  | wrapped _ _ _ => exact ⟨_, List.mem_cons_self⟩
  | nothing _ hother => rw [hskips] at hother; contradiction
  | attr hother _ => rw [hplace] at hother; contradiction
  | text hother _ => rw [hplace] at hother; contradiction
  | element hother _ => rw [hplace] at hother; contradiction
  | items hother _ _ => rw [hplace] at hother; contradiction
  | overflow hother _ => rw [hplace] at hother; contradiction

end Slots

/-- Whether an element was put together from the rows of a record. -/
structure Outlined (family : Family κ) (name : QName) (record : Record κ) (rows : List (Row κ))
    (e : Element) : Prop where
  bounds : rows.map Row.bound = (family record.type).fields
  slots : rows.map Row.slot = record.slots
  wrote : ∀ row ∈ rows, Wrote family name.ns row.bound row.slot row.part
  name : elementKey e = name
  keys : ∀ key, key ∈ e.attributes.map Attribute.key ↔
    ∃ row ∈ rows, key ∈ row.bound.keys row.slot
  children : e.children = rows.flatMap fun row => row.part.children

section Records

variable {family : Family κ} {record : Record κ} {name : QName} {rows : List (Row κ)}
  {e : Element}

theorem Outlined.mem_zip (houtlined : Outlined family name record rows e) {row : Row κ}
    (hrow : row ∈ rows) : (row.bound, row.slot) ∈ (family record.type).fields.zip record.slots := by
  rw [← houtlined.bounds, ← houtlined.slots, List.zip_map']
  exact List.mem_map_of_mem hrow

theorem Outlined.exists_row (houtlined : Outlined family name record rows e)
    {pair : BoundField κ × Option (FieldValue κ)}
    (hpair : pair ∈ (family record.type).fields.zip record.slots) :
    ∃ row ∈ rows, row.bound = pair.1 ∧ row.slot = pair.2 := by
  rw [← houtlined.bounds, ← houtlined.slots, List.zip_map'] at hpair
  obtain ⟨row, hrow, rfl⟩ := List.mem_map.mp hpair
  exact ⟨row, hrow, rfl, rfl⟩

/-- A value of a well-bound type is put together from its rows, whatever it holds. -/
theorem exists_outlined (htyped : record.WellTyped family)
    (hfamily : WellBound family record.type) {declarations : List NamespaceDecl}
    (hwrite : writeElement family record name.name name.ns declarations = .ok e) :
    ∃ rows, Outlined family name record rows e := by
  cases htyped with
  | @mk key slots hslots hmembers =>
      have hchildren : ∀ pair ∈ (family key).fields.zip slots, ∀ member ∈ slotMembers pair.2,
          ∃ child, WritesChild family (memberName family pair.1.field name.ns) member child := by
        intro pair hpair member hmember
        have hinner := hmembers pair.2 (List.of_mem_zip hpair).2 member hmember
        have htype := (List.forall₂_zip hslots hpair).type_mem hmember
        exact hinner.isShaped.exists_element
          (hfamily.inside (List.of_mem_zip hpair).1 htype) _ _ _
      obtain ⟨rows, hbounds, hrows, hwrote⟩ := exists_rows hslots hchildren
      have hall : ∀ row ∈ rows, Wrote family name.ns row.bound row.slot row.part :=
        fun row hrow => (hwrote row hrow).2
      obtain ⟨grown, hgrows, hgrown⟩ := exists_grown_of_rows hall (family key).name
        ((Element.empty name.name name.ns).declareAll declarations)
      have htags : (family key).fields.zip (family key).tags =
          rows.map fun row => (row.bound, row.bound.field.tag) := by
        rw [BoundType.tags, ← hbounds, List.map_map, List.zip_map']
        rfl
      have hns : ((Element.empty name.name name.ns).declareAll declarations).ns = name.ns := by
        rw [Element.declareAll_ns]
        rfl
      have hown : (family key).descriptor.tags = .ok (family key).tags := hfamily.here.tags
      rw [writeElement, writeInto, hown, ok_bind, htags, hns, ← hrows, hgrows] at hwrite
      cases Except.ok.inj hwrite
      refine ⟨rows, hbounds, hrows, hall, ?_, fun key => ?_, ?_⟩
      · rw [hgrown.name, elementKey, Element.declareAll_name, Element.declareAll_ns]
        rfl
      · rw [hgrown.keys, Element.declareAll_attributes, List.mem_flatMap]
        simp [Element.empty]
      · rw [hgrown.children, Element.declareAll_children]
        rfl

end Records

end Binding

end Epub
