/-
Leftover attributes.  Every attribute of an element that has been read is the one that a
field has found, or is kept with the leftover ones; and whatever is kept is written again,
under its own key, beside what the fields write.
-/
import Epub.Proofs.Binding.Decoded
import Epub.Proofs.Binding.Fields
import Epub.Proofs.Binding.Written

namespace Epub.Binding

open Epub.Schema Epub.Xml

variable {κ : Type}

/-- Whether a field of the type has found the attribute. -/
def IsRead (family : Family κ) (key : κ) (e : Element) (attr : Attribute) : Prop :=
  ∃ bound ∈ (family key).fields, bound.field.placement = .attr ∧
    findAttribute? e bound.field.tag.name bound.field.rule = some attr

/-- Whether the field is a string that is written as it was read, whatever it is. -/
def BoundField.KeepsText (bound : BoundField κ) : Prop :=
  (bound.accessor = .raw ∨ bound.accessor = .value .string) ∧ bound.omitsDefault = false

/-- Whether a field leaves the value under the name: it writes it there, or holds it among
leftover attributes. -/
inductive Leaves (bound : BoundField κ) (name : QName) (value : String) :
    Option (FieldValue κ) → Prop where
  | own {scalar text : Scalar} (hplace : bound.field.placement = .attr)
      (hname : ⟨bound.field.tag.name, bound.field.rule.forAttribute⟩ = name)
      (hwritten : bound.written? scalar = some text) (htext : text.text = value) :
      Leaves bound name value (some (.scalar scalar))
  | other {other : OtherAttributes} (hget : other.get? name = some value) :
      Leaves bound name value (some (.overflow other))

/-- Whether an element has come to have the value under the name: it has it, or it has had
nothing there and has nothing, and nothing was left. -/
def Gains (e written : Element) (name : QName) (value : String) (left : Prop) : Prop :=
  written.get? name = some value ∨ written.get? name = none ∧ e.get? name = none ∧ ¬left

section Writing

variable {family : Family κ} {e written : Element} {name : QName} {value : String}
  {bound : BoundField κ} {slot : Option (FieldValue κ)} {typeName : String} {ns : Option String}

theorem gains_of_same {left : Prop} (hstart : e.get? name = none ∨ e.get? name = some value)
    (hsame : written.get? name = e.get? name) (hnot : ¬left) : Gains e written name value left := by
  rw [Gains, hsame]
  rcases hstart with hnone | hsome
  · exact Or.inr ⟨hnone, hnone, hnot⟩
  · exact Or.inl hsome

theorem get?_congr (hsame : written.attributes = e.attributes) :
    written.get? name = e.get? name := by
  rw [Element.get?, Element.get?, hsame]

/-- Leftover attributes get there unless there are others under their keys. -/
theorem get?_addOther (e : Element) (other : OtherAttributes) (name : QName) :
    (addOther e other).get? name = (e.get? name).or (other.get? name) := by
  rw [addOther, SortedMap.get?]
  generalize other.entries = entries
  induction entries generalizing e with
  | nil => simp
  | cons entry rest ih =>
      obtain ⟨key, value⟩ := entry
      rw [List.foldl_cons, ih]
      dsimp only
      by_cases hkey : key = name
      · subst hkey
        rw [List.find?_cons_of_pos (by simp)]
        by_cases hhas : (e.get? key).isSome = true
        · obtain ⟨old, hold⟩ := Option.isSome_iff_exists.mp hhas
          rw [if_pos hhas, hold]
          rfl
        · rw [if_neg hhas, Element.get?_setAttribute_self, Option.not_isSome_iff_eq_none.mp hhas]
          rfl
      · rw [List.find?_cons_of_neg (by simpa using hkey)]
        by_cases hhas : (e.get? key).isSome = true
        · rw [if_pos hhas]
        · rw [if_neg hhas, Element.get?_setAttribute_of_ne e value hkey]

/-- Items are children, and leave the attributes as they are. -/
theorem attributes_of_writeItems {naming : κ → ItemName} {records : List (Record κ)}
    (hwrite : writeItems family naming e records = .ok written) :
    written.attributes = e.attributes := by
  induction records generalizing e with
  | nil => rw [← Except.ok.inj hwrite]
  | cons record rest ih =>
      rw [writeItems] at hwrite
      obtain ⟨child, _, hrest⟩ := bind_eq_ok.mp hwrite
      rw [ih hrest]
      rfl

theorem gains_of_scalar {scalar : Scalar}
    (hleaves : ∀ other, Leaves bound name other (some (.scalar scalar)) → other = value)
    (hstart : e.get? name = none ∨ e.get? name = some value)
    (hwrite : writeValue family typeName ns bound bound.field.tag e (.scalar scalar) =
      .ok written) :
    Gains e written name value (Leaves bound name value (some (.scalar scalar))) := by
  rw [writeValue] at hwrite
  split at hwrite
  · rename_i hskipped
    apply gains_of_same hstart (get?_congr (by rw [← Except.ok.inj hwrite]))
    rintro ⟨_, _, hwritten, _⟩
    rw [hskipped] at hwritten
    contradiction
  · rename_i text hwritten
    split at hwrite
    · rename_i hplace
      rw [← Except.ok.inj hwrite]
      by_cases hname : ⟨bound.field.tag.name, bound.field.rule.forAttribute⟩ = name
      · left
        rw [← hleaves text.text (.own hplace hname hwritten rfl), ← hname]
        exact Element.get?_setAttribute_self e _ text.text
      · apply gains_of_same hstart (Element.get?_setAttribute_of_ne e text.text hname)
        rintro ⟨_, hown, _, _⟩
        exact hname hown
    · rename_i hplace
      apply gains_of_same hstart (get?_congr (by rw [← Except.ok.inj hwrite]))
      rintro ⟨hattr, _, _, _⟩
      rw [show bound.field.placement = .text from hplace] at hattr
      contradiction
    · contradiction

theorem gains_of_other {other : OtherAttributes}
    (hleaves : ∀ found, Leaves bound name found (some (.overflow other)) → found = value)
    (hstart : e.get? name = none ∨ e.get? name = some value)
    (hwrite : writeValue family typeName ns bound bound.field.tag e (.overflow other) =
      .ok written) :
    Gains e written name value (Leaves bound name value (some (.overflow other))) := by
  have hnot : other.get? name = none →
      ¬Leaves bound name value (some (.overflow other)) := by
    rintro hnone (_ | ⟨hget⟩)
    rw [hnone] at hget
    contradiction
  rw [writeValue] at hwrite
  by_cases hempty : other.isEmpty = true
  · rw [if_pos hempty] at hwrite
    have hnone : other.get? name = none := by
      rw [SortedMap.get?, List.isEmpty_iff.mp hempty]
      rfl
    exact gains_of_same hstart (get?_congr (by rw [← Except.ok.inj hwrite])) (hnot hnone)
  · rw [if_neg hempty] at hwrite
    split at hwrite
    · rw [← Except.ok.inj hwrite]
      have hadded := get?_addOther e other name
      cases hget : other.get? name with
      | none =>
          rw [hget, Option.or_none] at hadded
          exact gains_of_same hstart hadded (hnot hget)
      | some found =>
          left
          rw [hadded, hget, hleaves found (.other hget)]
          rcases hstart with hnone | hsome
          · rw [hnone]
            rfl
          · rw [hsome]
            rfl
    · contradiction

/-- If all that a field leaves under a name is one value, an element that had no other
there gains it. -/
theorem gains_of_writeSlot (hleaves : ∀ other, Leaves bound name other slot → other = value)
    (hstart : e.get? name = none ∨ e.get? name = some value)
    (hwrite : writeSlot family typeName ns bound bound.field.tag e slot = .ok written) :
    Gains e written name value (Leaves bound name value slot) := by
  cases slot with
  | none => exact gains_of_same hstart (get?_congr (by rw [← Except.ok.inj hwrite])) (by rintro ⟨⟩)
  | some held =>
      rw [writeSlot] at hwrite
      cases held with
      | scalar scalar => exact gains_of_scalar hleaves hstart hwrite
      | overflow other => exact gains_of_other hleaves hstart hwrite
      | element record =>
          apply gains_of_same hstart (get?_congr ?_) (by rintro ⟨⟩)
          rw [writeValue] at hwrite
          split at hwrite
          · obtain ⟨child, _, hadded⟩ := bind_eq_ok.mp hwrite
            rw [← Except.ok.inj hadded]
            rfl
          · contradiction
      | list records =>
          apply gains_of_same hstart (get?_congr ?_) (by rintro ⟨⟩)
          rw [writeValue] at hwrite
          split at hwrite
          · split at hwrite
            · rw [← Except.ok.inj hwrite]
            · obtain ⟨wrapper, _, hadded⟩ := bind_eq_ok.mp hwrite
              rw [← Except.ok.inj hadded]
              rfl
          · exact attributes_of_writeItems hwrite
          · contradiction

/-- The same for all fields in turn. -/
theorem gains_of_writeSlots {fields : List (BoundField κ)} {slots : List (Option (FieldValue κ))}
    (hlength : fields.length = slots.length)
    (hleaves : ∀ pair ∈ fields.zip slots, ∀ other, Leaves pair.1 name other pair.2 → other = value)
    (hstart : e.get? name = none ∨ e.get? name = some value)
    (hwrite : writeSlots family typeName ns (fields.zip (fields.map fun bound => bound.field.tag))
      e slots = .ok written) :
    Gains e written name value (∃ pair ∈ fields.zip slots, Leaves pair.1 name value pair.2) := by
  induction fields generalizing e slots with
  | nil =>
      rw [List.zip_nil_left, writeSlots] at hwrite
      exact gains_of_same hstart (get?_congr (by rw [← Except.ok.inj hwrite])) (by simp)
  | cons bound rest ih =>
      cases slots with
      | nil => contradiction
      | cons slot slots =>
          rw [List.map_cons, List.zip_cons_cons, writeSlots] at hwrite
          obtain ⟨inner, hslot, hrest⟩ := bind_eq_ok.mp hwrite
          rw [List.zip_cons_cons] at hleaves ⊢
          have hlater := fun pair hpair => hleaves pair (List.mem_cons_of_mem _ hpair)
          rcases gains_of_writeSlot (hleaves (bound, slot) List.mem_cons_self) hstart hslot with
            hsome | ⟨hnone, hfresh, hnot⟩
          · rcases ih (Nat.succ.inj hlength) hlater (Or.inr hsome) hrest with hdone | ⟨_, hinner, _⟩
            · exact Or.inl hdone
            · rw [hsome] at hinner
              contradiction
          · rcases ih (Nat.succ.inj hlength) hlater (Or.inl hnone) hrest with
              hdone | ⟨hend, _, hnots⟩
            · exact Or.inl hdone
            · refine Or.inr ⟨hend, hfresh, ?_⟩
              rintro ⟨pair, hpair, hleft⟩
              rcases List.mem_cons.mp hpair with rfl | hlater
              · exact hnot hleft
              · exact hnots ⟨pair, hlater, hleft⟩

end Writing

section Read

variable [DecidableEq κ] {family : Family κ} {key : κ} {path : String} {index : Nat}
  {bound : BoundField κ} {e : Element} {slot : Option (FieldValue κ)} {record : Record κ}

theorem type_of_readElement (hread : (readElement family key path e).outcome = .ok record) :
    record.type = key := by
  obtain ⟨_, _, _, _, rfl⟩ := readElement_eq_ok_iff.mp hread
  rfl

/-- A single child is read as one record. -/
theorem exists_record_of_readChildren {type : κ} (hkind : bound.field.kind = .element type)
    (hread : readChildren family key path e index bound = .ok slot) :
    slot = none ∨ ∃ record, slot = some (.element record) := by
  have hplace : bound.field.placement ≠ .unwrappedList := by simp [FieldDecl.placement, hkind]
  rcases readChildren_eq_ok hread with ⟨_, rfl, _⟩ | ⟨records, rfl, hsingle, hrecords⟩
  · exact Or.inl rfl
  · obtain ⟨child, hchild⟩ := hsingle hplace
    rw [hchild, readEach_singleton (roleOf?_of_element hkind e.ns child)] at hrecords
    obtain ⟨record, _, rfl⟩ := map_eq_ok.mp hrecords
    exact Or.inr ⟨record, by rw [hkind]; rfl⟩

/-- Several children are read as a list. -/
theorem exists_list_of_readChildren (hlist : bound.field.kind.isList = true)
    (hread : readChildren family key path e index bound = .ok slot) :
    slot = none ∨ ∃ records, slot = some (.list records) := by
  rcases readChildren_eq_ok hread with ⟨_, rfl, _⟩ | ⟨records, rfl, _, _⟩
  · exact Or.inl rfl
  · exact Or.inr ⟨records, by rw [collect_of_list hlist]⟩

/-- Children are read as values of the kind of their field. -/
theorem admits_of_readChildren (hvalue : bound.field.kind ≠ .value)
    (hoverflow : bound.field.kind ≠ .overflow)
    (hread : readChildren family key path e index bound = .ok slot) : bound.Admits slot := by
  have htypes : ∀ member ∈ slotMembers slot, member.type ∈ bound.field.kind.types := by
    intro member hmember
    obtain ⟨type, htype, child, inner, _, hvalue⟩ := exists_inside_of_readChildren hread hmember
    rwa [type_of_readElement hvalue]
  cases hkind : bound.field.kind with
  | element type =>
      rcases exists_record_of_readChildren hkind hread with rfl | ⟨record, rfl⟩
      · trivial
      · simpa [BoundField.Admits, hkind, FieldKind.types, slotMembers] using htypes
  | list type =>
      rcases exists_list_of_readChildren (by simp [hkind, FieldKind.isList]) hread with
        rfl | ⟨records, rfl⟩
      · trivial
      · simpa [BoundField.Admits, hkind, FieldKind.types, slotMembers] using htypes
  | variants types =>
      rcases exists_list_of_readChildren (by simp [hkind, FieldKind.isList]) hread with
        rfl | ⟨records, rfl⟩
      · trivial
      · simpa [BoundField.Admits, hkind, FieldKind.types, slotMembers] using htypes
  | value => exact absurd hkind hvalue
  | overflow => exact absurd hkind hoverflow

/-- What a field for leftover attributes has read are those. -/
theorem slotOther_of_readField (hplace : bound.field.placement = .overflow)
    (hread : readField family key path e index bound = .ok slot) :
    slotOther slot = OtherAttributes.of (unclaimedAttributes e (family key).tags) := by
  simp only [readField, hplace] at hread
  split at hread
  · rename_i hempty
    rw [(absent_eq_ok hread).1]
    exact (SortedMap.ext_entries (List.isEmpty_iff.mp hempty)).symm
  · rw [← Except.ok.inj hread]
    rfl

/-- A field has read nothing, a scalar, leftover attributes, or children. -/
theorem readField_eq_ok (hread : readField family key path e index bound = .ok slot) :
    slot = none ∨
    (bound.field.kind = .value ∧ ∃ scalar, slot = some (.scalar scalar)) ∨
    (bound.field.placement = .overflow ∧ ∃ other, slot = some (.overflow other)) ∨
    (bound.field.kind ≠ .value ∧ bound.field.kind ≠ .overflow ∧
      readChildren family key path e index bound = .ok slot) := by
  rcases placement_cases bound.field with hplace | hplace | hplace | ⟨name, hname⟩
  · simp only [readField, hplace] at hread
    split at hread
    · exact Or.inl (absent_eq_ok hread).1
    · obtain ⟨value, hvalue, rfl⟩ := map_eq_ok.mp hread
      obtain ⟨scalar, rfl⟩ := exists_scalar_of_readText hvalue
      exact Or.inr (Or.inl ⟨(value_of_attr hplace).1, scalar, rfl⟩)
  · simp only [readField, hplace] at hread
    split at hread
    · exact Or.inl (absent_eq_ok hread).1
    · obtain ⟨value, hvalue, rfl⟩ := map_eq_ok.mp hread
      obtain ⟨scalar, rfl⟩ := exists_scalar_of_readText hvalue
      exact Or.inr (Or.inl ⟨(value_of_text hplace).1, scalar, rfl⟩)
  · simp only [readField, hplace] at hread
    split at hread
    · exact Or.inl (absent_eq_ok hread).1
    · exact Or.inr (Or.inr (Or.inl ⟨hplace, _, (Except.ok.inj hread).symm⟩))
  · rw [readField_of_childName? hname] at hread
    refine Or.inr (Or.inr (Or.inr ⟨?_, ?_, hread⟩))
    · intro hkind
      cases hcase : bound.field.isText <;>
        simp [Tag.childName?, FieldDecl.tag, FieldDecl.placement, hkind, hcase] at hname
    · intro hkind
      simp [Tag.childName?, FieldDecl.tag, FieldDecl.placement, hkind] at hname

/-- Attributes that have been read as leftover ones are those. -/
theorem eq_leftover_of_readField {other : OtherAttributes} {name : QName} {value : String}
    (hread : readField family key path e index bound = .ok (some (.overflow other)))
    (hget : other.get? name = some value) :
    other = OtherAttributes.of (unclaimedAttributes e (family key).tags) := by
  rcases readField_eq_ok hread with hnone | ⟨_, _, hscalar⟩ | ⟨hplace, _⟩ | ⟨_, _, hchildren⟩
  · contradiction
  · cases Option.some.inj hscalar
  · exact slotOther_of_readField hplace hread
  · -- children are no attributes
    rcases readChildren_eq_ok hchildren with ⟨_, hnone, _⟩ | ⟨records, hsome, _, _⟩
    · contradiction
    · have hempty := slotOther_collect bound.field.kind records
      rw [← hsome] at hempty
      rw [show other = SortedMap.empty from hempty] at hget
      contradiction

/-- What a field has read is of its kind, and was read off elements inside. -/
theorem admits_of_readField (hread : readField family key path e index bound = .ok slot) :
    bound.Admits slot ∧ ∀ member ∈ slotMembers slot, ∃ type ∈ bound.field.kind.types,
      ∃ child inner, sizeOf child < sizeOf e ∧
        (readElement family type inner child).outcome = .ok member := by
  rcases readField_eq_ok hread with
    rfl | ⟨hkind, scalar, rfl⟩ | ⟨hplace, other, rfl⟩ | ⟨hvalue, hoverflow, hchildren⟩
  · exact ⟨trivial, by simp [slotMembers]⟩
  · exact ⟨by simp [BoundField.Admits, hkind], by simp [slotMembers]⟩
  · exact ⟨by simp [BoundField.Admits, kind_of_overflow hplace], by simp [slotMembers]⟩
  · exact ⟨admits_of_readChildren hvalue hoverflow hchildren,
      fun member hmember => exists_inside_of_readChildren hchildren hmember⟩

/-- What has been read can be written again, into any element. -/
theorem isWritten_of_readElement {key : κ} {path : String} {e : Element} {record : Record κ}
    (hfamily : IsBound family key)
    (hread : (readElement family key path e).outcome = .ok record) : IsWritten family record := by
  obtain ⟨slots, htags, rfl, hslots⟩ := exists_slots_of_readElement hfamily hread
  have hadmits : List.Forall₂ BoundField.Admits (family key).fields slots :=
    forall₂_of_zipIdx hslots fun _ _ _ hslot => (admits_of_readField hslot).1
  have hmembers : ∀ slot ∈ slots, ∀ member ∈ slotMembers slot, IsWritten family member := by
    intro slot hslot member hmember
    obtain ⟨item, hitem, hfield⟩ := exists_of_forall₂ hslots.flip hslot
    obtain ⟨type, htype, child, inner, hlt, hvalue⟩ := (admits_of_readField hfield).2 member hmember
    have hbound := List.fst_mem_of_mem_zipIdx hitem
    exact isWritten_of_readElement (hfamily.inside hbound htype) hvalue
  intro target
  obtain ⟨written, hwritten⟩ :=
    exists_writeSlots hadmits hmembers (family key).name target.ns target
  exact ⟨written, by rw [writeInto, htags, ok_bind]; exact hwritten⟩
termination_by sizeOf e

end Read

section Parting

variable {family : Family κ} {key : κ} {e : Element}

open Element

/-- What is left over are the attributes that no field has found, under their names. -/
theorem get?_leftover_iff (hkeys : e.HasDistinctKeys) {name : QName} {value : String} :
    (OtherAttributes.of (unclaimedAttributes e (family key).tags)).get? name = some value ↔
      ∃ attr ∈ e.attributes, attr.key = name ∧ attr.value = value ∧ ¬IsRead family key e attr := by
  have hmem : ∀ attr, attr ∈ unclaimedAttributes e (family key).tags ↔
      attr ∈ e.attributes ∧ ¬IsRead family key e attr := by
    intro attr
    rw [unclaimedAttributes_eq hkeys.of_map, List.mem_filter, decide_eq_true_eq]
    apply and_congr_right
    intro _
    constructor
    · rintro hnot ⟨bound, hbound, hplace, hfound⟩
      exact hnot bound.field.tag (List.mem_map_of_mem hbound) hplace hfound
    · intro hnot tag htag hplace hfound
      obtain ⟨bound, hbound, rfl⟩ := List.mem_map.mp htag
      exact hnot ⟨bound, hbound, hplace, hfound⟩
  have hsub : (unclaimedAttributes e (family key).tags).Sublist e.attributes := by
    rw [unclaimedAttributes_eq hkeys.of_map]
    exact List.filter_sublist
  have hnodup : (((unclaimedAttributes e (family key).tags).map fun attr =>
      (attr.key, attr.value)).map Prod.fst).Nodup := by
    rw [List.map_map]
    exact hkeys.sublist (hsub.map Attribute.key)
  rw [SortedMap.get?_eq_some_iff, OtherAttributes.of, SortedMap.mem_ofList_iff hnodup]
  constructor
  · intro hentry
    obtain ⟨attr, hattr, hpair⟩ := List.mem_map.mp hentry
    obtain ⟨hname, hvalue⟩ := Prod.mk.inj hpair
    obtain ⟨hin, hnot⟩ := (hmem attr).mp hattr
    exact ⟨attr, hin, hname, hvalue, hnot⟩
  · rintro ⟨attr, hin, rfl, rfl, hnot⟩
    exact List.mem_map.mpr ⟨attr, (hmem attr).mpr ⟨hin, hnot⟩, rfl⟩

/-- An attribute that no field has found is not under the name that a field writes. -/
theorem key_ne_of_not_isRead (hkeys : e.HasDistinctKeys) {attr : Attribute}
    (hattr : attr ∈ e.attributes) (hnot : ¬IsRead family key e attr) {bound : BoundField κ}
    (hbound : bound ∈ (family key).fields) (hplace : bound.field.placement = .attr) :
    ⟨bound.field.tag.name, bound.field.rule.forAttribute⟩ ≠ attr.key := by
  intro hsame
  have hreads : Reads bound.field e.ns attr :=
    (reads_own hplace attr.value).of_key hsame
  cases hfound : findAttribute? e bound.field.tag.name bound.field.rule with
  | none =>
      have hnone := findAttribute?_eq_none_iff.mp hfound attr hattr
      exact Bool.false_ne_true (hnone.symm.trans hreads.2)
  | some found =>
      have hother : found ≠ attr := by
        rintro rfl
        exact hnot ⟨bound, hbound, hplace, hfound⟩
      obtain ⟨hqualified, hunqualified⟩ := passed_over hkeys hattr hreads.2 hfound hother
      have hns : bound.field.rule.forAttribute = attr.ns := congrArg QName.ns hsame
      exact hqualified (hns.symm.trans hunqualified)

/-- An attribute without a namespace is found wherever the namespace is inherited, too. -/
theorem findAttribute?_inherited (hkeys : e.HasDistinctKeys) {name : String} {attr : Attribute}
    (hfound : findAttribute? e name .unqualified = some attr) :
    findAttribute? e name .inherited = some attr := by
  obtain ⟨hmem, hmatches, _⟩ := spec_of_findAttribute? hfound
  obtain ⟨hname, hns⟩ := attributeMatches_iff.mp hmatches
  have hnone : attr.ns = none := by simpa [NamespaceRule.admits] using hns
  apply findAttribute?_eq_some hmem
  · exact attributeMatches_iff.mpr ⟨hname, by simp [NamespaceRule.admits, hnone]⟩
  · intro other hother hfits
    by_cases hqualified : other.ns = none
    · left
      apply List.inj_on_of_nodup_map hkeys hother hmem
      rw [Attribute.key, Attribute.key, (attributeMatches_iff.mp hfits).1, hname, hqualified, hnone]
    · exact Or.inr ⟨hnone, hqualified⟩

/-- Fields that write under one name have found one attribute. -/
theorem eq_of_findAttribute? (hkeys : e.HasDistinctKeys) {name : String}
    {rule rule' : NamespaceRule} (hsame : rule.forAttribute = rule'.forAttribute)
    {attr attr' : Attribute} (hfound : findAttribute? e name rule = some attr)
    (hfound' : findAttribute? e name rule' = some attr') : attr = attr' := by
  by_cases hrule : rule = rule'
  · rw [hrule, hfound', Option.some.injEq] at hfound
    exact hfound.symm
  · rcases (by cases rule <;> cases rule' <;> simp_all [NamespaceRule.forAttribute] :
        rule = .unqualified ∧ rule' = .inherited ∨ rule = .inherited ∧ rule' = .unqualified) with
      ⟨rfl, rfl⟩ | ⟨rfl, rfl⟩
    · rw [findAttribute?_inherited hkeys hfound, Option.some.injEq] at hfound'
      exact hfound'
    · rw [findAttribute?_inherited hkeys hfound', Option.some.injEq] at hfound
      exact hfound.symm

/-- A string holds the value of the attribute that its field has found. -/
theorem readField_of_keepsText [DecidableEq κ] {path : String} {index : Nat}
    {bound : BoundField κ} {slot : Option (FieldValue κ)} {attr : Attribute}
    (hplace : bound.field.placement = .attr) (hkeeps : bound.KeepsText)
    (hfound : findAttribute? e bound.field.tag.name bound.field.rule = some attr)
    (hread : readField family key path e index bound = .ok slot) :
    slot = some (.scalar (.string attr.value)) := by
  have htext : readText bound path attr.value = .ok (.scalar (.string attr.value)) := by
    rcases hkeeps.1 with hraw | hstring
    · simp only [readText, hraw]
    · simp only [readText, hstring]
      rfl
  simp only [readField, hplace, hfound, htext] at hread
  exact (Except.ok.inj hread).symm

end Parting

section Partition

variable [DecidableEq κ] {family : Family κ} {key : κ} {path : String} {e : Element}
  {slots : List (Option (FieldValue κ))} {bound : BoundField κ} {slot : Option (FieldValue κ)}
  {index : Nat} {name : QName} {value other : String}

open Element

omit [DecidableEq κ] in
theorem other_eq_slotOther {record : Record κ} (hslot : record.slots[index]? = some slot) :
    record.other index = slotOther slot := by
  rw [Record.other, Record.slot?, hslot]
  rfl

omit [DecidableEq κ] in
theorem leaves_of_slotOther (hget : (slotOther slot).get? name = some value) :
    Leaves bound name value slot := by
  unfold slotOther at hget
  split at hget
  · exact .other hget
  · contradiction

/-- What is left under the name of a leftover attribute is its value. -/
theorem eq_of_leaves_other (hkeys : e.HasDistinctKeys)
    (hbound : (family key).fields[index]? = some bound)
    (hread : readField family key path e index bound = .ok slot)
    (hvalue : (OtherAttributes.of (unclaimedAttributes e (family key).tags)).get? name =
      some value) (hleaves : Leaves bound name other slot) : other = value := by
  cases hleaves with
  | own hplace hname _ _ =>
      obtain ⟨attr, hattr, rfl, _, hnot⟩ := (get?_leftover_iff hkeys).mp hvalue
      have hmem := List.mem_of_getElem? hbound
      exact absurd hname (key_ne_of_not_isRead hkeys hattr hnot hmem hplace)
  | other hget =>
      rw [eq_leftover_of_readField hread hget, hvalue, Option.some.injEq] at hget
      exact hget.symm

/-- What is left under the name of a string is the value of the attribute that was found. -/
theorem eq_of_leaves_own (hkeys : e.HasDistinctKeys)
    (hstrings : ∀ taker ∈ (family key).fields, taker.field.placement = .attr → taker.KeepsText)
    {taker : BoundField κ} (htaker : taker ∈ (family key).fields)
    (htakes : taker.field.placement = .attr) {attr : Attribute}
    (hfound : findAttribute? e taker.field.tag.name taker.field.rule = some attr)
    (hbound : (family key).fields[index]? = some bound)
    (hread : readField family key path e index bound = .ok slot)
    (hleaves : Leaves bound ⟨taker.field.tag.name, taker.field.rule.forAttribute⟩ other slot) :
    other = attr.value := by
  cases hleaves with
  | @own scalar text hplace hname hwritten htext =>
      have hkeeps := hstrings bound (List.mem_of_getElem? hbound) hplace
      obtain ⟨htag, hrule⟩ := QName.mk.inj hname
      cases hmine : findAttribute? e bound.field.tag.name bound.field.rule with
      | none =>
          simp only [readField, hplace, hmine] at hread
          exact absurd (absent_eq_ok hread).1 (Option.some_ne_none _)
      | some attr' =>
          have hslot := readField_of_keepsText hplace hkeeps hmine hread
          obtain rfl : scalar = .string attr'.value :=
            FieldValue.scalar.inj (Option.some.inj hslot)
          have htexts : text = .string attr'.value := by
            simpa [BoundField.written?, hkeeps.2] using hwritten.symm
          rw [htag] at hmine
          rw [← htext, htexts, eq_of_findAttribute? hkeys hrule hmine hfound]
          rfl
  | other hget =>
      rw [eq_leftover_of_readField hread hget] at hget
      obtain ⟨left, hleft, hkey, _, hnot⟩ := (get?_leftover_iff hkeys).mp hget
      exact absurd hkey.symm (key_ne_of_not_isRead hkeys hleft hnot htaker htakes)

/-- What a field of a record that has been read leaves is there when the record is written,
if nothing else is left under the same name. -/
theorem get?_writeInto {record : Record κ} {target written : Element} (hfamily : IsBound family key)
    (hread : (readElement family key path e).outcome = .ok record)
    (hempty : target.attributes = []) (hwrite : writeInto family target record = .ok written)
    (hleaves : ∀ index bound slot other, (family key).fields[index]? = some bound →
      readField family key path e index bound = .ok slot → Leaves bound name other slot →
        other = value)
    (hbound : (family key).fields[index]? = some bound)
    (hslot : record.slots[index]? = some slot) (hleft : Leaves bound name value slot) :
    written.get? name = some value := by
  obtain ⟨slots, htags, rfl, hslots⟩ := exists_slots_of_readElement hfamily hread
  rw [writeInto, htags, ok_bind] at hwrite
  have hlength := hslots.length_eq
  rw [List.length_zipIdx] at hlength
  have hstart : target.get? name = none := by
    rw [Element.get?, hempty]
    rfl
  have hall : ∀ pair ∈ (family key).fields.zip slots, ∀ other, Leaves pair.1 name other pair.2 →
      other = value := by
    intro pair hpair other hother
    obtain ⟨place, hat⟩ := List.mem_iff_getElem?.mp hpair
    obtain ⟨hfirst, hsecond⟩ := List.getElem?_zip_eq_some.mp hat
    exact hleaves place pair.1 pair.2 other hfirst
      (rel_of_getElem?_zipIdx hslots hfirst hsecond) hother
  rcases gains_of_writeSlots hlength hall (Or.inl hstart) hwrite with hsome | ⟨_, _, hnot⟩
  · exact hsome
  · have hpair : (bound, slot) ∈ (family key).fields.zip slots :=
      List.mem_iff_getElem?.mpr ⟨index, List.getElem?_zip_eq_some.mpr ⟨hbound, hslot⟩⟩
    exact absurd ⟨(bound, slot), hpair, hleft⟩ hnot

end Partition

/-- What has been read off an element takes its attributes apart, and puts them together
again.  A field for leftover attributes holds those that no field has found, so each
attribute is one that some field has found or is held here, and not both.  Written into an
element of the same namespace, every leftover attribute has its own name and value, wherever
the field stands among the others; and where the others are strings, so have the attributes
that they have found. -/
theorem leftover_of_readElement [DecidableEq κ] {family : Family κ} {key : κ} {path : String}
    {e : Element} {record : Record κ} {index : Nat} {bound : BoundField κ}
    (hfamily : IsBound family key) (hkeys : e.HasDistinctKeys)
    (hread : (readElement family key path e).outcome = .ok record)
    (hbound : (family key).fields[index]? = some bound)
    (hoverflow : bound.field.kind = .overflow) :
    (∀ name value, (record.other index).get? name = some value ↔
      ∃ attr ∈ e.attributes, attr.key = name ∧ attr.value = value ∧ ¬IsRead family key e attr) ∧
    (∀ attr ∈ e.attributes,
      (record.other index).get? attr.key = some attr.value ↔ ¬IsRead family key e attr) ∧
    ∀ name declarations, ∃ written,
      writeElement family record name e.ns declarations = .ok written ∧
      (∀ other value, (record.other index).get? other = some value →
        written.get? other = some value) ∧
      ((∀ taker ∈ (family key).fields, taker.field.placement = .attr → taker.KeepsText) →
        ∀ taker ∈ (family key).fields, taker.field.placement = .attr → ∀ attr,
          findAttribute? e taker.field.tag.name taker.field.rule = some attr →
            written.get? ⟨taker.field.tag.name, taker.field.rule.forAttribute⟩ =
              some attr.value) := by
  have hplace : bound.field.placement = .overflow := by simp [FieldDecl.placement, hoverflow]
  obtain ⟨slot, hslot, hfield⟩ := exists_slot_of_readElement hfamily hread hbound
  have hother := slotOther_of_readField hplace hfield
  rw [other_eq_slotOther hslot, hother]
  refine ⟨fun name value => get?_leftover_iff hkeys, fun attr hattr => ?_,
    fun name declarations => ?_⟩
  · rw [get?_leftover_iff hkeys]
    constructor
    · rintro ⟨left, hleft, hkey, _, hnot⟩
      rwa [← List.inj_on_of_nodup_map hkeys hleft hattr hkey]
    · exact fun hnot => ⟨attr, hattr, rfl, rfl, hnot⟩
  · obtain ⟨written, hwritten⟩ := isWritten_of_readElement hfamily hread
      ((Element.empty name e.ns).declareAll declarations)
    have hempty : ((Element.empty name e.ns).declareAll declarations).attributes = [] := by
      rw [Element.declareAll_attributes]
      rfl
    refine ⟨written, hwritten, fun other value hvalue => ?_, fun hstrings taker htaker htakes attr
      hfound => ?_⟩
    · apply get?_writeInto hfamily hread hempty hwritten _ hbound hslot
      · rw [← hother] at hvalue
        exact leaves_of_slotOther hvalue
      · intro place field held left hat hheld
        exact eq_of_leaves_other hkeys hat hheld hvalue
    · obtain ⟨place, hat⟩ := List.mem_iff_getElem?.mp htaker
      obtain ⟨held, hheld, htook⟩ := exists_slot_of_readElement hfamily hread hat
      have hkeeps := hstrings taker htaker htakes
      apply get?_writeInto hfamily hread hempty hwritten _ hat hheld
      · have hwrites : taker.written? (.string attr.value) = some (.string attr.value) := by
          simp [BoundField.written?, hkeeps.2]
        rw [readField_of_keepsText htakes hkeeps hfound htook]
        exact .own htakes rfl hwrites rfl
      · intro place field slot other hfield hslot
        exact eq_of_leaves_own hkeys hstrings htaker htakes hfound hfield hslot

/-- Tags whose leftover attributes come first, and which look twice for one name. -/
def tagging : Family Unit := fun _ =>
  { name := "tag"
    rule := .fixed "urn:tags"
    fields :=
      [.overflow (FieldDecl.overflow "other"),
        .text (FieldDecl.value "id"),
        .text ((FieldDecl.value "ref").renamed "id").unqualified.nullable,
        .text ((FieldDecl.value "lang").inNamespace xmlNamespace).nullable]
    declarations := [] }

/-- A tag with its `id` in two spellings, and two attributes besides. -/
def spelledTag : Element :=
  { Element.empty "tag" (some "urn:tags") with
    attributes := [⟨"id", some "urn:tags", "b"⟩, ⟨"lang", none, "c"⟩, ⟨"id", none, "a"⟩,
      ⟨"x", some "urn:other", ""⟩] }

theorem leftover_of_readElement_spelledTag :
    IsBound tagging () ∧ spelledTag.HasDistinctKeys ∧
    ∃ record written, (readElement tagging () "/tag" spelledTag).outcome = .ok record ∧
      ((record.other 0).get? ⟨"id", some "urn:tags"⟩ = some "b" ↔
        ¬IsRead tagging () spelledTag ⟨"id", some "urn:tags", "b"⟩) ∧
      writeElement tagging record "tag" spelledTag.ns [] = .ok written ∧
      written.get? ⟨"lang", none⟩ = some "c" ∧ written.get? ⟨"id", none⟩ = some "a" := by
  have hfamily : IsBound tagging () := by
    intro type _
    have hfaithful : ∀ bound ∈ (tagging ()).fields, bound.Faithful := by decide
    exact fun bound hbound => (hfaithful bound hbound).fits
  have hkeys : spelledTag.HasDistinctKeys := by decide
  have hstrings : ∀ taker ∈ (tagging ()).fields, taker.field.placement = .attr →
      taker.KeepsText := by
    simp [tagging, BoundField.KeepsText, BoundField.overflow, BoundField.text, BoundField.value,
      FieldDecl.placement, FieldDecl.overflow, FieldDecl.value, FieldDecl.plain, FieldDecl.renamed,
      FieldDecl.unqualified, FieldDecl.nullable, FieldDecl.inNamespace]
  obtain ⟨record, hread, hother⟩ := exists_ok_of_any (by decide +kernel :
    (readElement tagging () "/tag" spelledTag).outcome.toOption.any
      (fun record => decide ((record.other 0).get? ⟨"lang", none⟩ = some "c")) = true)
  obtain ⟨_, hparts, hwrites⟩ := leftover_of_readElement hfamily hkeys hread
    (rfl : (tagging ()).fields[0]? = some (.overflow (FieldDecl.overflow "other"))) rfl
  obtain ⟨written, hwritten, hleft, hfound⟩ := hwrites "tag" []
  have hspelled := hparts ⟨"id", some "urn:tags", "b"⟩ (by simp [spelledTag])
  have hid : findAttribute? spelledTag "id" .inherited = some ⟨"id", none, "a"⟩ := by decide
  exact ⟨hfamily, hkeys, record, written, hread, hspelled, hwritten,
    hleft _ _ (of_decide_eq_true hother),
    hfound hstrings (.text (FieldDecl.value "id")) (by simp [tagging]) rfl _ hid⟩

end Epub.Binding
