/-
What writing makes of a record.  The fields of a complete record leave parts that
do not get in each other's way, and the element is put together from them.
-/
import Epub.Proofs.Binding.Parts

namespace Epub.Binding

open Epub.Schema Epub.Xml

variable {κ : Type}

/-- A field with its slot and the part it leaves. -/
structure Row (κ : Type) where
  bound : BoundField κ
  slot : Option (FieldValue κ)
  part : Part

section Rows

variable {family : Family κ} {ns : Option String} {rows : List (Row κ)}

theorem exists_rows {fields : List (BoundField κ)} {slots : List (Option (FieldValue κ))}
    (hslots : List.Forall₂ BoundField.Carries fields slots)
    (hmembers : ∀ pair ∈ fields.zip slots, ∀ member ∈ slotMembers pair.2,
      ∃ child, WritesChild family (memberName family pair.1.field ns) member child) :
    ∃ rows : List (Row κ), rows.map Row.bound = fields ∧ rows.map Row.slot = slots ∧
      ∀ row ∈ rows, row.bound.Carries row.slot ∧
        Wrote family ns row.bound row.slot row.part := by
  induction hslots with
  | nil => exact ⟨[], rfl, rfl, by simp⟩
  | @cons bound slot fields slots hcarries _ ih =>
      obtain ⟨rows, hfields, hslots, hrows⟩ :=
        ih fun pair hpair => hmembers pair (List.mem_cons_of_mem _ hpair)
      obtain ⟨part, hpart⟩ := exists_part hcarries (hmembers (bound, slot) List.mem_cons_self)
      refine ⟨⟨bound, slot, part⟩ :: rows, by rw [List.map_cons, hfields],
        by rw [List.map_cons, hslots], ?_⟩
      exact List.forall_mem_cons.mpr ⟨⟨hcarries, hpart⟩, hrows⟩

/-- The rows of an element in `ns`, each of its parts belonging to one of them. -/
structure Laid (family : Family κ) (ns : Option String) (rows : List (Row κ)) : Prop where
  carries : ∀ row ∈ rows, row.bound.Carries row.slot
  wrote : ∀ row ∈ rows, Wrote family ns row.bound row.slot row.part
  faithful : ∀ row ∈ rows, row.bound.Faithful
  attributes : rows.Pairwise fun first second =>
    ∀ attr, ¬(Reads first.bound.field ns attr ∧ Reads second.bound.field ns attr)
  children : (rows.flatMap fun row => childKeys family row.bound.field ns).Nodup
  items : ∀ row ∈ rows, row.bound.field.placement = .wrappedList →
    (memberKeys family row.bound.field ns).Nodup
  text : rows.Pairwise fun first second =>
    ¬(first.bound.field.isText = true ∧ second.bound.field.isText = true)
  rest : rows.Pairwise fun first second =>
    ¬(first.bound.field.takesRest = true ∧ second.bound.field.takesRest = true)
  overflow : rows.Pairwise fun first second =>
    ¬(first.bound.field.kind = .overflow ∧ second.bound.field.kind = .overflow)
  default : ∀ row ∈ rows, settleSlot family row.bound row.slot = none →
    row.bound.field.hasDefault = true
  apart : ∀ row ∈ rows, ∀ other, row.slot = some (.overflow other) →
    ∀ entry ∈ other.entries, ∀ taker ∈ rows, Reads taker.bound.field ns (entryAttribute entry) →
      entry.1.ns ≠ none ∧ taker.bound.field.rule.forAttribute = none ∧
        settleSlot family taker.bound taker.slot ≠ none

/-- The rows of a complete record are laid out that way. -/
theorem laid_of_complete {key : κ} {slots : List (Option (FieldValue κ))}
    (hfamily : UnambiguousAt family key ns)
    (hcomplete : ((Record.mk key slots).settle family).Complete family ns)
    (hfields : rows.map Row.bound = (family key).fields) (hslots : rows.map Row.slot = slots)
    (hrows : ∀ row ∈ rows, row.bound.Carries row.slot ∧
      Wrote family ns row.bound row.slot row.part) : Laid family ns rows := by
  subst hslots
  have hzip : (family key).fields.zip
      (settleSlots family (family key).fields (rows.map Row.slot)) =
        rows.map fun row => (row.bound, settleSlot family row.bound row.slot) := by
    rw [← hfields, settleSlots_eq_map, List.zip_map']
  rw [Record.settle] at hcomplete
  cases hcomplete with
  | mk hdefault hother _ =>
      rw [hzip] at hdefault hother
      obtain ⟨tags, htags⟩ := hfamily.tags
      have htext := Descriptor.text_unique htags
      have hattributes := hfamily.attributes
      have hchildren := hfamily.children
      have hrest := hfamily.rest
      have hoverflow := hfamily.overflow
      simp only [BoundType.descriptor] at htext
      rw [← hfields] at htext hattributes hchildren hrest hoverflow
      simp only [List.pairwise_map, List.flatMap_map] at htext hattributes hchildren hrest hoverflow
      have hmem : ∀ row ∈ rows, row.bound ∈ (family key).fields := fun row hrow => by
        rw [← hfields]
        exact List.mem_map_of_mem hrow
      refine ⟨fun row hrow => (hrows row hrow).1, fun row hrow => (hrows row hrow).2,
        fun row hrow => hfamily.faithful _ (hmem row hrow), hattributes, hchildren,
        fun row hrow => hfamily.items _ (hmem row hrow), htext, hrest, hoverflow, ?_, ?_⟩
      · intro row hrow hnone
        exact hdefault _ (List.mem_map_of_mem hrow) hnone
      · intro row hrow other hslot entry hentry taker htaker hreads
        have hsettled : settleSlot family row.bound row.slot = some (.overflow other) := by
          have hempty : other.isEmpty = false := by
            rw [SortedMap.isEmpty, List.isEmpty_eq_false_iff]
            exact List.ne_nil_of_mem hentry
          rw [hslot, settleSlot_of_overflow _ hempty]
        have hmem : entry ∈ slotEntries (settleSlot family row.bound row.slot) := by
          rw [hsettled]
          exact hentry
        exact hother _ (List.mem_map_of_mem hrow) entry hmem _ (List.mem_map_of_mem htaker) hreads

/-- Where the attributes of a part come from. -/
theorem attribute_cases {bound : BoundField κ} {slot : Option (FieldValue κ)} {part : Part}
    (hwrote : Wrote family ns bound slot part) {attr : Attribute}
    (hattr : attr ∈ part.attributes) :
    (∃ value, slot = some (.scalar value) ∧ bound.field.placement = .attr ∧
      bound.written? value = some value ∧
      attr = ⟨bound.field.tag.name, bound.field.rule.forAttribute, value.text⟩) ∨
    ∃ other, slot = some (.overflow other) ∧ bound.field.kind = .overflow ∧
      ∃ entry ∈ other.entries, attr = entryAttribute entry := by
  cases hwrote with
  | attr hplace hwritten =>
      exact Or.inl ⟨_, rfl, hplace, hwritten, List.mem_singleton.mp hattr⟩
  | overflow hplace hskips =>
      obtain ⟨entry, hentry, rfl⟩ := List.mem_map.mp hattr
      exact Or.inr ⟨_, rfl, kind_of_overflow hplace, entry, hentry, rfl⟩
  | nothing _ _ => exact absurd hattr List.not_mem_nil
  | text _ _ => exact absurd hattr List.not_mem_nil
  | element _ _ => exact absurd hattr List.not_mem_nil
  | wrapped _ _ _ => exact absurd hattr List.not_mem_nil
  | items _ _ _ => exact absurd hattr List.not_mem_nil

theorem admits_forAttribute (rule : NamespaceRule) (own : Option String) :
    rule.admits own rule.forAttribute = true := by
  cases rule <;> simp [NamespaceRule.admits, NamespaceRule.forAttribute]

/-- A field reads what it writes. -/
theorem reads_own {field : FieldDecl κ} (hplace : field.placement = .attr) (text : String) :
    Reads field ns ⟨field.tag.name, field.rule.forAttribute, text⟩ := by
  exact ⟨hplace, attributeMatches_iff.mpr ⟨rfl, admits_forAttribute _ _⟩⟩

/-- Only the key of an attribute decides whether a field reads it. -/
theorem Reads.of_key {field : FieldDecl κ} {attr other : Attribute}
    (hreads : Reads field ns attr) (hkey : attr.key = other.key) : Reads field ns other := by
  obtain ⟨hname, hns⟩ := QName.mk.inj hkey
  have hmatches := attributeMatches_iff.mp hreads.2
  exact ⟨hreads.1, attributeMatches_iff.mpr ⟨hname ▸ hmatches.1, hns ▸ hmatches.2⟩⟩

namespace Laid

/-- A leftover attribute has another key than those that the fields write. -/
theorem key_ne_of_other (hlaid : Laid family ns rows) {row taker : Row κ} (hrow : row ∈ rows)
    (htaker : taker ∈ rows) {other : OtherAttributes}
    (hslot : row.slot = some (.overflow other)) {entry : QName × String}
    (hentry : entry ∈ other.entries) (hplace : taker.bound.field.placement = .attr)
    (text : String) :
    entry.1 ≠ Attribute.key
      ⟨taker.bound.field.tag.name, taker.bound.field.rule.forAttribute, text⟩ := by
  intro hkey
  have hreads : Reads taker.bound.field ns (entryAttribute entry) :=
    (reads_own hplace text).of_key hkey.symm
  obtain ⟨hqualified, hunqualified, _⟩ := hlaid.apart row hrow other hslot entry hentry taker
    htaker hreads
  rw [hkey] at hqualified
  exact hqualified hunqualified

/-- No two attributes of the element have the same key. -/
theorem nodup_keys (hlaid : Laid family ns rows) :
    ((rows.flatMap fun row => row.part.attributes).map Attribute.key).Nodup := by
  rw [List.map_flatMap, List.nodup_flatMap]
  constructor
  · intro row hrow
    have hwrote := hlaid.wrote row hrow
    obtain ⟨bound, slot, part⟩ := row
    dsimp only at hwrote ⊢
    cases hwrote with
    | overflow hplace hskips =>
        rename_i other
        have hsorted := other.sorted
        rw [List.map_map]
        refine List.Pairwise.map _ (fun left right hlt heq => ?_) hsorted
        have heq : left.1 = right.1 := heq
        rw [heq] at hlt
        exact absurd hlt (by simp)
    | attr _ _ => exact List.nodup_singleton _
    | nothing _ _ => exact List.nodup_nil
    | text _ _ => exact List.nodup_nil
    | element _ _ => exact List.nodup_nil
    | wrapped _ _ _ => exact List.nodup_nil
    | items _ _ _ => exact List.nodup_nil
  · refine (hlaid.attributes.and hlaid.overflow).imp_of_mem ?_
    intro first second hfirst hsecond ⟨hattributes, hoverflow⟩ key hkey hkey'
    obtain ⟨attr, hattr, rfl⟩ := List.mem_map.mp hkey
    obtain ⟨attr', hattr', hsame⟩ := List.mem_map.mp hkey'
    rcases attribute_cases (hlaid.wrote first hfirst) hattr with
      ⟨value, hslot, hplace, _, rfl⟩ | ⟨other, hslot, hkind, entry, hentry, rfl⟩
    · rcases attribute_cases (hlaid.wrote second hsecond) hattr' with
        ⟨value', _, hplace', _, rfl⟩ | ⟨other, hslot', _, entry, hentry, rfl⟩
      · exact hattributes _ ⟨reads_own hplace value.text,
          (reads_own hplace' value'.text).of_key hsame⟩
      · exact hlaid.key_ne_of_other hsecond hfirst hslot' hentry hplace value.text hsame
    · rcases attribute_cases (hlaid.wrote second hsecond) hattr' with
        ⟨value', _, hplace', _, rfl⟩ | ⟨other', _, hkind', _⟩
      · exact hlaid.key_ne_of_other hfirst hsecond hslot hentry hplace' value'.text hsame.symm
      · exact hoverflow ⟨hkind, hkind'⟩

end Laid

/-- The rows of an element are written in turn. -/
theorem writeSlots_of_rows (hrows : ∀ row ∈ rows, Wrote family ns row.bound row.slot row.part)
    (typeName : String) {e : Element}
    (hnodup : ((e.attributes ++ rows.flatMap fun row => row.part.attributes).map
      Attribute.key).Nodup) :
    writeSlots family typeName ns (rows.map fun row => (row.bound, row.bound.field.tag)) e
      (rows.map Row.slot) = .ok (assemble e (rows.map Row.part)) := by
  induction rows generalizing e with
  | nil => rw [List.map_nil, List.map_nil, List.map_nil, assemble_nil]; rfl
  | cons row rest ih =>
      have hown : ((e.attributes ++ row.part.attributes).map Attribute.key).Nodup := by
        rw [List.flatMap_cons, ← List.append_assoc, List.map_append] at hnodup
        exact (List.nodup_append.mp hnodup).1
      have hfirst := writeSlot_of_wrote (hrows row List.mem_cons_self) typeName fun _ => hown
      rw [List.map_cons, List.map_cons, List.map_cons, writeSlots, hfirst, ok_bind,
        ih (fun other hother => hrows other (List.mem_cons_of_mem row hother)) (by
          simpa [assemble] using hnodup), ← assemble_cons]

end Rows

/-- A member that can be written is not lost when its record is settled. -/
theorem settle_mem_slotMembers {family : Family κ} {bound : BoundField κ}
    {slot : Option (FieldValue κ)} {member : Record κ} (hmember : member ∈ slotMembers slot) :
    member.settle family ∈ slotMembers (settleSlot family bound slot) := by
  cases slot with
  | none => exact absurd hmember List.not_mem_nil
  | some value =>
      cases value with
      | scalar value => exact absurd hmember List.not_mem_nil
      | overflow other => exact absurd hmember List.not_mem_nil
      | element record =>
          rw [List.mem_singleton.mp hmember, settleSlot_of_element]
          exact List.mem_singleton_self _
      | list records =>
          have hempty : records.isEmpty = false := by
            rw [List.isEmpty_eq_false_iff]
            exact List.ne_nil_of_mem hmember
          rw [settleSlot_of_list (by simp [BoundField.skips, hempty]), settleRecords_eq_map]
          exact List.mem_map_of_mem hmember

/-- The types of the members are those that the field may hold. -/
theorem BoundField.Admits.type_mem {bound : BoundField κ} {slot : Option (FieldValue κ)}
    (hadmits : bound.Admits slot) {member : Record κ} (hmember : member ∈ slotMembers slot) :
    member.type ∈ bound.field.kind.types := by
  cases slot with
  | none => exact absurd hmember List.not_mem_nil
  | some value =>
      cases value <;> cases hkind : bound.field.kind <;>
        simp_all [BoundField.Admits, FieldKind.types, slotMembers]

theorem BoundField.Carries.type_mem {bound : BoundField κ} {slot : Option (FieldValue κ)}
    (hcarries : bound.Carries slot) {member : Record κ} (hmember : member ∈ slotMembers slot) :
    member.type ∈ bound.field.kind.types :=
  hcarries.admits.type_mem hmember

/-- Writing a record puts an element together from the parts of its fields. -/
theorem exists_laid {family : Family κ} {ns : Option String} {key : κ}
    {slots : List (Option (FieldValue κ))} (hfamily : UnambiguousAt family key ns)
    (hslots : List.Forall₂ BoundField.Carries (family key).fields slots)
    (hcomplete : ((Record.mk key slots).settle family).Complete family ns)
    (hmembers : ∀ pair ∈ (family key).fields.zip slots, ∀ member ∈ slotMembers pair.2,
      ∃ child, WritesChild family (memberName family pair.1.field ns) member child) :
    ∃ rows : List (Row κ), rows.map Row.bound = (family key).fields ∧
      rows.map Row.slot = slots ∧ Laid family ns rows ∧
      ∀ name declarations, writeElement family (.mk key slots) name ns declarations =
        .ok (assemble ((Element.empty name ns).declareAll declarations)
          (rows.map Row.part)) := by
  obtain ⟨rows, hfields, hrowslots, hrows⟩ := exists_rows hslots hmembers
  have hlaid := laid_of_complete hfamily hcomplete hfields hrowslots hrows
  refine ⟨rows, hfields, hrowslots, hlaid, fun name declarations => ?_⟩
  obtain ⟨tags, htags⟩ := hfamily.tags
  have htagged : (family key).fields.zip tags =
      rows.map fun row => (row.bound, row.bound.field.tag) := by
    rw [Descriptor.eq_of_tags htags, BoundType.descriptor, ← hfields]
    simp only [List.map_map]
    rw [List.zip_map']
    rfl
  rw [writeElement, writeInto, htags, ok_bind]
  simp only [htagged, Element.declareAll_ns]
  rw [← hrowslots]
  exact writeSlots_of_rows hlaid.wrote (family key).name (by
    simpa [Element.empty] using hlaid.nodup_keys)

end Epub.Binding
