/-
Records that have been read are complete.  Whatever the element holds besides, the
record read off it lacks nothing, and can be written again where the element stood.
-/
import Epub.Proofs.Binding.Taken

namespace Epub.Binding

open Epub.Schema Epub.Xml

variable {κ : Type}

/-- What a type leaves out when it writes can be missed: only fields that may be absent
are left out at their default, and beside leftover attributes no attribute is. -/
structure IsSparing (family : Family κ) (key : κ) : Prop where
  optional : ∀ bound ∈ (family key).fields, bound.omitsDefault = true →
    bound.field.hasDefault = true
  overflow : ∀ bound ∈ (family key).fields, bound.field.kind = .overflow →
    ∀ other ∈ (family key).fields, other.field.placement = .attr → other.omitsDefault = false

section Attributes

variable {e : Element} {attr found : Attribute} {name : String} {rule : NamespaceRule}

/-- Of two attributes that a tag could read, the one that is passed over is qualified, and
the tag writes the other one without a namespace. -/
theorem passed_over (hkeys : (e.attributes.map Attribute.key).Nodup)
    (hattr : attr ∈ e.attributes) (hmatches : attributeMatches name rule e.ns attr = true)
    (hfound : findAttribute? e name rule = some found) (hother : found ≠ attr) :
    attr.ns ≠ none ∧ rule.forAttribute = none := by
  obtain ⟨hmem, hfits, hunqualified⟩ := spec_of_findAttribute? hfound
  have hns : found.ns ≠ attr.ns := by
    intro hns
    refine hother (List.inj_on_of_nodup_map hkeys hmem hattr ?_)
    rw [Attribute.key, Attribute.key, hns, (attributeMatches_iff.mp hfits).1,
      (attributeMatches_iff.mp hmatches).1]
  constructor
  · intro hnone
    rcases hunqualified with hfoundNone | hall
    · exact hns (hfoundNone.trans hnone.symm)
    · exact hall attr hattr hmatches hnone
  · rw [attributeMatches_iff] at hmatches hfits
    cases rule with
    | inherited => rfl
    | unqualified => rfl
    | fixed uri =>
        have hboth : found.ns = some uri ∧ attr.ns = some uri := by
          simpa [NamespaceRule.admits] using And.intro hfits.2 hmatches.2
        exact absurd (hboth.1.trans hboth.2.symm) hns

theorem mem_of_mem_entries {attributes : List Attribute} {entry : QName × String}
    (hentry : entry ∈ (OtherAttributes.of attributes).entries) :
    entryAttribute entry ∈ attributes := by
  obtain ⟨attr, hattr, rfl⟩ := List.mem_map.mp (SortedMap.mem_entries_of_mem_ofList hentry)
  exact hattr

end Attributes

section Slots

variable [DecidableEq κ] {family : Family κ} {tags : List Tag} {e : Element}
  {bound : BoundField κ} {slot : Option (FieldValue κ)}

theorem carries_of_took (htook : Took family tags e bound slot)
    (htypes : ∀ member ∈ slotMembers slot, member.type ∈ bound.field.kind.types) :
    bound.Carries slot := by
  cases htook with
  | nothing _ _ => trivial
  | attr hplace _ hread =>
      simpa [BoundField.Carries, (value_of_attr hplace).1] using ScalarType.holds_of_read hread
  | text hplace _ hread =>
      simpa [BoundField.Carries, (value_of_text hplace).1] using ScalarType.holds_of_read hread
  | element hplace _ =>
      obtain ⟨type, hkind⟩ := element_of_placement hplace
      rw [hkind] at htypes
      simpa [BoundField.Carries, hkind] using
        List.mem_singleton.mp (htypes _ List.mem_cons_self)
  | list hlist _ _ =>
      cases hkind : bound.field.kind with
      | list type =>
          rw [hkind] at htypes
          simpa [BoundField.Carries, hkind, slotMembers, FieldKind.types] using htypes
      | variants types =>
          rw [hkind] at htypes
          simpa [BoundField.Carries, hkind, slotMembers, FieldKind.types] using htypes
      | value => simp [hkind, FieldKind.isList] at hlist
      | element type => simp [hkind, FieldKind.isList] at hlist
      | overflow => simp [hkind, FieldKind.isList] at hlist
  | overflow hplace _ => simp [BoundField.Carries, kind_of_overflow hplace]

/-- A slot that leaves nothing behind is that of a field that may be absent. -/
theorem hasDefault_of_took (htook : Took family tags e bound slot)
    (homits : bound.omitsDefault = true → bound.field.hasDefault = true)
    (hsettled : settleSlot family bound slot = none) : bound.field.hasDefault = true := by
  have hscalar : ∀ value, slot = some (.scalar value) →
      (bound.field.isText = true → value.text ≠ "") → bound.field.hasDefault = true := by
    rintro value rfl htext
    by_contra hrequired
    have hkept : bound.omitsDefault = false := by
      cases hcase : bound.omitsDefault with
      | false => rfl
      | true => exact absurd (homits hcase) hrequired
    have hsilent : bound.isSilent (some (.scalar value)) = false := by
      simpa [BoundField.isSilent] using htext
    simp [settleSlot, BoundField.skips, BoundField.written?, hkept, hsilent] at hsettled
  cases htook with
  | nothing hdefault _ => exact hdefault
  | attr hplace _ hread =>
      refine hscalar _ rfl fun htext => ?_
      rw [(value_of_attr hplace).2] at htext
      contradiction
  | text _ hraw hread =>
      exact hscalar _ rfl fun _ => ScalarType.text_ne_empty_of_read hread hraw
  | element _ _ =>
      rw [settleSlot_of_element] at hsettled
      contradiction
  | @list records _ hempty _ =>
      cases hskips : bound.skips (some (.list records)) with
      | false =>
          rw [settleSlot_of_list hskips] at hsettled
          contradiction
      | true =>
          simp only [BoundField.skips, Bool.and_eq_true, Bool.or_eq_true] at hskips
          have hwrapper := hempty (List.isEmpty_iff.mp hskips.1)
          rcases hskips.2 with hnone | hdefault
          · rw [Option.isNone_iff_eq_none.mp hnone] at hwrapper
            contradiction
          · exact hdefault
  | overflow _ hleft =>
      rw [settleSlot_of_overflow bound hleft] at hsettled
      contradiction

theorem isReadOff_of_took (htook : Took family tags e bound slot) {member : Record κ}
    (hmember : member ∈ slotMembers slot) : IsReadOff family bound e member := by
  cases htook with
  | element _ hrecord => exact List.mem_singleton.mp hmember ▸ hrecord
  | list _ _ hrecords => exact hrecords member hmember
  | nothing _ _ => exact absurd hmember List.not_mem_nil
  | attr _ _ _ => exact absurd hmember List.not_mem_nil
  | text _ _ _ => exact absurd hmember List.not_mem_nil
  | overflow _ _ => exact absurd hmember List.not_mem_nil

/-- What a field leaves over is what no field has taken. -/
theorem unclaimed_of_took (htook : Took family tags e bound slot) {entry : QName × String}
    (hentry : entry ∈ slotEntries slot) :
    bound.field.kind = .overflow ∧ entryAttribute entry ∈ unclaimedAttributes e tags := by
  cases htook with
  | overflow hplace _ => exact ⟨kind_of_overflow hplace, mem_of_mem_entries hentry⟩
  | nothing _ _ => exact absurd hentry List.not_mem_nil
  | attr _ _ _ => exact absurd hentry List.not_mem_nil
  | text _ _ _ => exact absurd hentry List.not_mem_nil
  | element _ _ => exact absurd hentry List.not_mem_nil
  | list _ _ _ => exact absurd hentry List.not_mem_nil

/-- An attribute that no field took is apart from those that fields took. -/
theorem isApart_of_took {key : κ} {slots : List (Option (FieldValue κ))}
    (hkeys : (e.attributes.map Attribute.key).Nodup)
    (htook : List.Forall₂ (Took family ((family key).fields.map fun bound => bound.field.tag) e)
      (family key).fields slots)
    (hkept : ∀ bound ∈ (family key).fields, bound.field.placement = .attr →
      bound.omitsDefault = false) {attr : Attribute}
    (hattr : attr ∈ unclaimedAttributes e
      ((family key).fields.map fun bound => bound.field.tag)) :
    IsApart e.ns ((family key).fields.zip (settleSlots family (family key).fields slots)) attr := by
  rw [unclaimedAttributes_eq hkeys.of_map, List.mem_filter] at hattr
  obtain ⟨hmem, hunread⟩ := hattr
  have hunread := of_decide_eq_true hunread
  rw [zip_settleSlots]
  intro row hrow hreads
  obtain ⟨pair, hpair, rfl⟩ := List.mem_map.mp hrow
  obtain ⟨bound, slot⟩ := pair
  have hbound := (List.of_mem_zip hpair).1
  have hslot := List.forall₂_zip htook hpair
  dsimp only at hreads ⊢
  obtain ⟨hplace, hmatches⟩ := hreads
  have hnot := hunread bound.field.tag (List.mem_map_of_mem hbound) hplace
  cases hslot with
  | nothing _ hnone =>
      rw [findAttribute?_eq_none_iff.mp (hnone hplace) attr hmem] at hmatches
      contradiction
  | attr _ hfound hread =>
      have hother := fun heq => hnot (hfound.trans (congrArg some heq))
      obtain ⟨hqualified, hunqualified⟩ := passed_over hkeys hmem hmatches hfound hother
      refine ⟨hqualified, hunqualified, ?_⟩
      rw [settleSlot_attribute (hkept bound hbound hplace) (value_of_attr hplace).2]
      exact Option.some_ne_none _
  | text hother _ _ => rw [hplace] at hother; contradiction
  | element hother _ => rw [hplace] at hother; contradiction
  | list hlist _ _ => rw [(value_of_attr hplace).1] at hlist; contradiction
  | overflow hother _ => rw [hplace] at hother; contradiction

end Slots

/-- A record that has been read holds in each slot what its field has taken. -/
theorem took_of_readElement [DecidableEq κ] {family : Family κ} {e : Element} {key : κ}
    {path : String} {record : Record κ} (hat : UnambiguousAt family key e.ns)
    (hread : (readElement family key path e).outcome = .ok record) :
    ∃ slots, record = .mk key slots ∧
      List.Forall₂ (Took family ((family key).fields.map fun bound => bound.field.tag) e)
        (family key).fields slots := by
  obtain ⟨tags, slots, htags, hslots, rfl⟩ := readElement_eq_ok_iff.mp hread
  have htagged : tags = (family key).fields.map fun bound => bound.field.tag := by
    rw [Descriptor.eq_of_tags htags, BoundType.descriptor, List.map_map]
    rfl
  subst htagged
  refine ⟨slots, rfl, ?_⟩
  have hall := forall₂_of_zipIdx (S := fun pair slot => ∃ index,
    (readSlot family (family key).name ((family key).fields.map fun bound => bound.field.tag)
      path e (pair, index)).outcome = .ok slot) hslots fun _ index _ hslot => ⟨index, hslot⟩
  rw [zip_tags, List.forall₂_map_left_iff] at hall
  refine forall₂_imp_mem hall fun bound hbound slot hslot => ?_
  obtain ⟨_, hslot⟩ := hslot
  exact took_of_readSlot (hat.faithful bound hbound) hslot

/-- A record whose slots are what its fields took lacks nothing, if its members do not. -/
theorem complete_of_took [DecidableEq κ] {family : Family κ} {e : Element} {key : κ}
    (hsparing : IsSparing family key) (hkeys : (e.attributes.map Attribute.key).Nodup)
    {slots : List (Option (FieldValue κ))}
    (htook : List.Forall₂ (Took family ((family key).fields.map fun bound => bound.field.tag) e)
      (family key).fields slots)
    (hmembers : ∀ pair ∈ (family key).fields.zip slots, ∀ member ∈ slotMembers pair.2,
      member.type ∈ pair.1.field.kind.types ∧ member.WellTyped family ∧
        (member.settle family).Complete family
          (memberName family pair.1.field e.ns member.type).ns) :
    (Record.mk key slots).WellTyped family ∧
      ((Record.mk key slots).settle family).Complete family e.ns := by
  refine ⟨.mk ?_ ?_, ?_⟩
  · refine List.forall₂_iff_zip.mpr ⟨htook.length_eq, fun hpair => ?_⟩
    exact carries_of_took (List.forall₂_zip htook hpair) fun member hmem =>
      (hmembers _ hpair member hmem).1
  · intro slot hslot member hmem
    rw [← List.map_snd_zip (Nat.le_of_eq htook.length_eq.symm)] at hslot
    obtain ⟨pair, hpair, rfl⟩ := List.mem_map.mp hslot
    exact (hmembers pair hpair member hmem).2.1
  · rw [Record.settle]
    refine .mk ?_ ?_ ?_
    · rw [zip_settleSlots]
      intro row hrow hnone
      obtain ⟨pair, hpair, rfl⟩ := List.mem_map.mp hrow
      exact hasDefault_of_took (List.forall₂_zip htook hpair)
        (hsparing.optional pair.1 (List.of_mem_zip hpair).1) hnone
    · intro row hrow entry hentry
      rw [zip_settleSlots] at hrow
      obtain ⟨pair, hpair, rfl⟩ := List.mem_map.mp hrow
      obtain ⟨hkind, hleft⟩ := unclaimed_of_took (List.forall₂_zip htook hpair)
        (mem_slotEntries_settleSlot hentry)
      exact isApart_of_took hkeys htook
        (hsparing.overflow pair.1 (List.of_mem_zip hpair).1 hkind) hleft
    · rw [zip_settleSlots]
      intro row hrow member hmem
      obtain ⟨pair, hpair, rfl⟩ := List.mem_map.mp hrow
      obtain ⟨inner, hinner, rfl⟩ := mem_slotMembers_settleSlot hmem
      rw [settle_type]
      exact (hmembers pair hpair inner hinner).2.2

/-- What has been read from an element where no two attributes have the same name can be
written again in its place. -/
theorem complete_of_readElement [DecidableEq κ] {family : Family κ}
    (hsparing : ∀ key, IsSparing family key) {e : Element} {key : κ} {path : String}
    {record : Record κ} (hfamily : Unambiguous family key e.ns)
    (hkeys : e.Everywhere fun inner => (inner.attributes.map Attribute.key).Nodup)
    (hread : (readElement family key path e).outcome = .ok record) :
    record.type = key ∧ record.WellTyped family ∧
      (record.settle family).Complete family e.ns := by
  obtain ⟨slots, rfl, htook⟩ := took_of_readElement hfamily.here hread
  refine ⟨rfl, complete_of_took (hsparing key) hkeys.here htook fun pair hpair member hmember => ?_⟩
  -- the records in the slots are read off elements inside `e`
  obtain ⟨child, type, path, hinside, htype, hns, hread⟩ :=
    isReadOff_of_took (List.forall₂_zip htook hpair) hmember
  have hbelow : sizeOf child < sizeOf e ∧
      child.Everywhere fun inner => (inner.attributes.map Attribute.key).Nodup := by
    rcases hinside with hchild | ⟨wrapper, hwrapper, hchild⟩
    · exact ⟨Element.sizeOf_child_lt hchild, hkeys.inside hchild⟩
    · exact ⟨Nat.lt_trans (Element.sizeOf_child_lt hchild) (Element.sizeOf_child_lt hwrapper),
        (hkeys.inside hwrapper).inside hchild⟩
  have hfamily' := hfamily.inside (List.of_mem_zip hpair).1 htype
  rw [← hns] at hfamily'
  obtain ⟨rfl, htyped, hcomplete⟩ := complete_of_readElement hsparing hfamily' hbelow.2 hread
  exact ⟨htype, htyped, hns ▸ hcomplete⟩
termination_by sizeOf e
decreasing_by exact hbelow.1

end Epub.Binding
