/-
Reading what was written.  Each field takes what it has found for the slot that it
had, so an element put together from the fields of a record is read as that record.
-/
import Epub.Proofs.Binding.Locating

namespace Epub.Binding

open Epub.Schema Epub.Xml

variable {κ : Type} [DecidableEq κ]

/-- Read the slot of a field, given with its tag and its position. -/
def readSlot (family : Family κ) (typeName : String) (tags : List Tag) (path : String)
    (e : Element) (field : (BoundField κ × Tag) × Nat) : Traced (Option (FieldValue κ)) :=
  match locate family typeName tags field.2 field.1.1.field field.1.2 path e with
  | .error error => .fail error
  | .ok none => do
      if field.1.2.required then Traced.fail (.decode (missing field.1.2 path))
      Traced.note (.absentField field.1.2.name path)
      return none
  | .ok (some located) =>
      some <$> take typeName field.1.2 path field.1.1.accessor located
        fun child _ key path => readElement family key path child

theorem readElement_eq (family : Family κ) (key : κ) (path : String) (e : Element) :
    readElement family key path e = do
      let tags ← .lift ((family key).descriptor.tags.mapError .schema)
      let slots ← ((family key).fields.zip tags).zipIdx.mapM
        (readSlot family (family key).name tags path e)
      .noteAll (ignored (family key).descriptor tags path e)
      return .mk key slots := by
  rw [readElement]
  congr 1
  funext tags
  congr 1
  congr 1
  funext ⟨⟨bound, tag⟩, index⟩
  rw [readSlot]
  dsimp only
  split <;> rename_i hlocate <;> rw [hlocate]

omit [DecidableEq κ] in
/-- Fields beside their own tags. -/
theorem zip_tags (fields : List (BoundField κ)) :
    fields.zip (fields.map fun bound => bound.field.tag) =
      fields.map fun bound => (bound, bound.field.tag) := by
  have hmaps := List.zip_map' (f := id) (g := fun bound : BoundField κ => bound.field.tag)
    (l := fields)
  rwa [List.map_id] at hmaps

/-- An element is read when every field is. -/
theorem readElement_eq_ok_iff {family : Family κ} {key : κ} {path : String} {e : Element}
    {record : Record κ} :
    (readElement family key path e).outcome = .ok record ↔
      ∃ tags slots, (family key).descriptor.tags = .ok tags ∧
        List.Forall₂ (fun field slot =>
          (readSlot family (family key).name tags path e field).outcome = .ok slot)
          ((family key).fields.zip tags).zipIdx slots ∧ record = .mk key slots := by
  rw [readElement_eq]
  simp only [Traced.outcome_bind, Traced.outcome_lift, Traced.outcome_noteAll,
    Traced.outcome_pure, bind_eq_ok, mapError_eq_ok, Traced.outcome_mapM_eq_ok_iff]
  constructor
  · rintro ⟨tags, htags, slots, hslots, _, _, hrecord⟩
    exact ⟨tags, slots, htags, hslots, (Except.ok.inj hrecord).symm⟩
  · rintro ⟨tags, slots, htags, hslots, rfl⟩
    exact ⟨tags, htags, slots, hslots, (), trivial, rfl⟩

section Slots

variable {family : Family κ} {typeName path : String} {tags : List Tag} {e : Element}
  {bound : BoundField κ} {index : Nat}

theorem readSlot_of_none
    (hlocate : locate family typeName tags index bound.field bound.field.tag path e = .ok none)
    (hdefault : bound.field.hasDefault = true) :
    (readSlot family typeName tags path e ((bound, bound.field.tag), index)).outcome =
      .ok none := by
  have hrequired : bound.field.tag.required = false := by simp [FieldDecl.tag, hdefault]
  simp only [readSlot, hlocate, hrequired, Bool.false_eq_true, ↓reduceIte]
  rfl

theorem readSlot_of_located (located : Located κ) {value : FieldValue κ}
    (hlocate : locate family typeName tags index bound.field bound.field.tag path e =
      .ok (some located))
    (htake : (take typeName bound.field.tag path bound.accessor located
      fun child _ key path => readElement family key path child).outcome = .ok value) :
    (readSlot family typeName tags path e ((bound, bound.field.tag), index)).outcome =
      .ok (some value) := by
  simp only [readSlot, hlocate, Traced.outcome_map, htake]
  rfl

end Slots

section Take

variable {family : Family κ}

/-- The items of a list are taken one by one. -/
theorem take_list (typeName : String) (tag : Tag) (outer path : String)
    (type : κ) (found : List Element) :
    take typeName tag outer (.list type) (.items path found)
        (fun child _ key path => readElement family key path child) =
      FieldValue.list <$> found.mapM fun item =>
        readElement family type (childPath path item) item := by
  rw [← Traced.mapM_attach_val found fun item => readElement family type (childPath path item) item,
    map_eq_pure_bind]
  rfl

/-- Variants are taken one by one, each as the type it was found for. -/
theorem take_variants (typeName : String) (tag : Tag) (outer path : String)
    (types : List κ) (found : List (κ × Element)) :
    take typeName tag outer (.variants types) (.variants path found)
        (fun child _ key path => readElement family key path child) =
      FieldValue.list <$> found.mapM fun pair =>
        if pair.1 ∈ types then readElement family pair.1 (childPath path pair.2) pair.2
        else .fail (.decode (.unknownVariant pair.2.name path)) := by
  rw [← Traced.mapM_attach_val found fun pair =>
      if pair.1 ∈ types then readElement family pair.1 (childPath path pair.2) pair.2
      else .fail (.decode (.unknownVariant pair.2.name path)),
    map_eq_pure_bind]
  rfl

/-- A value is taken from its own text. -/
theorem outcome_take_text (typeName path : String) {bound : BoundField κ}
    (hfaithful : bound.Faithful) (hkind : bound.field.kind = .value) {value : Scalar}
    (hcarries : bound.Carries (some (.scalar value))) :
    (take typeName bound.field.tag path bound.accessor (.text value.text)
      fun child _ key path => readElement family key path child).outcome =
        .ok (.scalar value) := by
  have hholds : bound.scalar.Holds value := by simpa [BoundField.Carries, hkind] using hcarries
  rw [hfaithful, hkind]
  simp [Accessor.ofKind, take, readScalar, ScalarType.read_text hholds, Except.mapError,
    Except.map]

end Take

section Items

variable {family : Family κ}

/-- The elements of a list are read one by one. -/
theorem outcome_readItems {naming : κ → ItemName} {records : List (Record κ)}
    {items : List Element} (hitems : List.Forall₂ (Restores family naming) records items)
    {type : κ} (htypes : ∀ record ∈ records, record.type = type) (path : String) :
    (items.mapM fun item => readElement family type (childPath path item) item).outcome =
      .ok (settleRecords family records) := by
  rw [Traced.outcome_mapM_eq_ok_iff, settleRecords_eq_map]
  induction hitems with
  | nil => exact .nil
  | @cons record item _ _ hitem _ ih =>
      refine .cons ?_ (ih fun other hother => htypes other (List.mem_cons_of_mem record hother))
      rw [← htypes record List.mem_cons_self]
      exact hitem.2 (childPath path item)

/-- Among variants of different names each item is told by its own. -/
theorem variantsOf_of_restores {types : List κ} {parent : Option String} {naming : κ → ItemName}
    (hnaming : ∀ type, (naming type).key =
      ⟨(family type).name, (family type).rule.effective parent⟩)
    (hnodup : (types.map fun type => (naming type).key).Nodup)
    {records : List (Record κ)} {items : List Element}
    (hitems : List.Forall₂ (Restores family naming) records items)
    (htypes : ∀ record ∈ records, record.type ∈ types) (path : String) :
    variantsOf family types path parent items =
      .ok ((records.zip items).map fun pair => (pair.1.type, pair.2)) := by
  rw [variantsOf, mapM_eq_ok_iff]
  induction hitems with
  | nil => exact .nil
  | @cons record item _ _ hitem _ ih =>
      refine .cons ?_ (ih fun other hother => htypes other (List.mem_cons_of_mem record hother))
      have hfound := find?_of_nodup_map hnodup (htypes record List.mem_cons_self)
      have hsame : (fun type => (family type).descriptor.isVariant parent item) =
          fun type => decide ((naming type).key = (naming record.type).key) := by
        funext type
        rw [← hitem.1, Descriptor.isVariant, decide_eq_decide, hnaming, eq_comm,
          ← named_iff_elementKey]
        exact Iff.rfl
      rw [hsame, hfound]

theorem outcome_readVariants {types : List κ} {naming : κ → ItemName}
    {records : List (Record κ)} {items : List Element}
    (hitems : List.Forall₂ (Restores family naming) records items)
    (htypes : ∀ record ∈ records, record.type ∈ types) (path : String) :
    (((records.zip items).map fun pair => (pair.1.type, pair.2)).mapM fun pair =>
      if pair.1 ∈ types then readElement family pair.1 (childPath path pair.2) pair.2
      else .fail (.decode (.unknownVariant pair.2.name path))).outcome =
        .ok (settleRecords family records) := by
  rw [Traced.outcome_mapM_eq_ok_iff, settleRecords_eq_map]
  induction hitems with
  | nil => exact .nil
  | @cons record item _ _ hitem _ ih =>
      refine .cons ?_ (ih fun other hother => htypes other (List.mem_cons_of_mem record hother))
      rw [if_pos (htypes record List.mem_cons_self)]
      exact hitem.2 (childPath path item)

/-- The items of a list of either kind are read back from where they stand. -/
theorem exists_items (typeName : String) {bound : BoundField κ} {parent : Option String}
    {declarations : List NamespaceDecl} {records : List (Record κ)} {items : List Element}
    (container : Element) (isSibling : Element → Bool) (hfaithful : bound.Faithful)
    (hcarries : bound.Carries (some (.list records)))
    (hnodup : (bound.field.kind.types.map fun type =>
      (itemNaming family bound.field bound.field.tag parent declarations type).key).Nodup)
    (hitems : List.Forall₂ (Restores family
      (itemNaming family bound.field bound.field.tag parent declarations)) records items)
    (hparent : container.ns = parent)
    (hnamed : ∀ type, bound.field.kind = .list type → container.childrenNamed
      bound.field.tag.itemName (bound.field.rule.effective parent) = items)
    (hrest : ∀ types, bound.field.kind = .variants types →
      (container.children.filter fun child => !isSibling child) = items) (path : String) :
    ∃ located, itemsUnder family typeName bound.field bound.field.tag isSibling path container =
        .ok located ∧ located.isEmpty = items.isEmpty ∧
      ∀ path, (take typeName bound.field.tag path bound.accessor located
        fun child _ key path => readElement family key path child).outcome =
          .ok (.list (settleRecords family records)) := by
  rw [BoundField.Faithful] at hfaithful
  cases hkind : bound.field.kind with
  | list type =>
      rw [hkind] at hfaithful
      have htypes : ∀ record ∈ records, record.type = type := by
        simpa [BoundField.Carries, hkind] using hcarries
      refine ⟨.items path items, ?_, rfl, fun _ => ?_⟩
      · rw [itemsUnder_list hkind, hparent, hnamed type hkind]
      · rw [hfaithful, Accessor.ofKind, take_list, Traced.outcome_map,
          outcome_readItems hitems htypes path]
        rfl
  | variants types =>
      rw [hkind] at hfaithful hnodup
      simp only [FieldKind.types] at hnodup
      have htypes : ∀ record ∈ records, record.type ∈ types := by
        simpa [BoundField.Carries, hkind] using hcarries
      have hnaming : ∀ type,
          (itemNaming family bound.field bound.field.tag parent declarations type).key =
            ⟨(family type).name, (family type).rule.effective parent⟩ := by
        intro type
        simp only [itemNaming, hkind, ItemName.key]
      refine ⟨.variants path ((records.zip items).map fun pair => (pair.1.type, pair.2)),
        ?_, ?_, fun _ => ?_⟩
      · rw [itemsUnder_variants hkind (hrest types hkind), hparent,
          variantsOf_of_restores hnaming hnodup hitems htypes]
        rfl
      · cases hitems <;> rfl
      · rw [hfaithful, Accessor.ofKind, take_variants, Traced.outcome_map,
          outcome_readVariants hitems htypes path]
        rfl
  | value => simp [BoundField.Carries, hkind] at hcarries
  | element type => simp [BoundField.Carries, hkind] at hcarries
  | overflow => simp [BoundField.Carries, hkind] at hcarries

/-- All items of a list of one type bear the name that the field gives them. -/
theorem childrenNamed_of_restores {field : FieldDecl κ} {type : κ}
    (hkind : field.kind = .list type) {parent : Option String}
    {declarations : List NamespaceDecl} {records : List (Record κ)} {items : List Element}
    (hitems : List.Forall₂ (Restores family
      (itemNaming family field field.tag parent declarations)) records items)
    {container : Element} (hcontainer : container.children = items) :
    container.childrenNamed field.tag.itemName (field.rule.effective parent) = items := by
  rw [Element.childrenNamed, hcontainer, List.filter_eq_self]
  intro child hchild
  obtain ⟨record, _, hrestores⟩ := exists_of_forall₂ hitems.flip hchild
  have hkey := hrestores.1
  simp only [itemNaming, hkind] at hkey
  exact decide_eq_true (named_iff_elementKey.mpr hkey)

end Items

section Kinds

variable {family : Family κ} {typeName path : String} {tags : List Tag} {index : Nat}
  {ns : Option String} {e : Element} {bound : BoundField κ}

theorem readSlot_of_attr {value : Scalar} (hfaithful : bound.Faithful)
    (hcarries : bound.Carries (some (.scalar value))) (hplace : bound.field.placement = .attr)
    {attr : Attribute}
    (hfound : findAttribute? e bound.field.tag.name bound.field.rule = some attr)
    (hvalue : attr.value = value.text) :
    (readSlot family typeName tags path e ((bound, bound.field.tag), index)).outcome =
      .ok (some (.scalar value)) := by
  refine readSlot_of_located (.text value.text) ?_
    (outcome_take_text typeName path hfaithful (value_of_attr hplace).1 hcarries)
  rw [locate_of_attr hplace, hfound, ← hvalue]
  rfl

/-- An empty text is as good as none. -/
theorem readSlot_of_text {value : Scalar} (hfaithful : bound.Faithful)
    (hcarries : bound.Carries (some (.scalar value))) (hplace : bound.field.placement = .text)
    (hwritten : bound.written? value = some value) (htext : e.text = some value.text)
    (hdefault : settleSlot family bound (some (.scalar value)) = none →
      bound.field.hasDefault = true) :
    (readSlot family typeName tags path e ((bound, bound.field.tag), index)).outcome =
      .ok (settleSlot family bound (some (.scalar value))) := by
  have hkind := value_of_text hplace
  by_cases hempty : value.text = ""
  · have hsettled : settleSlot family bound (some (.scalar value)) = none :=
      settleSlot_of_silent (by simp [BoundField.isSilent, hkind.2, hempty])
    rw [hsettled]
    refine readSlot_of_none ?_ (hdefault hsettled)
    rw [locate_of_text hplace, Element.ownText?, htext, hempty]
    rfl
  · rw [settleSlot_of_scalar hwritten fun _ => hempty]
    refine readSlot_of_located (.text value.text) ?_
      (outcome_take_text typeName path hfaithful hkind.1 hcarries)
    rw [locate_of_text hplace, Element.ownText?, htext]
    simp [hempty]

theorem readSlot_of_element {record : Record κ} {child : Element} (hfaithful : bound.Faithful)
    (hcarries : bound.Carries (some (.element record)))
    (hplace : bound.field.placement = .childElement)
    (hfound : e.childrenNamed bound.field.tag.name (bound.field.rule.effective e.ns) = [child])
    (hread : ∀ path, (readElement family record.type path child).outcome =
      .ok (record.settle family)) :
    (readSlot family typeName tags path e ((bound, bound.field.tag), index)).outcome =
      .ok (settleSlot family bound (some (.element record))) := by
  obtain ⟨type, hkind⟩ := element_of_placement hplace
  have htype : record.type = type := by simpa [BoundField.Carries, hkind] using hcarries
  refine readSlot_of_located (.element child) ?_ ?_
  · rw [locate_of_element hplace, singleChild_eq_some hfound]
    rfl
  · have hchild := hread (childPath path child)
    rw [htype] at hchild
    rw [hfaithful, hkind]
    simp only [Accessor.ofKind, take, Traced.outcome_bind, hchild, ok_bind]
    rfl

theorem readSlot_of_wrapped {records : List (Record κ)} {items : List Element}
    (hfaithful : bound.Faithful) (hcarries : bound.Carries (some (.list records)))
    (hplace : bound.field.placement = .wrappedList)
    (hskips : bound.skips (some (.list records)) = false)
    (hnodup : (memberKeys family bound.field e.ns).Nodup)
    (hfound : e.childrenNamed bound.field.tag.wrapperName (bound.field.rule.effective e.ns) =
      [wrapperElement bound.field e.ns items])
    (hitems : List.Forall₂ (Restores family (memberName family bound.field e.ns))
      records items) :
    (readSlot family typeName tags path e ((bound, bound.field.tag), index)).outcome =
      .ok (settleSlot family bound (some (.list records))) := by
  simp only [memberKeys, memberName_of_wrapped hplace] at hitems hnodup
  obtain ⟨located, hlocated, _, htake⟩ := exists_items typeName
    (wrapperElement bound.field e.ns items) (fun _ => false) hfaithful hcarries hnodup hitems
    (by simp [wrapperElement, Element.empty])
    (fun type hkind => childrenNamed_of_restores hkind hitems rfl)
    (fun _ _ => by simp [wrapperElement])
    (childPath path (wrapperElement bound.field e.ns items))
  rw [settleSlot_of_list hskips]
  refine readSlot_of_located located ?_ (htake path)
  rw [locate_of_wrapped hplace, singleChild_eq_some hfound, ok_bind]
  dsimp only
  rw [hlocated]
  rfl

theorem readSlot_of_unwrapped {records : List (Record κ)} {items : List Element}
    (hfaithful : bound.Faithful) (hcarries : bound.Carries (some (.list records)))
    (hplace : bound.field.placement = .unwrappedList)
    (hskips : bound.skips (some (.list records)) = false)
    (hnodup : (memberKeys family bound.field e.ns).Nodup)
    (hnamed : ∀ type, bound.field.kind = .list type →
      e.childrenNamed bound.field.tag.itemName (bound.field.rule.effective e.ns) = items)
    (hrest : ∀ types, bound.field.kind = .variants types →
      (e.children.filter fun child => !claimedByOther tags (some index) e.ns child) = items)
    (hitems : List.Forall₂ (Restores family (memberName family bound.field e.ns))
      records items) :
    (readSlot family typeName tags path e ((bound, bound.field.tag), index)).outcome =
      .ok (settleSlot family bound (some (.list records))) := by
  simp only [memberKeys, memberName_of_unwrapped hplace] at hitems hnodup
  obtain ⟨located, hlocated, hnonempty, htake⟩ := exists_items typeName e
    (claimedByOther tags (some index) e.ns) hfaithful hcarries hnodup hitems rfl hnamed hrest path
  have hempty : items.isEmpty = false := by
    cases hitems with
    | nil => simp [BoundField.skips, (list_of_unwrapped hplace).2] at hskips
    | cons _ _ => rfl
  rw [settleSlot_of_list hskips]
  refine readSlot_of_located located ?_ (htake path)
  rw [locate_of_unwrapped hplace, hlocated]
  simp [Except.map, hnonempty, hempty]

theorem readSlot_of_overflow {other : OtherAttributes} (hfaithful : bound.Faithful)
    (hplace : bound.field.placement = .overflow) (hleft : other.isEmpty = false)
    (hunclaimed : unclaimedAttributes e tags = other.entries.map entryAttribute) :
    (readSlot family typeName tags path e ((bound, bound.field.tag), index)).outcome =
      .ok (settleSlot family bound (some (.overflow other))) := by
  rw [settleSlot_of_overflow bound hleft]
  refine readSlot_of_located (.overflow other) ?_ ?_
  · rw [locate_of_overflow hplace, hunclaimed, OtherAttributes.of_map_entryAttribute]
    simp [hleft]
  · rw [hfaithful, kind_of_overflow hplace]
    rfl

end Kinds

/-- A field reads back the slot that it had. -/
theorem readSlot_of_row {family : Family κ} {typeName : String} {ns : Option String}
    {e : Element} {front back : List (Row κ)} {row : Row κ}
    (hlaid : Laid family ns (front ++ row :: back))
    (he : Assembled ns (front ++ row :: back) e) (hkeys : KeysFit family ns (front ++ row :: back))
    (hrestores : ∀ member ∈ slotMembers row.slot, ∀ child,
      WritesChild family (memberName family row.bound.field ns) member child →
        Restores family (memberName family row.bound.field ns) member child)
    (path : String) :
    (readSlot family typeName ((front ++ row :: back).map fun row => row.bound.field.tag) path e
      ((row.bound, row.bound.field.tag), front.length)).outcome =
        .ok (settleSlot family row.bound row.slot) := by
  have hrow : row ∈ front ++ row :: back := by simp
  have hwrote := hlaid.wrote row hrow
  have hfaithful := hlaid.faithful row hrow
  have hcarries := hlaid.carries row hrow
  have hskipped := locate_of_skips typeName path hlaid he hkeys
  have hdefault := hlaid.default row hrow
  obtain rfl := he.ns
  obtain ⟨bound, slot, part⟩ := row
  dsimp only at hwrote hfaithful hcarries hskipped hdefault hrestores ⊢
  cases hwrote with
  | nothing _ hskips =>
      have hnone := settleSlot_of_skips hskips family
      rw [hnone]
      exact readSlot_of_none (hskipped hskips rfl) (hdefault hnone)
  | attr hplace hwritten =>
      rw [settleSlot_of_scalar hwritten fun htext => by simp [(value_of_attr hplace).2] at htext]
      exact readSlot_of_attr hfaithful hcarries hplace
        (hlaid.findAttribute?_of_written he hrow rfl hplace List.mem_cons_self) rfl
  | text hplace hwritten =>
      exact readSlot_of_text hfaithful hcarries hplace hwritten (hlaid.text_eq he hrow hplace)
        hdefault
  | element hplace hwrites =>
      exact readSlot_of_element hfaithful hcarries hplace
        (hlaid.childrenNamed_eq he hkeys hrow (childKeys_of_element hplace))
        (hrestores _ List.mem_cons_self _ hwrites).2
  | wrapped hplace hskips hwrites =>
      exact readSlot_of_wrapped hfaithful hcarries hplace hskips (hlaid.items _ hrow hplace)
        (hlaid.childrenNamed_eq he hkeys hrow (childKeys_of_wrapped hplace))
        (forall₂_imp_mem hwrites hrestores)
  | items hplace hskips hwrites =>
      have hnodup : (memberKeys family bound.field e.ns).Nodup := by
        have hall := (List.nodup_flatMap.mp hlaid.children).1 _ hrow
        simpa only [childKeys, hplace] using hall
      exact readSlot_of_unwrapped hfaithful hcarries hplace hskips hnodup
        (fun _ hkind => hlaid.childrenNamed_eq he hkeys hrow (childKeys_of_items hplace hkind))
        (fun _ hkind => hlaid.rest_eq he hkeys (takesRest_of_unwrapped hplace hkind))
        (forall₂_imp_mem hwrites hrestores)
  | overflow hplace hskips =>
      exact readSlot_of_overflow hfaithful hplace hskips
        (hlaid.unclaimedAttributes_eq he hrow (kind_of_overflow hplace))

end Epub.Binding
