/-
What is read off an element.  A record that has been read holds in each slot what its
field has found, so it is well-typed, and nothing that has to be there is missing.
-/
import Epub.Proofs.Binding.Content

namespace Epub.Binding

open Epub.Schema Epub.Xml

variable {κ : Type} [DecidableEq κ]

/-- Whether a record is read off a child of `e`, or of a wrapper in it, that stands where
the members of the field stand. -/
def IsReadOff (family : Family κ) (bound : BoundField κ) (e : Element) (record : Record κ) :
    Prop :=
  ∃ child type path,
    (child ∈ e.children ∨ ∃ wrapper ∈ e.children, child ∈ wrapper.children) ∧
      type ∈ bound.field.kind.types ∧ child.ns = (memberName family bound.field e.ns type).ns ∧
        (readElement family type path child).outcome = .ok record

/-- What a field takes of an element. -/
inductive Took (family : Family κ) (tags : List Tag) (e : Element) (bound : BoundField κ) :
    Option (FieldValue κ) → Prop where
  | nothing (hdefault : bound.field.hasDefault = true)
      (hnone : bound.field.placement = .attr →
        findAttribute? e bound.field.tag.name bound.field.rule = none) :
      Took family tags e bound none
  | attr {value : Scalar} {attr : Attribute} (hplace : bound.field.placement = .attr)
      (hfound : findAttribute? e bound.field.tag.name bound.field.rule = some attr)
      (hread : bound.scalar.read attr.value = .ok value) :
      Took family tags e bound (some (.scalar value))
  | text {value : Scalar} {raw : String} (hplace : bound.field.placement = .text)
      (hraw : raw ≠ "") (hread : bound.scalar.read raw = .ok value) :
      Took family tags e bound (some (.scalar value))
  | element {record : Record κ} (hplace : bound.field.placement = .childElement)
      (hrecord : IsReadOff family bound e record) :
      Took family tags e bound (some (.element record))
  | list {records : List (Record κ)} (hlist : bound.field.kind.isList = true)
      (hempty : records = [] → bound.field.wrapper.isSome = true)
      (hrecords : ∀ record ∈ records, IsReadOff family bound e record) :
      Took family tags e bound (some (.list records))
  | overflow (hplace : bound.field.placement = .overflow)
      (hleft : (OtherAttributes.of (unclaimedAttributes e tags)).isEmpty = false) :
      Took family tags e bound
        (some (.overflow (OtherAttributes.of (unclaimedAttributes e tags))))

section Take

variable {family : Family κ} {typeName path : String} {tag : Tag} {value : FieldValue κ}

theorem take_value_eq_ok {type : ScalarType} {raw : String}
    (htake : (take typeName tag path (.value type) (.text raw)
      fun child _ key path => readElement family key path child).outcome = .ok value) :
    ∃ scalar, type.read raw = .ok scalar ∧ value = .scalar scalar := by
  simp only [take, Traced.outcome_lift, map_eq_ok, readScalar, mapError_eq_ok] at htake
  obtain ⟨scalar, hread, rfl⟩ := htake
  exact ⟨scalar, hread, rfl⟩

theorem take_element_eq_ok {type : κ} {child : Element}
    (htake : (take typeName tag path (.element type) (.element child)
      fun child _ key path => readElement family key path child).outcome = .ok value) :
    ∃ record, (readElement family type (childPath path child) child).outcome = .ok record ∧
      value = .element record := by
  simp only [take, Traced.outcome_bind, Traced.outcome_pure, bind_eq_ok] at htake
  obtain ⟨record, hread, hvalue⟩ := htake
  exact ⟨record, hread, (Except.ok.inj hvalue).symm⟩

theorem take_list_eq_ok {type : κ} {outer : String} {found : List Element}
    (htake : (take typeName tag outer (.list type) (.items path found)
      fun child _ key path => readElement family key path child).outcome = .ok value) :
    ∃ records, List.Forall₂ (fun item record =>
      (readElement family type (childPath path item) item).outcome = .ok record) found records ∧
        value = .list records := by
  rw [take_list, Traced.outcome_map, map_eq_ok] at htake
  obtain ⟨records, hread, rfl⟩ := htake
  exact ⟨records, Traced.outcome_mapM_eq_ok_iff.mp hread, rfl⟩

theorem take_variants_eq_ok {types : List κ} {outer : String} {found : List (κ × Element)}
    (htake : (take typeName tag outer (.variants types) (.variants path found)
      fun child _ key path => readElement family key path child).outcome = .ok value) :
    ∃ records, List.Forall₂ (fun pair record => pair.1 ∈ types ∧
      (readElement family pair.1 (childPath path pair.2) pair.2).outcome = .ok record)
        found records ∧ value = .list records := by
  rw [take_variants, Traced.outcome_map, map_eq_ok] at htake
  obtain ⟨records, hread, rfl⟩ := htake
  refine ⟨records, (Traced.outcome_mapM_eq_ok_iff.mp hread).imp fun pair record hpair => ?_, rfl⟩
  split at hpair
  · rename_i hmem
    exact ⟨hmem, hpair⟩
  · contradiction

end Take

section Items

variable {family : Family κ}

omit [DecidableEq κ] in
/-- Each variant that was found is a candidate and the first of the types that it fits. -/
theorem find?_of_variantsOf {types : List κ} {path : String} {parent : Option String}
    {candidates : List Element} {found : List (κ × Element)}
    (hfound : variantsOf family types path parent candidates = .ok found) :
    ∀ pair ∈ found, pair.2 ∈ candidates ∧
      types.find? (fun type => (family type).descriptor.isVariant parent pair.2) =
        some pair.1 := by
  intro pair hpair
  obtain ⟨child, hchild, htold⟩ := exists_of_forall₂ (mapM_eq_ok_iff.mp hfound).flip hpair
  split at htold
  · rename_i type htype
    cases Except.ok.inj htold
    exact ⟨hchild, htype⟩
  · contradiction

/-- The items of a list under `container`, taken in turn, are read off its children. -/
theorem exists_records {bound : BoundField κ} {typeName path outer : String}
    {isSibling : Element → Bool} {container : Element} {located : Located κ}
    {value : FieldValue κ} (hfaithful : bound.Faithful)
    (hlist : bound.field.kind.isList = true) (declarations : List NamespaceDecl)
    (hlocated : itemsUnder family typeName bound.field bound.field.tag isSibling path container =
      .ok located)
    (htake : (take typeName bound.field.tag outer bound.accessor located
      fun child _ key path => readElement family key path child).outcome = .ok value) :
    ∃ records, value = .list records ∧ (records = [] → located.isEmpty = true) ∧
      ∀ record ∈ records, ∃ child ∈ container.children, ∃ type ∈ bound.field.kind.types, ∃ path,
        child.ns = (itemNaming family bound.field bound.field.tag container.ns declarations
          type).ns ∧ (readElement family type path child).outcome = .ok record := by
  rw [BoundField.Faithful] at hfaithful
  cases hkind : bound.field.kind with
  | list type =>
      rw [hfaithful, hkind] at htake
      rw [itemsUnder_list hkind] at hlocated
      cases hlocated
      obtain ⟨records, hread, rfl⟩ := take_list_eq_ok htake
      refine ⟨records, rfl, ?_, fun record hrecord => ?_⟩
      · rintro rfl
        exact List.isEmpty_iff.mpr (List.forall₂_nil_right_iff.mp hread)
      · obtain ⟨child, hchild, hrecord⟩ := exists_of_forall₂ hread.flip hrecord
        obtain ⟨hmem, hnamed⟩ := List.mem_filter.mp hchild
        refine ⟨child, hmem, type, List.mem_singleton_self type, _, ?_, hrecord⟩
        simp only [itemNaming, hkind]
        exact (of_decide_eq_true hnamed).2
  | variants types =>
      rw [hfaithful, hkind] at htake
      rw [itemsUnder_variants hkind rfl] at hlocated
      obtain ⟨found, hfound, rfl⟩ := map_eq_ok.mp hlocated
      obtain ⟨records, hread, rfl⟩ := take_variants_eq_ok htake
      refine ⟨records, rfl, ?_, fun record hrecord => ?_⟩
      · rintro rfl
        cases hread
        rfl
      · obtain ⟨pair, hpair, htypes, hrecord⟩ := exists_of_forall₂ hread.flip hrecord
        obtain ⟨hcandidate, htold⟩ := find?_of_variantsOf hfound pair hpair
        have hvariant := List.find?_some htold
        refine ⟨pair.2, (List.mem_filter.mp hcandidate).1, pair.1, htypes, _, ?_, hrecord⟩
        simp only [itemNaming, hkind]
        exact (of_decide_eq_true hvariant).2
  | value => simp [hkind, FieldKind.isList] at hlist
  | element type => simp [hkind, FieldKind.isList] at hlist
  | overflow => simp [hkind, FieldKind.isList] at hlist

end Items

omit [DecidableEq κ] in
theorem mem_of_singleChild_eq_ok {path name : String} {e child : Element} {ns : Option String}
    (hchild : singleChild path e name ns = .ok (some child)) :
    child ∈ e.children ∧ child.Named name ns := by
  rw [singleChild] at hchild
  split at hchild
  · cases Except.ok.inj hchild
  · rename_i only honly
    cases hchild
    have hmem : child ∈ e.childrenNamed name ns := by simp [honly]
    obtain ⟨hmem, hnamed⟩ := List.mem_filter.mp hmem
    exact ⟨hmem, of_decide_eq_true hnamed⟩
  · contradiction

section Slot

variable {family : Family κ} {typeName path : String} {tags : List Tag} {e : Element}
  {bound : BoundField κ} {index : Nat} {located : Located κ} {value : FieldValue κ}

/-- A list in a wrapper of its own is read off what the wrapper holds. -/
theorem took_of_wrapped (hfaithful : bound.Faithful)
    (hplace : bound.field.placement = .wrappedList)
    (hlocate : locate family typeName tags index bound.field bound.field.tag path e =
      .ok (some located))
    (htake : (take typeName bound.field.tag path bound.accessor located
      fun child _ key path => readElement family key path child).outcome = .ok value) :
    Took family tags e bound (some value) := by
  obtain ⟨hlist, hwrapper⟩ := list_of_wrapped hplace
  rw [locate_of_wrapped hplace] at hlocate
  obtain ⟨found, hsingle, hitems⟩ := bind_eq_ok.mp hlocate
  cases found with
  | none => cases Except.ok.inj hitems
  | some wrapper =>
      obtain ⟨_, hlocated, hsome⟩ := map_eq_ok.mp hitems
      cases hsome
      obtain ⟨hmem, hnamed⟩ := mem_of_singleChild_eq_ok hsingle
      obtain ⟨records, rfl, _, hrecords⟩ := exists_records hfaithful hlist [] hlocated htake
      refine .list hlist (fun _ => hwrapper) fun record hrecord => ?_
      obtain ⟨child, hchild, type, htype, path, hns, hread⟩ := hrecords record hrecord
      refine ⟨child, type, path, Or.inr ⟨wrapper, hmem, hchild⟩, htype, ?_, hread⟩
      rw [memberName_of_wrapped hplace, hns, hnamed.2]

/-- Any other list is read off the element itself, and there is one only if it has items. -/
theorem took_of_unwrapped (hfaithful : bound.Faithful)
    (hplace : bound.field.placement = .unwrappedList)
    (hlocate : locate family typeName tags index bound.field bound.field.tag path e =
      .ok (some located))
    (htake : (take typeName bound.field.tag path bound.accessor located
      fun child _ key path => readElement family key path child).outcome = .ok value) :
    Took family tags e bound (some value) := by
  have hlist := (list_of_unwrapped hplace).1
  rw [locate_of_unwrapped hplace] at hlocate
  obtain ⟨found, hitems, hsome⟩ := map_eq_ok.mp hlocate
  split at hsome
  · contradiction
  · rename_i hnonempty
    cases hsome
    obtain ⟨records, rfl, hempty, hrecords⟩ := exists_records hfaithful hlist
      bound.field.declarations hitems htake
    refine .list hlist (fun hnil => absurd (hempty hnil) hnonempty) fun record hrecord => ?_
    obtain ⟨child, hchild, type, htype, path, hns, hread⟩ := hrecords record hrecord
    refine ⟨child, type, path, Or.inl hchild, htype, ?_, hread⟩
    rw [memberName_of_unwrapped hplace, hns]

/-- What is taken is what the kind of the field asks for. -/
theorem took_of_take (hfaithful : bound.Faithful)
    (hlocate : locate family typeName tags index bound.field bound.field.tag path e =
      .ok (some located))
    (htake : (take typeName bound.field.tag path bound.accessor located
      fun child _ key path => readElement family key path child).outcome = .ok value) :
    Took family tags e bound (some value) := by
  have haccessor : bound.accessor = Accessor.ofKind bound.scalar bound.field.kind := hfaithful
  cases hplace : bound.field.placement with
  | attr =>
      rw [locate_of_attr hplace] at hlocate
      obtain ⟨attr, hfound, rfl⟩ := Option.map_eq_some_iff.mp (Except.ok.inj hlocate)
      rw [haccessor, (value_of_attr hplace).1] at htake
      obtain ⟨scalar, hread, rfl⟩ := take_value_eq_ok htake
      exact .attr hplace hfound hread
  | text =>
      rw [locate_of_text hplace] at hlocate
      obtain ⟨raw, hraw, rfl⟩ := Option.map_eq_some_iff.mp (Except.ok.inj hlocate)
      rw [haccessor, (value_of_text hplace).1] at htake
      obtain ⟨scalar, hread, rfl⟩ := take_value_eq_ok htake
      have hne := (Option.filter_eq_some_iff.mp hraw).2
      exact .text hplace (by simpa using hne) hread
  | childElement =>
      obtain ⟨type, hkind⟩ := element_of_placement hplace
      rw [locate_of_element hplace] at hlocate
      obtain ⟨found, hsingle, hsome⟩ := map_eq_ok.mp hlocate
      obtain ⟨child, rfl, rfl⟩ := Option.map_eq_some_iff.mp hsome
      obtain ⟨hchild, hnamed⟩ := mem_of_singleChild_eq_ok hsingle
      rw [haccessor, hkind] at htake
      obtain ⟨record, hread, rfl⟩ := take_element_eq_ok htake
      refine .element hplace ⟨child, type, _, Or.inl hchild, by simp [hkind, FieldKind.types], ?_,
        hread⟩
      rw [memberName_of_element hplace]
      exact hnamed.2
  | wrappedList => exact took_of_wrapped hfaithful hplace hlocate htake
  | unwrappedList => exact took_of_unwrapped hfaithful hplace hlocate htake
  | overflow =>
      rw [locate_of_overflow hplace] at hlocate
      have hsome := Except.ok.inj hlocate
      split at hsome
      · contradiction
      · rename_i hnonempty
        cases hsome
        rw [haccessor, kind_of_overflow hplace] at htake
        cases Except.ok.inj htake
        exact .overflow hplace (by simpa using hnonempty)

/-- A slot that has been read is one that its field took. -/
theorem took_of_readSlot {slot : Option (FieldValue κ)} (hfaithful : bound.Faithful)
    (hread : (readSlot family typeName tags path e ((bound, bound.field.tag), index)).outcome =
      .ok slot) : Took family tags e bound slot := by
  rw [readSlot] at hread
  cases hlocate : locate family typeName tags index bound.field bound.field.tag path e with
  | error error => simp [hlocate] at hread
  | ok found =>
      cases found with
      | none =>
          cases hdefault : bound.field.hasDefault with
          | true =>
              have hrequired : bound.field.tag.required = false := by
                simp [FieldDecl.tag, hdefault]
              simp only [hlocate, hrequired] at hread
              cases Except.ok.inj hread
              refine .nothing hdefault fun hplace => ?_
              rw [locate_of_attr hplace] at hlocate
              exact Option.map_eq_none_iff.mp (Except.ok.inj hlocate)
          | false =>
              have hrequired : bound.field.tag.required = true := by
                simp [FieldDecl.tag, hdefault]
              simp only [hlocate, hrequired] at hread
              contradiction
      | some located =>
          simp only [hlocate, Traced.outcome_map, map_eq_ok] at hread
          obtain ⟨value, htake, rfl⟩ := hread
          exact took_of_take hfaithful hlocate htake

end Slot

end Epub.Binding
