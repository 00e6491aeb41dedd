/-
What writing leaves behind.  Each field leaves one part of the element, whatever
the other fields leave, and the element is put together from these parts.
-/
import Epub.Proofs.Binding.Unambiguous
import Epub.Proofs.Lists
import Epub.Proofs.Xml.Tree

namespace Epub.Binding

open Epub.Schema Epub.Xml

variable {κ : Type}

/-- What one field leaves in an element. -/
structure Part where
  attributes : List Attribute
  text : Option String
  children : List Element

/-- An element with further parts. -/
def assemble (e : Element) (parts : List Part) : Element :=
  { e with
    attributes := e.attributes ++ parts.flatMap Part.attributes
    text := (parts.filterMap Part.text).getLast?.or e.text
    children := e.children ++ parts.flatMap Part.children }

theorem assemble_nil (e : Element) : assemble e [] = e := by
  cases e
  simp [assemble]

theorem assemble_cons (e : Element) (part : Part) (parts : List Part) :
    assemble e (part :: parts) = assemble (assemble e [part]) parts := by
  obtain ⟨attributes, text, children⟩ := part
  cases text with
  | none => simp [assemble]
  | some text =>
      cases hlast : (parts.filterMap Part.text).getLast? <;>
        simp [assemble, List.getLast?_cons, hlast]

/-- The child that writing makes of a member. -/
def WritesChild (family : Family κ) (naming : κ → ItemName) (member : Record κ)
    (child : Element) : Prop :=
  writeElement family member (naming member.type).name (naming member.type).ns
    (naming member.type).declarations = .ok child

/-- The element around the items of a list. -/
def wrapperElement (field : FieldDecl κ) (ns : Option String) (items : List Element) :
    Element :=
  { (Element.empty field.tag.wrapperName (field.rule.effective ns)).declareAll
      field.declarations with children := items }

/-- The part that a field of an element in `ns` leaves for its slot. -/
inductive Wrote (family : Family κ) (ns : Option String) (bound : BoundField κ) :
    Option (FieldValue κ) → Part → Prop where
  | nothing {slot : Option (FieldValue κ)} (hcarries : bound.Carries slot)
      (hskips : bound.skips slot = true) :
      Wrote family ns bound slot ⟨[], none, []⟩
  | attr {value : Scalar} (hplace : bound.field.placement = .attr)
      (hwritten : bound.written? value = some value) :
      Wrote family ns bound (some (.scalar value))
        ⟨[⟨bound.field.tag.name, bound.field.rule.forAttribute, value.text⟩], none, []⟩
  | text {value : Scalar} (hplace : bound.field.placement = .text)
      (hwritten : bound.written? value = some value) :
      Wrote family ns bound (some (.scalar value)) ⟨[], some value.text, []⟩
  | element {record : Record κ} {child : Element}
      (hplace : bound.field.placement = .childElement)
      (hchild : WritesChild family (memberName family bound.field ns) record child) :
      Wrote family ns bound (some (.element record)) ⟨[], none, [child]⟩
  | wrapped {records : List (Record κ)} {items : List Element}
      (hplace : bound.field.placement = .wrappedList)
      (hskips : bound.skips (some (.list records)) = false)
      (hitems : List.Forall₂ (WritesChild family (memberName family bound.field ns))
        records items) :
      Wrote family ns bound (some (.list records))
        ⟨[], none, [wrapperElement bound.field ns items]⟩
  | items {records : List (Record κ)} {items : List Element}
      (hplace : bound.field.placement = .unwrappedList)
      (hskips : bound.skips (some (.list records)) = false)
      (hitems : List.Forall₂ (WritesChild family (memberName family bound.field ns))
        records items) :
      Wrote family ns bound (some (.list records)) ⟨[], none, items⟩
  | overflow {other : OtherAttributes} (hplace : bound.field.placement = .overflow)
      (hskips : bound.skips (some (.overflow other)) = false) :
      Wrote family ns bound (some (.overflow other))
        ⟨other.entries.map entryAttribute, none, []⟩

theorem writeItems_of_writes {family : Family κ} {naming : κ → ItemName}
    {records : List (Record κ)} {items : List Element}
    (hitems : List.Forall₂ (WritesChild family naming) records items) (e : Element) :
    writeItems family naming e records = .ok { e with children := e.children ++ items } := by
  induction hitems generalizing e with
  | nil =>
      cases e
      simp [writeItems]
  | @cons record child _ _ hchild _ ih =>
      have hwrite : writeInto family ((Element.empty (naming record.type).name
          (naming record.type).ns).declareAll (naming record.type).declarations) record =
            .ok child := hchild
      rw [writeItems]
      simp only [hwrite, ok_bind, ih]
      simp [Element.addChild]

theorem get?_eq_none_of_fresh {e : Element} {key : QName}
    (hfresh : ∀ attr ∈ e.attributes, attr.key ≠ key) : e.get? key = none := by
  rw [Element.get?, Option.map_eq_none_iff, List.find?_eq_none]
  intro attr hattr
  simpa using hfresh attr hattr

theorem addOther_of_fresh {other : OtherAttributes} {e : Element}
    (hnodup : ((e.attributes ++ other.entries.map entryAttribute).map Attribute.key).Nodup) :
    addOther e other =
      { e with attributes := e.attributes ++ other.entries.map entryAttribute } := by
  rw [addOther]
  generalize other.entries = entries at hnodup ⊢
  induction entries generalizing e with
  | nil =>
      cases e
      simp
  | cons entry rest ih =>
      obtain ⟨key, value⟩ := entry
      have hfresh : ∀ attr ∈ e.attributes, attr.key ≠ key := by
        intro attr hattr heq
        rw [List.map_append, List.nodup_append] at hnodup
        exact hnodup.2.2 _ (List.mem_map_of_mem hattr) key (by simp) heq
      have hset : e.setAttribute key value =
          { e with attributes := e.attributes ++ [entryAttribute (key, value)] } := by
        rw [Element.setAttribute, Element.setIn_of_fresh hfresh]
        rfl
      rw [List.foldl_cons]
      simp only [get?_eq_none_of_fresh hfresh, Option.isSome_none, Bool.false_eq_true,
        ↓reduceIte, hset]
      rw [ih (by simpa using hnodup)]
      simp

section Slots

variable {family : Family κ} {ns : Option String} {bound : BoundField κ}
  {slot : Option (FieldValue κ)} {part : Part}

/-- Where a field lives says what kind it is. -/
theorem kind_of_placement (field : FieldDecl κ) :
    match field.placement with
    | .attr => field.kind = .value ∧ field.isText = false
    | .text => field.kind = .value ∧ field.isText = true
    | .childElement => ∃ type, field.kind = .element type
    | .wrappedList => field.kind.isList = true ∧ field.wrapper.isSome = true
    | .unwrappedList => field.kind.isList = true ∧ field.wrapper.isSome = false
    | .overflow => field.kind = .overflow := by
  cases hkind : field.kind <;> cases htext : field.isText <;>
    cases hwrapper : field.wrapper.isSome <;>
    simp [FieldDecl.placement, FieldKind.isList, hkind, htext, hwrapper]

theorem value_of_attr {field : FieldDecl κ} (hplace : field.placement = .attr) :
    field.kind = .value ∧ field.isText = false := by
  simpa only [hplace] using kind_of_placement field

theorem value_of_text {field : FieldDecl κ} (hplace : field.placement = .text) :
    field.kind = .value ∧ field.isText = true := by
  simpa only [hplace] using kind_of_placement field

theorem element_of_placement {field : FieldDecl κ} (hplace : field.placement = .childElement) :
    ∃ type, field.kind = .element type := by
  simpa only [hplace] using kind_of_placement field

theorem list_of_wrapped {field : FieldDecl κ} (hplace : field.placement = .wrappedList) :
    field.kind.isList = true ∧ field.wrapper.isSome = true := by
  simpa only [hplace] using kind_of_placement field

theorem list_of_unwrapped {field : FieldDecl κ} (hplace : field.placement = .unwrappedList) :
    field.kind.isList = true ∧ field.wrapper.isSome = false := by
  simpa only [hplace] using kind_of_placement field

theorem kind_of_overflow {field : FieldDecl κ} (hplace : field.placement = .overflow) :
    field.kind = .overflow := by
  simpa only [hplace] using kind_of_placement field

theorem placement_of_list {field : FieldDecl κ} {wrapped : Bool}
    (hlist : field.kind.isList = true) (hwrapper : field.wrapper.isSome = wrapped) :
    field.placement = if wrapped then .wrappedList else .unwrappedList := by
  cases hkind : field.kind <;>
    simp [FieldDecl.placement, FieldKind.isList, hkind, hwrapper] at hlist ⊢

theorem memberName_of_element {field : FieldDecl κ} (hplace : field.placement = .childElement) :
    memberName family field ns =
      fun _ => ⟨field.tag.name, field.rule.effective ns, field.declarations⟩ := by
  obtain ⟨type, hkind⟩ := element_of_placement hplace
  simp only [memberName, hkind]

theorem memberName_of_list {field : FieldDecl κ} (hlist : field.kind.isList = true) :
    memberName family field ns =
      if field.wrapper.isSome then itemNaming family field field.tag (field.rule.effective ns) []
      else itemNaming family field field.tag ns field.declarations := by
  unfold memberName
  split
  · rename_i hkind
    rw [hkind] at hlist
    contradiction
  · rfl

theorem memberName_of_wrapped {field : FieldDecl κ} (hplace : field.placement = .wrappedList) :
    memberName family field ns =
      itemNaming family field field.tag (field.rule.effective ns) [] := by
  obtain ⟨hlist, hwrapper⟩ := list_of_wrapped hplace
  rw [memberName_of_list hlist, if_pos hwrapper]

theorem memberName_of_unwrapped {field : FieldDecl κ}
    (hplace : field.placement = .unwrappedList) :
    memberName family field ns = itemNaming family field field.tag ns field.declarations := by
  obtain ⟨hlist, hwrapper⟩ := list_of_unwrapped hplace
  rw [memberName_of_list hlist, if_neg (by simp [hwrapper])]

theorem childKeys_of_element {field : FieldDecl κ}
    (hplace : field.placement = .childElement) :
    childKeys family field ns = [⟨field.tag.name, field.rule.effective ns⟩] := by
  obtain ⟨type, hkind⟩ := element_of_placement hplace
  simp only [childKeys, hplace, memberKeys, FieldKind.types, hkind,
    memberName_of_element hplace, List.map_cons, List.map_nil, ItemName.key]

theorem childKeys_of_wrapped {field : FieldDecl κ} (hplace : field.placement = .wrappedList) :
    childKeys family field ns = [⟨field.tag.wrapperName, field.rule.effective ns⟩] := by
  simp only [childKeys, hplace]

theorem childKeys_of_items {field : FieldDecl κ} {type : κ}
    (hplace : field.placement = .unwrappedList) (hkind : field.kind = .list type) :
    childKeys family field ns = [⟨field.tag.itemName, field.rule.effective ns⟩] := by
  simp only [childKeys, hplace, memberKeys, FieldKind.types, hkind,
    memberName_of_unwrapped hplace, List.map_cons, List.map_nil, ItemName.key, itemNaming]
  rfl

theorem assemble_nothing (e : Element) : assemble e [⟨[], none, []⟩] = e := by
  cases e
  simp [assemble]

/-- An empty list that is skipped leaves nothing, wherever it lives. -/
theorem writeSlot_of_empty {records : List (Record κ)}
    (hcarries : bound.Carries (some (.list records)))
    (hskips : bound.skips (some (.list records)) = true) (typeName : String) (e : Element) :
    writeSlot family typeName ns bound bound.field.tag e (some (.list records)) = .ok e := by
  obtain ⟨hempty, habsent⟩ : records = [] ∧
      (bound.field.wrapper = none ∨ bound.field.hasDefault = true) := by
    simpa [BoundField.skips] using hskips
  subst hempty
  have hlist : bound.field.kind.isList = true := by
    cases hkind : bound.field.kind <;> simp [BoundField.Carries, hkind] at hcarries <;> rfl
  have htag : bound.field.tag.placement = bound.field.placement := rfl
  have hrequired : bound.field.tag.required = !bound.field.hasDefault := rfl
  cases hwrapper : bound.field.wrapper.isSome with
  | false => simp only [writeSlot, writeValue, htag, placement_of_list hlist hwrapper, writeItems,
      Bool.false_eq_true, ↓reduceIte]
  | true =>
      have hdefault : bound.field.hasDefault = true :=
        habsent.resolve_left fun hnone => by simp [hnone] at hwrapper
      simp [writeSlot, writeValue, htag, placement_of_list hlist hwrapper, hrequired, hdefault]

/-- A slot that is skipped leaves nothing. -/
theorem writeSlot_of_skips (hcarries : bound.Carries slot) (hskips : bound.skips slot = true)
    (typeName : String) (e : Element) :
    writeSlot family typeName ns bound bound.field.tag e slot = .ok e := by
  cases slot with
  | none => rfl
  | some value =>
      cases value with
      | scalar value =>
          have hnone : bound.written? value = none := Option.isNone_iff_eq_none.mp hskips
          simp only [writeSlot, writeValue, hnone]
      | element record => contradiction
      | list records => exact writeSlot_of_empty hcarries hskips typeName e
      | overflow other =>
          have hempty : other.isEmpty = true := hskips
          simp [writeSlot, writeValue, hempty]

/-- A field writes its part behind what is there, if no attribute is in its way. -/
theorem writeSlot_of_wrote (hwrote : Wrote family ns bound slot part) (typeName : String)
    {e : Element} (hnodup : part.attributes ≠ [] →
      ((e.attributes ++ part.attributes).map Attribute.key).Nodup) :
    writeSlot family typeName ns bound bound.field.tag e slot = .ok (assemble e [part]) := by
  have htag : bound.field.tag.placement = bound.field.placement := rfl
  cases hwrote with
  | nothing hcarries hskips =>
      rw [assemble_nothing]
      exact writeSlot_of_skips hcarries hskips typeName e
  | attr hplace hwritten =>
      have hfresh : ∀ attr ∈ e.attributes,
          attr.key ≠ ⟨bound.field.tag.name, bound.field.tag.rule.forAttribute⟩ := by
        intro attr hattr heq
        have hkeys := hnodup (List.cons_ne_nil _ _)
        rw [List.map_append, List.nodup_append] at hkeys
        exact hkeys.2.2 _ (List.mem_map_of_mem hattr) _
          (by simp [Attribute.key, FieldDecl.tag]) heq
      simp only [writeSlot, writeValue, hwritten, htag, hplace, Element.setAttribute,
        Element.setIn_of_fresh hfresh]
      simp [assemble, FieldDecl.tag]
  | text hplace hwritten =>
      simp only [writeSlot, writeValue, hwritten, htag, hplace]
      simp [assemble]
  | @element record child hplace hchild =>
      rw [memberName_of_element hplace] at hchild
      have hwrite : writeInto family ((Element.empty bound.field.tag.name
          (bound.field.tag.rule.effective ns)).declareAll bound.field.tag.declarations) record =
            .ok child := hchild
      simp only [writeSlot, writeValue, htag, hplace, hwrite, ok_bind]
      simp [assemble, Element.addChild]
      rfl
  | @wrapped records items hplace hskips hitems =>
      have hwrite : (records.isEmpty && !bound.field.tag.required) = false := by
        have hwrapper := (list_of_wrapped hplace).2
        have hrequired : bound.field.tag.required = !bound.field.hasDefault := rfl
        cases hname : bound.field.wrapper with
        | none => simp [hname] at hwrapper
        | some name => simpa [BoundField.skips, hname, hrequired] using hskips
      rw [memberName_of_wrapped hplace] at hitems
      have hrule : bound.field.tag.rule = bound.field.rule := rfl
      have hdeclarations : bound.field.tag.declarations = bound.field.declarations := rfl
      have hchildren : ((Element.empty bound.field.tag.wrapperName
          (bound.field.rule.effective ns)).declareAll bound.field.declarations).children ++
            items = items := by
        simp [Element.empty]
      simp only [writeSlot, writeValue, htag, hplace, hwrite, Bool.false_eq_true, ↓reduceIte,
        hrule, hdeclarations, writeItems_of_writes hitems, ok_bind, hchildren]
      simp [assemble, Element.addChild, wrapperElement]
      rfl
  | @items records items hplace hskips hitems =>
      rw [memberName_of_unwrapped hplace] at hitems
      have hdeclarations : bound.field.tag.declarations = bound.field.declarations := rfl
      simp only [writeSlot, writeValue, htag, hplace, hdeclarations,
        writeItems_of_writes hitems]
      simp [assemble]
  | @overflow other hplace hskips =>
      have hempty : other.isEmpty = false := hskips
      have hentries : other.entries.map entryAttribute ≠ [] := by
        rw [ne_eq, List.map_eq_nil_iff]
        exact List.isEmpty_eq_false_iff.mp hempty
      simp only [writeSlot, writeValue, htag, hplace, hempty]
      rw [addOther_of_fresh (hnodup hentries)]
      simp [assemble]

/-- A property of all elements in a part: the wrapper has it, and so do the trees that are
written for the members. -/
theorem Wrote.everywhere {P : Element → Prop} (hwrote : Wrote family ns bound slot part)
    (hwrapper : ∀ items, bound.field.placement = .wrappedList →
      bound.skips slot = false → P (wrapperElement bound.field ns items))
    (hmembers : ∀ member ∈ slotMembers slot, ∀ child,
      WritesChild family (memberName family bound.field ns) member child →
        child.Everywhere P) :
    ∀ child ∈ part.children, child.Everywhere P := by
  have hitems : ∀ {records : List (Record κ)} {items : List Element},
      slot = some (.list records) →
      List.Forall₂ (WritesChild family (memberName family bound.field ns)) records items →
        ∀ child ∈ items, child.Everywhere P := by
    rintro records items rfl hall child hchild
    obtain ⟨member, hmember, hwrites⟩ := exists_of_forall₂ hall.flip hchild
    exact hmembers member hmember child hwrites
  intro child hchild
  cases hwrote with
  | element hplace hwrites =>
      rw [List.mem_singleton.mp hchild]
      exact hmembers _ List.mem_cons_self _ hwrites
  | wrapped hplace hskips hall =>
      rw [List.mem_singleton.mp hchild]
      exact ⟨hwrapper _ hplace hskips, hitems rfl hall⟩
  | items _ _ hall => exact hitems rfl hall child hchild
  | nothing _ _ => exact absurd hchild List.not_mem_nil
  | attr _ _ => exact absurd hchild List.not_mem_nil
  | text _ _ => exact absurd hchild List.not_mem_nil
  | overflow _ _ => exact absurd hchild List.not_mem_nil

/-- A slot that its field may hold leaves a part, if its members can be written. -/
theorem exists_part (hcarries : bound.Carries slot)
    (hmembers : ∀ member ∈ slotMembers slot,
      ∃ child, WritesChild family (memberName family bound.field ns) member child) :
    ∃ part, Wrote family ns bound slot part := by
  cases hskips : bound.skips slot with
  | true => exact ⟨_, .nothing hcarries hskips⟩
  | false =>
      cases slot with
      | none => contradiction
      | some value =>
          cases value with
          | scalar value =>
              have hwritten : bound.written? value = some value := by
                cases hcase : bound.written? value with
                | none => simp [BoundField.skips, hcase] at hskips
                | some written =>
                    simp only [BoundField.written?] at hcase
                    split at hcase
                    · contradiction
                    · exact hcase.symm
              have hkind : bound.field.kind = .value := by
                cases hkind : bound.field.kind <;> simp_all [BoundField.Carries]
              cases htext : bound.field.isText with
              | false => exact ⟨_, .attr (by simp [FieldDecl.placement, hkind, htext]) hwritten⟩
              | true => exact ⟨_, .text (by simp [FieldDecl.placement, hkind, htext]) hwritten⟩
          | element record =>
              obtain ⟨child, hchild⟩ := hmembers record List.mem_cons_self
              have hplace : bound.field.placement = .childElement := by
                cases hkind : bound.field.kind <;>
                  simp_all [BoundField.Carries, FieldDecl.placement]
              exact ⟨_, .element hplace hchild⟩
          | list records =>
              obtain ⟨items, hitems⟩ := exists_forall₂ hmembers
              have hlist : bound.field.kind.isList = true := by
                cases hkind : bound.field.kind <;>
                  simp_all [BoundField.Carries, FieldKind.isList]
              cases hwrapper : bound.field.wrapper.isSome with
              | true => exact ⟨_, .wrapped (placement_of_list hlist hwrapper) hskips hitems⟩
              | false => exact ⟨_, .items (placement_of_list hlist hwrapper) hskips hitems⟩
          | overflow other =>
              have hplace : bound.field.placement = .overflow := by
                cases hkind : bound.field.kind <;>
                  simp_all [BoundField.Carries, FieldDecl.placement]
              exact ⟨_, .overflow hplace hskips⟩

end Slots

end Epub.Binding
