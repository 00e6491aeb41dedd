/-
Finding what a field has left.  In an element put together from the parts of its
fields, each field finds its own part and nothing else.
-/
import Epub.Binding.Reading
import Epub.Proofs.Binding.Rows
import Mathlib.Data.List.Pairwise

namespace Epub.Binding

open Epub.Schema Epub.Xml

variable {κ : Type}

/-- The resolved name of an element. -/
def elementKey (e : Element) : QName :=
  ⟨e.name, e.ns⟩

theorem named_iff_elementKey {e : Element} {key : QName} :
    e.Named key.name key.ns ↔ elementKey e = key := by
  obtain ⟨name, ns⟩ := key
  simp [Element.Named, elementKey]

section Places

variable {family : Family κ} {typeName path : String} {tags : List Tag} {e : Element}
  {bound : BoundField κ} {index : Nat}

theorem singleChild_eq_none (path : String) {name : String} {ns : Option String}
    (hchildren : e.childrenNamed name ns = []) : singleChild path e name ns = .ok none := by
  rw [singleChild, hchildren]

theorem singleChild_eq_some {name : String} {ns : Option String} {child : Element}
    (hchildren : e.childrenNamed name ns = [child]) :
    singleChild path e name ns = .ok (some child) := by
  rw [singleChild, hchildren]

theorem locate_of_attr (hplace : bound.field.placement = .attr) :
    locate family typeName tags index bound.field bound.field.tag path e =
      .ok ((findAttribute? e bound.field.tag.name bound.field.rule).map
        fun attr => .text attr.value) := by
  have htag : bound.field.tag.placement = bound.field.placement := rfl
  simp only [locate, htag, hplace]
  rfl

theorem locate_of_text (hplace : bound.field.placement = .text) :
    locate family typeName tags index bound.field bound.field.tag path e =
      .ok (e.ownText?.map .text) := by
  have htag : bound.field.tag.placement = bound.field.placement := rfl
  simp only [locate, htag, hplace]

theorem locate_of_overflow (hplace : bound.field.placement = .overflow) :
    locate family typeName tags index bound.field bound.field.tag path e =
      .ok (if (OtherAttributes.of (unclaimedAttributes e tags)).isEmpty then none
        else some (.overflow (OtherAttributes.of (unclaimedAttributes e tags)))) := by
  have htag : bound.field.tag.placement = bound.field.placement := rfl
  simp only [locate, htag, hplace]

theorem locate_of_element (hplace : bound.field.placement = .childElement) :
    locate family typeName tags index bound.field bound.field.tag path e =
      (singleChild path e bound.field.tag.name (bound.field.rule.effective e.ns)).map
        (Option.map Located.element) := by
  have htag : bound.field.tag.placement = bound.field.placement := rfl
  have hrule : bound.field.tag.rule = bound.field.rule := rfl
  simp only [locate, htag, hplace, hrule]
  cases singleChild path e bound.field.tag.name (bound.field.rule.effective e.ns) <;> rfl

theorem locate_of_wrapped (hplace : bound.field.placement = .wrappedList) :
    locate family typeName tags index bound.field bound.field.tag path e =
      (singleChild path e bound.field.tag.wrapperName (bound.field.rule.effective e.ns)) >>=
        fun found => match found with
        | none => .ok none
        | some wrapper => (itemsUnder family typeName bound.field bound.field.tag
            (fun _ => false) (childPath path wrapper) wrapper).map some := by
  have htag : bound.field.tag.placement = bound.field.placement := rfl
  have hrule : bound.field.tag.rule = bound.field.rule := rfl
  simp only [locate, htag, hplace, hrule]
  rfl

theorem locate_of_unwrapped (hplace : bound.field.placement = .unwrappedList) :
    locate family typeName tags index bound.field bound.field.tag path e =
      (itemsUnder family typeName bound.field bound.field.tag
        (claimedByOther tags (some index) e.ns) path e).map
          fun located => if located.isEmpty then none else some located := by
  have htag : bound.field.tag.placement = bound.field.placement := rfl
  simp only [locate, htag, hplace]
  rfl

theorem itemsUnder_list {type : κ} {isSibling : Element → Bool}
    (hkind : bound.field.kind = .list type) :
    itemsUnder family typeName bound.field bound.field.tag isSibling path e =
      .ok (.items path
        (e.childrenNamed bound.field.tag.itemName (bound.field.rule.effective e.ns))) := by
  simp only [itemsUnder, hkind]
  rfl

theorem itemsUnder_variants {types : List κ} {isSibling : Element → Bool}
    {candidates : List Element} (hkind : bound.field.kind = .variants types)
    (hcandidates : (e.children.filter fun child => !isSibling child) = candidates) :
    itemsUnder family typeName bound.field bound.field.tag isSibling path e =
      (variantsOf family types path e.ns candidates).map (Located.variants path) := by
  simp only [itemsUnder, hkind, hcandidates]
  rfl

end Places

/-- Whether an element consists of the parts of some rows. -/
structure Assembled (ns : Option String) (rows : List (Row κ)) (e : Element) : Prop where
  ns : e.ns = ns
  attributes : e.attributes = rows.flatMap fun row => row.part.attributes
  children : e.children = rows.flatMap fun row => row.part.children
  text : e.text = (rows.filterMap fun row => row.part.text).getLast?

/-- Whether a child that is written for a member bears the member's name and is read
back as the member. -/
def Restores [DecidableEq κ] (family : Family κ) (naming : κ → ItemName) (member : Record κ)
    (child : Element) : Prop :=
  elementKey child = (naming member.type).key ∧
    ∀ path, (readElement family member.type path child).outcome = .ok (member.settle family)

section Locating

variable {family : Family κ} {ns : Option String} {rows : List (Row κ)}
  {e : Element} {row : Row κ}

/-- No attribute is read by two fields. -/
theorem Laid.eq_of_reads (hlaid : Laid family ns rows) {first second : Row κ}
    (hfirst : first ∈ rows) (hsecond : second ∈ rows) {attr : Attribute}
    (hreads : Reads first.bound.field ns attr) (hreads' : Reads second.bound.field ns attr) :
    first = second := by
  rcases eq_or_rel_of_pairwise hlaid.attributes hfirst hsecond with rfl | hnot | hnot
  · rfl
  · exact absurd ⟨hreads, hreads'⟩ (hnot attr)
  · exact absurd ⟨hreads', hreads⟩ (hnot attr)

/-- An attribute that a field reads is the one it has written, or else a qualified
leftover beside that one. -/
theorem Laid.attribute_of_reads (hlaid : Laid family ns rows) (he : Assembled ns rows e)
    (hrow : row ∈ rows) {attr : Attribute} (hattr : attr ∈ e.attributes)
    (hreads : Reads row.bound.field ns attr) :
    (∃ value, row.slot = some (.scalar value) ∧ row.bound.written? value = some value ∧
      attr = ⟨row.bound.field.tag.name, row.bound.field.rule.forAttribute, value.text⟩) ∨
    (attr.ns ≠ none ∧ row.bound.field.rule.forAttribute = none ∧
      settleSlot family row.bound row.slot ≠ none) := by
  rw [he.attributes] at hattr
  obtain ⟨source, hsource, hpart⟩ := List.mem_flatMap.mp hattr
  rcases attribute_cases (hlaid.wrote source hsource) hpart with
    ⟨value, hslot, hplace, hwritten, rfl⟩ | ⟨other, hslot, _, entry, hentry, rfl⟩
  · have hsame := hlaid.eq_of_reads hsource hrow (reads_own hplace value.text) hreads
    subst hsame
    exact Or.inl ⟨value, hslot, hwritten, rfl⟩
  · exact Or.inr (hlaid.apart source hsource other hslot entry hentry row hrow hreads)

/-- A field finds the attribute that it has written. -/
theorem Laid.findAttribute?_of_written (hlaid : Laid family ns rows) (he : Assembled ns rows e)
    (hrow : row ∈ rows) {value : Scalar} (hslot : row.slot = some (.scalar value))
    (hplace : row.bound.field.placement = .attr)
    (hmem : (⟨row.bound.field.tag.name, row.bound.field.rule.forAttribute, value.text⟩ :
      Attribute) ∈ row.part.attributes) :
    findAttribute? e row.bound.field.tag.name row.bound.field.rule =
      some ⟨row.bound.field.tag.name, row.bound.field.rule.forAttribute, value.text⟩ := by
  have hreads : Reads row.bound.field ns
      ⟨row.bound.field.tag.name, row.bound.field.rule.forAttribute, value.text⟩ :=
    reads_own hplace value.text
  apply findAttribute?_eq_some
  · rw [he.attributes]
    exact List.mem_flatMap.mpr ⟨row, hrow, hmem⟩
  · rw [he.ns]
    exact hreads.2
  · intro other hother hmatches
    rw [he.ns] at hmatches
    rcases hlaid.attribute_of_reads he hrow hother ⟨hplace, hmatches⟩ with
      ⟨value', hslot', _, rfl⟩ | ⟨hqualified, hunqualified, _⟩
    · rw [hslot] at hslot'
      cases hslot'
      exact Or.inl rfl
    · exact Or.inr ⟨hunqualified, hqualified⟩

/-- A field that has written nothing finds no attribute. -/
theorem Laid.findAttribute?_of_skips (hlaid : Laid family ns rows) (he : Assembled ns rows e)
    (hrow : row ∈ rows) (hplace : row.bound.field.placement = .attr)
    (hskips : row.bound.skips row.slot = true) :
    findAttribute? e row.bound.field.tag.name row.bound.field.rule = none := by
  rw [findAttribute?_eq_none_iff]
  intro other hother
  rw [Bool.eq_false_iff]
  intro hmatches
  rw [he.ns] at hmatches
  rcases hlaid.attribute_of_reads he hrow hother ⟨hplace, hmatches⟩ with
    ⟨value, hslot, hwritten, _⟩ | ⟨_, _, hsettled⟩
  · simp [BoundField.skips, hslot, hwritten] at hskips
  · exact hsettled (settleSlot_of_skips hskips _)

/-- A field that reads an attribute and is not empty finds what it has written. -/
theorem Laid.exists_found (hlaid : Laid family ns rows) (he : Assembled ns rows e)
    (hrow : row ∈ rows) (hplace : row.bound.field.placement = .attr)
    (hsettled : settleSlot family row.bound row.slot ≠ none) :
    ∃ text, findAttribute? e row.bound.field.tag.name row.bound.field.rule =
      some ⟨row.bound.field.tag.name, row.bound.field.rule.forAttribute, text⟩ := by
  have hwrote := hlaid.wrote row hrow
  have hfound : ∀ value, row.slot = some (.scalar value) →
      (⟨row.bound.field.tag.name, row.bound.field.rule.forAttribute, value.text⟩ :
        Attribute) ∈ row.part.attributes →
      findAttribute? e row.bound.field.tag.name row.bound.field.rule =
        some ⟨row.bound.field.tag.name, row.bound.field.rule.forAttribute, value.text⟩ :=
    fun _ hslot hmem => hlaid.findAttribute?_of_written he hrow hslot hplace hmem
  obtain ⟨bound, slot, part⟩ := row
  dsimp only at hwrote hplace hsettled hfound ⊢
  cases hwrote with
  | attr _ hwritten => exact ⟨_, hfound _ rfl List.mem_cons_self⟩
  | nothing _ hskips => exact absurd (settleSlot_of_skips hskips _) hsettled
  | text hother _ => rw [hplace] at hother; contradiction
  | element hother _ => rw [hplace] at hother; contradiction
  | wrapped hother _ _ => rw [hplace] at hother; contradiction
  | items hother _ _ => rw [hplace] at hother; contradiction
  | overflow hother _ => rw [hplace] at hother; contradiction

/-- What no field reads is what the leftover attributes have left. -/
theorem Laid.unclaimedAttributes_eq (hlaid : Laid family ns rows) (he : Assembled ns rows e)
    (hrow : row ∈ rows) (hkind : row.bound.field.kind = .overflow) :
    unclaimedAttributes e (rows.map fun row => row.bound.field.tag) = row.part.attributes := by
  have hnodup : e.attributes.Nodup := by
    rw [he.attributes]
    exact hlaid.nodup_keys.of_map
  have hall : row.part.attributes.filter (fun attr =>
      decide (∀ tag ∈ rows.map fun row => row.bound.field.tag, tag.placement = .attr →
        findAttribute? e tag.name tag.rule ≠ some attr)) = row.part.attributes := by
    rw [List.filter_eq_self]
    intro attr hattr
    simp only [decide_eq_true_eq, List.mem_map, forall_exists_index, and_imp,
      forall_apply_eq_imp_iff₂]
    intro taker htaker hplace hfound
    rcases attribute_cases (hlaid.wrote row hrow) hattr with
      ⟨_, _, hplace', _⟩ | ⟨other, hslot, _, entry, hentry, rfl⟩
    · simp [FieldDecl.placement, hkind] at hplace'
    · have hmatches := (spec_of_findAttribute? hfound).2.1
      rw [he.ns] at hmatches
      obtain ⟨hqualified, hunqualified, hsettled⟩ :=
        hlaid.apart row hrow other hslot entry hentry taker htaker ⟨hplace, hmatches⟩
      obtain ⟨text, hwritten⟩ := hlaid.exists_found he htaker hplace hsettled
      have hsame := hfound.symm.trans hwritten
      apply hqualified
      have hns : (entryAttribute entry).ns = taker.bound.field.rule.forAttribute :=
        congrArg Attribute.ns (Option.some.inj hsame)
      exact hns.trans hunqualified
  rw [Binding.unclaimedAttributes_eq hnodup, he.attributes, List.filter_flatMap]
  rw [flatMap_of_unique hlaid.overflow hrow hkind, hall]
  intro source hsource hnot
  rw [List.filter_eq_nil_iff]
  intro attr hattr
  rcases attribute_cases (hlaid.wrote source hsource) hattr with
    ⟨value, hslot, hplace, _, rfl⟩ | ⟨_, _, hother, _⟩
  · simp only [decide_eq_true_eq, List.mem_map, forall_exists_index, and_imp,
      forall_apply_eq_imp_iff₂]
    intro hunread
    exact hunread source hsource hplace
      (hlaid.findAttribute?_of_written he hsource hslot hplace hattr)
  · exact absurd hother hnot

/-- Whether the children of each row bear the names that its field gives. -/
def KeysFit (family : Family κ) (ns : Option String) (rows : List (Row κ)) : Prop :=
  ∀ row ∈ rows, ∀ child ∈ row.part.children,
    elementKey child ∈ childKeys family row.bound.field ns

/-- Children that bear the names of the members they were written for. -/
theorem elementKey_mem_of_wrote {bound : BoundField κ} {slot : Option (FieldValue κ)}
    {part : Part} (hcarries : bound.Carries slot) (hwrote : Wrote family ns bound slot part)
    (hnamed : ∀ member ∈ slotMembers slot, ∀ child,
      WritesChild family (memberName family bound.field ns) member child →
        elementKey child = (memberName family bound.field ns member.type).key)
    {child : Element} (hchild : child ∈ part.children) :
    elementKey child ∈ childKeys family bound.field ns := by
  have hmember : ∀ member ∈ slotMembers slot,
      WritesChild family (memberName family bound.field ns) member child →
        elementKey child ∈ memberKeys family bound.field ns := by
    intro member hmember hwrites
    rw [hnamed member hmember child hwrites]
    exact List.mem_map_of_mem (hcarries.type_mem hmember)
  cases hwrote with
  | element hplace hwrites =>
      rw [List.mem_singleton.mp hchild] at hmember ⊢
      simp only [childKeys, hplace]
      exact hmember _ List.mem_cons_self hwrites
  | wrapped hplace _ _ =>
      rw [List.mem_singleton.mp hchild]
      simp [childKeys, hplace, wrapperElement, elementKey, Element.empty]
  | items hplace _ hitems =>
      obtain ⟨member, hmem, hwrites⟩ := exists_of_forall₂ hitems.flip hchild
      simp only [childKeys, hplace]
      exact hmember member hmem hwrites
  | nothing _ _ => exact absurd hchild List.not_mem_nil
  | attr _ _ => exact absurd hchild List.not_mem_nil
  | text _ _ => exact absurd hchild List.not_mem_nil
  | overflow _ _ => exact absurd hchild List.not_mem_nil

theorem Laid.childKeys_disjoint (hlaid : Laid family ns rows) (key : QName) :
    rows.Pairwise fun first second =>
      ¬(key ∈ childKeys family first.bound.field ns ∧
        key ∈ childKeys family second.bound.field ns) :=
  (List.nodup_flatMap.mp hlaid.children).2.imp fun hdisjoint hboth =>
    hdisjoint hboth.1 hboth.2

/-- A field that gives all its children one name finds them under this name. -/
theorem Laid.childrenNamed_eq (hlaid : Laid family ns rows) (he : Assembled ns rows e)
    (hkeys : KeysFit family ns rows) (hrow : row ∈ rows) {key : QName}
    (hkey : childKeys family row.bound.field ns = [key]) :
    e.childrenNamed key.name key.ns = row.part.children := by
  have hown : row.part.children.filter (fun child => decide (child.Named key.name key.ns)) =
      row.part.children := by
    rw [List.filter_eq_self]
    intro child hchild
    have hmem := hkeys row hrow child hchild
    rw [hkey, List.mem_singleton] at hmem
    exact decide_eq_true (named_iff_elementKey.mpr hmem)
  rw [Element.childrenNamed, he.children, List.filter_flatMap,
    flatMap_of_unique (hlaid.childKeys_disjoint key) hrow (by simp [hkey]), hown]
  intro other hother hnot
  rw [List.filter_eq_nil_iff]
  intro child hchild hnamed
  have hsame := named_iff_elementKey.mp (of_decide_eq_true hnamed)
  exact hnot (hsame ▸ hkeys other hother child hchild)

theorem takesRest_of_unwrapped {field : FieldDecl κ} {types : List κ}
    (hplace : field.placement = .unwrappedList) (hkind : field.kind = .variants types) :
    field.takesRest = true := by
  have hwrapper := (list_of_unwrapped hplace).2
  simp [FieldDecl.takesRest, hkind, Option.isSome_eq_false_iff.mp hwrapper]

/-- A field that does not take the rest claims the children whose names it gives. -/
theorem claims_iff {field : FieldDecl κ} (hrest : field.takesRest = false) (child : Element) :
    field.tag.claims ns child = true ↔ elementKey child ∈ childKeys family field ns := by
  have hclaims : ∀ name, field.tag.childName? = some name →
      (field.tag.claims ns child = true ↔ elementKey child = ⟨name, field.rule.effective ns⟩) := by
    intro name hname
    rw [← named_iff_elementKey]
    simp only [Tag.claims, hname, Option.any_some, decide_eq_true_eq]
    exact Iff.rfl
  have hnone : field.tag.childName? = none → field.tag.claims ns child = false := by
    intro hname
    simp [Tag.claims, hname]
  cases hplace : field.placement with
  | attr =>
      rw [hnone (by simp [Tag.childName?, FieldDecl.tag, hplace])]
      simp [childKeys, hplace]
  | text =>
      rw [hnone (by simp [Tag.childName?, FieldDecl.tag, hplace])]
      simp [childKeys, hplace]
  | overflow =>
      rw [hnone (by simp [Tag.childName?, FieldDecl.tag, hplace])]
      simp [childKeys, hplace]
  | childElement =>
      rw [hclaims field.tag.name (by simp [Tag.childName?, FieldDecl.tag, hplace]),
        childKeys_of_element hplace, List.mem_singleton]
  | wrappedList =>
      rw [hclaims field.tag.wrapperName (by
          simp [Tag.childName?, FieldDecl.tag, hplace, Tag.wrapperName]),
        childKeys_of_wrapped hplace, List.mem_singleton]
  | unwrappedList =>
      have hlist := (list_of_unwrapped hplace).1
      cases hkind : field.kind with
      | list type =>
          rw [hclaims field.tag.itemName (by
              simp [Tag.childName?, FieldDecl.tag, hplace, Tag.itemName]),
            childKeys_of_items hplace hkind, List.mem_singleton]
      | variants types =>
          rw [takesRest_of_unwrapped hplace hkind] at hrest
          contradiction
      | value => rw [hkind] at hlist; contradiction
      | element type => rw [hkind] at hlist; contradiction
      | overflow => rw [hkind] at hlist; contradiction

/-- Away from the tag at `index`, it does not matter which tags are other ones. -/
theorem any_claims_of_ne {tags : List Tag} {start index : Nat} (parent : Option String)
    (child : Element) (hapart : ∀ i, start ≤ i → i < start + tags.length → i ≠ index) :
    ((tags.zipIdx start).any fun (tag, i) => some i ≠ some index && tag.claims parent child) =
      tags.any fun tag => tag.claims parent child := by
  induction tags generalizing start with
  | nil => rfl
  | cons first rest ih =>
      rw [List.length_cons] at hapart
      have hfirst := hapart start (Nat.le_refl start) (by omega)
      have hrest := ih (fun i hlow hhigh => hapart i (by omega) (by omega) :
        ∀ i, start + 1 ≤ i → i < start + 1 + rest.length → i ≠ index)
      rw [List.zipIdx_cons, List.any_cons, List.any_cons, hrest]
      simp [hfirst]

/-- The tags beside the one at a position are those before and after it. -/
theorem claimedByOther_append (front back : List Tag) (tag : Tag) (parent : Option String)
    (child : Element) :
    claimedByOther (front ++ tag :: back) (some front.length) parent child =
      (front ++ back).any fun other => other.claims parent child := by
  rw [claimedByOther, List.zipIdx_append, List.zipIdx_cons, List.any_append, List.any_cons,
    any_claims_of_ne parent child fun i _ hi => by omega,
    any_claims_of_ne parent child fun i hi _ => by omega, List.any_append]
  simp

/-- Beside a field that takes the rest no other one does, and no other one gives a child a
name that this one gives. -/
theorem Laid.other_of_rest {front back : List (Row κ)}
    (hlaid : Laid family ns (front ++ row :: back)) (hrest : row.bound.field.takesRest = true)
    {other : Row κ} (hother : other ∈ front ++ back) :
    other.bound.field.takesRest = false ∧ other ∈ front ++ row :: back ∧
      ∀ key, key ∈ childKeys family other.bound.field ns →
        key ∉ childKeys family row.bound.field ns := by
  have hrests := List.pairwise_append.mp hlaid.rest
  have hkeys := fun key => List.pairwise_append.mp (hlaid.childKeys_disjoint key)
  rcases List.mem_append.mp hother with hfront | hback
  · refine ⟨Bool.eq_false_iff.mpr fun htakes =>
      hrests.2.2 other hfront row List.mem_cons_self ⟨htakes, hrest⟩,
      List.mem_append_left _ hfront, fun key hkey hkey' => ?_⟩
    exact (hkeys key).2.2 other hfront row List.mem_cons_self ⟨hkey, hkey'⟩
  · refine ⟨Bool.eq_false_iff.mpr fun htakes =>
      (List.pairwise_cons.mp hrests.2.1).1 other hback ⟨hrest, htakes⟩,
      List.mem_append_right _ (List.mem_cons_of_mem row hback), fun key hkey hkey' => ?_⟩
    exact (List.pairwise_cons.mp (hkeys key).2.1).1 other hback ⟨hkey', hkey⟩

theorem claimedByOther_rows (front back : List (Row κ)) (row : Row κ) (parent : Option String)
    (child : Element) :
    claimedByOther ((front ++ row :: back).map fun row => row.bound.field.tag)
      (some front.length) parent child =
        (front ++ back).any fun other => other.bound.field.tag.claims parent child := by
  have hsplit := claimedByOther_append (front.map fun row => row.bound.field.tag)
    (back.map fun row => row.bound.field.tag) row.bound.field.tag parent child
  rw [List.length_map] at hsplit
  rw [List.map_append, List.map_cons, hsplit, ← List.map_append, List.any_map]
  rfl

/-- The field that takes the rest finds the children it has given. -/
theorem Laid.rest_eq {front back : List (Row κ)} (hlaid : Laid family ns (front ++ row :: back))
    (he : Assembled ns (front ++ row :: back) e)
    (hkeys : KeysFit family ns (front ++ row :: back))
    (hrest : row.bound.field.takesRest = true) :
    e.children.filter (fun child => !claimedByOther
      ((front ++ row :: back).map fun row => row.bound.field.tag) (some front.length) e.ns child) =
        row.part.children := by
  have hown : row.part.children.filter (fun child => !claimedByOther
      ((front ++ row :: back).map fun row => row.bound.field.tag) (some front.length) e.ns child) =
        row.part.children := by
    rw [List.filter_eq_self]
    intro child hchild
    rw [claimedByOther_rows, he.ns, Bool.not_eq_true', List.any_eq_false]
    intro other hother hclaims
    obtain ⟨htakes, _, hdisjoint⟩ := hlaid.other_of_rest hrest hother
    exact hdisjoint _ ((claims_iff htakes child).mp hclaims) (hkeys row (by simp) child hchild)
  have hnil : ∀ other ∈ front ++ back, other.part.children.filter (fun child => !claimedByOther
      ((front ++ row :: back).map fun row => row.bound.field.tag) (some front.length) e.ns child) =
        [] := by
    intro other hother
    obtain ⟨htakes, hmem, _⟩ := hlaid.other_of_rest hrest hother
    rw [List.filter_eq_nil_iff]
    intro child hchild
    rw [claimedByOther_rows, he.ns, Bool.not_eq_true', Bool.not_eq_false, List.any_eq_true]
    exact ⟨other, hother, (claims_iff htakes child).mpr (hkeys other hmem child hchild)⟩
  rw [he.children, List.flatMap_append, List.flatMap_cons, List.filter_append, List.filter_append,
    hown, List.filter_flatMap, List.filter_flatMap]
  rw [List.flatMap_eq_nil_iff.mpr fun other hother => hnil other (List.mem_append_left _ hother),
    List.flatMap_eq_nil_iff.mpr fun other hother => hnil other (List.mem_append_right _ hother)]
  simp

/-- The text of the element is the one that the field of the text has written. -/
theorem Laid.text_eq (hlaid : Laid family ns rows) (he : Assembled ns rows e)
    (hrow : row ∈ rows) (hplace : row.bound.field.placement = .text) :
    e.text = row.part.text := by
  have htext := (value_of_text hplace).2
  have hothers : ∀ other ∈ rows, ¬other.bound.field.isText = true → other.part.text = none := by
    intro other hother hnot
    have hwrote := hlaid.wrote other hother
    obtain ⟨bound, slot, part⟩ := other
    dsimp only at hwrote hnot ⊢
    cases hwrote with
    | text hplace' _ => exact absurd (value_of_text hplace').2 hnot
    | _ => rfl
  rw [he.text, filterMap_of_unique hlaid.text hrow htext hothers]
  cases row.part.text <;> rfl

section Skipped

variable {front back : List (Row κ)}

/-- What is found for a field that has left nothing. -/
theorem locate_of_skips (typeName path : String) (hlaid : Laid family ns (front ++ row :: back))
    (he : Assembled ns (front ++ row :: back) e) (hkeys : KeysFit family ns (front ++ row :: back))
    (hskips : row.bound.skips row.slot = true) (hpart : row.part = ⟨[], none, []⟩) :
    locate family typeName ((front ++ row :: back).map fun row => row.bound.field.tag)
      front.length row.bound.field row.bound.field.tag path e = .ok none := by
  have hrow : row ∈ front ++ row :: back := by simp
  have hchildren : ∀ {key}, childKeys family row.bound.field ns = [key] →
      e.childrenNamed key.name key.ns = [] := fun hkey => by
    rw [hlaid.childrenNamed_eq he hkeys hrow hkey, hpart]
  cases hplace : row.bound.field.placement with
  | attr =>
      have hnone := hlaid.findAttribute?_of_skips he hrow hplace hskips
      rw [locate_of_attr hplace, hnone]
      rfl
  | text =>
      have hnone := hlaid.text_eq he hrow hplace
      rw [locate_of_text hplace, Element.ownText?, hnone, hpart]
      rfl
  | childElement =>
      have hnone := singleChild_eq_none path (hchildren (childKeys_of_element hplace))
      rw [locate_of_element hplace, he.ns, hnone]
      rfl
  | wrappedList =>
      have hnone := singleChild_eq_none path (hchildren (childKeys_of_wrapped hplace))
      rw [locate_of_wrapped hplace, he.ns, hnone]
      rfl
  | unwrappedList =>
      rw [locate_of_unwrapped hplace]
      have hlist := (list_of_unwrapped hplace).1
      cases hkind : row.bound.field.kind with
      | list type =>
          rw [itemsUnder_list hkind, he.ns, hchildren (childKeys_of_items hplace hkind)]
          rfl
      | variants types =>
          have hrest := takesRest_of_unwrapped hplace hkind
          rw [itemsUnder_variants hkind (hlaid.rest_eq he hkeys hrest), hpart]
          rfl
      | value => rw [hkind] at hlist; contradiction
      | element type => rw [hkind] at hlist; contradiction
      | overflow => rw [hkind] at hlist; contradiction
  | overflow =>
      rw [locate_of_overflow hplace,
        hlaid.unclaimedAttributes_eq he hrow (kind_of_overflow hplace), hpart]
      rfl

end Skipped

end Locating

end Epub.Binding
