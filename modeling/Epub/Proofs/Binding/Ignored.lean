/-
What is left over when an element is read, and what of it is noted.  The reading of a tree is
a sequence of visits, each of an element in a role; on the way nothing is noted that a field
receives, and the theorem says which of the rest are.
-/
import Epub.Proofs.Binding.Fields

namespace Epub

/-- Whether the event says that something has been left over. -/
def Event.isIgnored : Event → Bool
  | .ignoredAttribute _ _ => true
  | .ignoredElement _ _ => true
  | _ => false

namespace Binding

open Epub.Schema Epub.Xml

variable {κ : Type}

section Definitions

variable (family : Family κ)

/-- The elements of which it can be told as what they are read. -/
def told {ρ : Type} (tell : Element → Option ρ) (found : List Element) : List (ρ × Element) :=
  found.filterMap fun child => (tell child).map fun role => (role, child)

/-- The children that are read on behalf of an element in its role, field by field. -/
def given (e : Element) : Role κ → List (Role κ × Element)
  | .value key => (family key).fields.zipIdx.flatMap fun item =>
      told (roleOf? family item.1.field e.ns)
        (e.children.filter (considers family key item.2 item.1.field e.ns))
  | .wrapper field =>
      told (fun child => (memberType? family field e.ns child).map .value)
        (e.children.filter (listsItem field e.ns))

/-- Whether a child is read on behalf of an element in `parent`, in its role. -/
def Role.receives (parent : Option String) (child : Element) : Role κ → Bool
  | .value key => (family key).fields.zipIdx.any fun item =>
      considers family key item.2 item.1.field parent child &&
        (roleOf? family item.1.field parent child).isSome
  | .wrapper field =>
      listsItem field parent child && (memberType? family field parent child).isSome

/-- The children of an element that are not read on its behalf. -/
def unreceivedChildren (role : Role κ) (e : Element) : List Element :=
  e.children.filter fun child => !role.receives family e.ns child

/-- The attributes that no field of the type receives: none is read by a field for an
attribute, and there is no field for those that are left over. -/
def unreceivedAttributes (key : κ) (e : Element) : List Attribute :=
  (e.attributes.zipIdx.filter fun entry => decide (∀ bound ∈ (family key).fields,
    bound.field.placement ≠ .overflow ∧ (bound.field.placement = .attr →
      attributeIndex? e bound.field.tag.name bound.field.rule ≠ some entry.2))).map Prod.fst

/-- Whether a field of the type is a list of variants, wherever it lives. -/
def hasVariants (key : κ) : Bool :=
  (family key).fields.any fun bound =>
    match bound.field.kind with
    | .variants _ => true
    | _ => false

end Definitions

/-- The reading of one element. -/
structure Visit (κ : Type) where
  role : Role κ
  path : String
  element : Element

namespace Visit

variable (family : Family κ) (visit : Visit κ)

/-- What is said of attributes that are not received.  In a wrapper nobody asks for any. -/
def attributeEvents : List Event :=
  match visit.role with
  | .value key => (unreceivedAttributes family key visit.element).map fun attr =>
      .ignoredAttribute attr.name visit.path
  | .wrapper _ => []

/-- What is said of children that are not received. -/
def childEvents : List Event :=
  (unreceivedChildren family visit.role visit.element).map fun child =>
    .ignoredElement child.name visit.path

/-- Whether nothing is said of children: in a wrapper, and where the type has a list of
variants. -/
def isSilent : Bool :=
  match visit.role with
  | .value key => hasVariants family key
  | .wrapper _ => true

/-- All that is left over at the visit. -/
def dropped : List Event :=
  visit.attributeEvents family ++ visit.childEvents family

/-- What is noted of it. -/
def noted : List Event :=
  visit.attributeEvents family ++ if visit.isSilent family then [] else visit.childEvents family

end Visit

section Given

variable {family : Family κ} {role inner : Role κ} {e child : Element}

theorem mem_told_iff {ρ : Type} {tell : Element → Option ρ} {found : List Element} {role : ρ} :
    (role, child) ∈ told tell found ↔ child ∈ found ∧ tell child = some role := by
  simp only [told, List.mem_filterMap, Option.map_eq_some_iff, Prod.mk.injEq]
  constructor
  · rintro ⟨_, hchild, _, htell, rfl, rfl⟩
    exact ⟨hchild, htell⟩
  · rintro ⟨hchild, htell⟩
    exact ⟨child, hchild, role, htell, rfl, rfl⟩

theorem mem_children_of_given {item : Role κ × Element} (hgiven : item ∈ given family e role) :
    item.2 ∈ e.children := by
  obtain ⟨inner, child⟩ := item
  cases role with
  | value key =>
      obtain ⟨_, _, htold⟩ := List.mem_flatMap.mp hgiven
      exact (List.mem_filter.mp (mem_told_iff.mp htold).1).1
  | wrapper field => exact (List.mem_filter.mp (mem_told_iff.mp hgiven).1).1

end Given

/-- The visits that the reading of an element consists of, each after those inside it. -/
def visits (family : Family κ) (role : Role κ) (path : String) (e : Element) : List (Visit κ) :=
  ((given family e role).attach.flatMap fun ⟨item, _⟩ =>
    visits family item.1 (childPath path item.2) item.2) ++ [⟨role, path, e⟩]
termination_by sizeOf e
decreasing_by
  exact Element.sizeOf_child_lt (mem_children_of_given ‹_›)

theorem visits_eq (family : Family κ) (role : Role κ) (path : String) (e : Element) :
    visits family role path e =
      ((given family e role).flatMap fun item =>
        visits family item.1 (childPath path item.2) item.2) ++ [⟨role, path, e⟩] := by
  rw [visits, List.flatMap_subtype (fun _ _ => rfl), List.unattach_attach]

section Noted

variable {family : Family κ} {key : κ} {e : Element}

theorem hasVariants_iff : hasVariants family key = true ↔
    ∃ bound ∈ (family key).fields, ∃ types, bound.field.kind = .variants types := by
  rw [hasVariants, List.any_eq_true]
  refine exists_congr fun bound => and_congr_right fun _ => ?_
  cases bound.field.kind <;> simp

/-- Without a field for leftover attributes those that no tag reads are not received. -/
theorem unreceivedAttributes_eq :
    unreceivedAttributes family key e =
      if (family key).tags.any (·.placement = .overflow) then []
      else unclaimedAttributes e (family key).tags := by
  by_cases hoverflow : (family key).tags.any (·.placement = .overflow) = true
  · rw [if_pos hoverflow, unreceivedAttributes]
    obtain ⟨tag, htag, hplace⟩ := List.any_eq_true.mp hoverflow
    obtain ⟨bound, hbound, rfl⟩ := List.mem_map.mp htag
    simp only [List.map_eq_nil_iff, List.filter_eq_nil_iff, decide_eq_true_eq, not_forall]
    exact fun _ _ => ⟨bound, hbound, fun hnone => hnone.1 (of_decide_eq_true hplace)⟩
  · rw [if_neg hoverflow, unreceivedAttributes, unclaimedAttributes]
    congr 1
    apply List.filter_congr
    intro entry _
    apply decide_eq_decide.mpr
    simp only [mem_claimedIndices, BoundType.tags, List.mem_map, exists_exists_and_eq_and,
      not_exists, not_and]
    refine forall_congr' fun bound => forall_congr' fun hbound => ?_
    constructor
    · exact fun hnone => hnone.2
    · intro hreads
      refine ⟨fun hplace => hoverflow ?_, hreads⟩
      exact List.any_eq_true.mpr ⟨bound.field.tag, List.mem_map_of_mem hbound,
        decide_eq_true hplace⟩

/-- A field that is no list of variants reads the children that its tag claims. -/
theorem claims_eq {index : Nat} {field : FieldDecl κ} {parent : Option String} {child : Element}
    (hkind : ∀ types, field.kind ≠ .variants types) :
    field.tag.claims parent child = (considers family key index field parent child &&
      (roleOf? family field parent child).isSome) := by
  have hrest : field.takesRest = false := by
    cases hcase : field.kind <;> simp_all [FieldDecl.takesRest]
  have hconsiders :
      considers family key index field parent child = field.tag.claims parent child := by
    rw [considers, hrest]
    rfl
  rw [hconsiders]
  by_cases hclaims : field.tag.claims parent child = true
  · obtain ⟨name, hname⟩ := exists_childName?_of_considers (hconsiders.trans hclaims)
    have hrole : (roleOf? family field parent child).isSome = true := by
      cases hplace : field.placement with
      | childElement =>
          obtain ⟨type, hcase⟩ := element_of_placement hplace
          rw [roleOf?_of_element hcase, Option.isSome_some]
      | wrappedList => rw [roleOf?_of_wrapped hplace, Option.isSome_some]
      | unwrappedList =>
          have hlist := (list_of_unwrapped hplace).1
          rw [roleOf?_of_unwrapped hplace, memberType?]
          cases hcase : field.kind <;> simp_all [FieldKind.isList]
      | attr => simp [Tag.childName?, FieldDecl.tag, hplace] at hname
      | text => simp [Tag.childName?, FieldDecl.tag, hplace] at hname
      | overflow => simp [Tag.childName?, FieldDecl.tag, hplace] at hname
    simp [hclaims, hrole]
  · simp [hclaims]

/-- Where no field is a list of variants, the children that no tag claims are not received. -/
theorem claimedByOther_none (hvariants : hasVariants family key = false) (child : Element) :
    claimedByOther (family key).tags none e.ns child =
      (Role.value key).receives family e.ns child := by
  have hkind : ∀ bound ∈ (family key).fields, ∀ types, bound.field.kind ≠ .variants types := by
    intro bound hbound types hkind
    rw [hasVariants_iff.mpr ⟨bound, hbound, types, hkind⟩] at hvariants
    contradiction
  rw [Role.receives, claimedByOther, BoundType.tags, List.zipIdx_map, List.any_map,
    Bool.eq_iff_iff, List.any_eq_true, List.any_eq_true]
  refine exists_congr fun item => and_congr_right fun hitem => ?_
  rw [← claims_eq (hkind item.1 (List.fst_mem_of_mem_zipIdx hitem))]
  simp

/-- What is noted at the end of a reading is what is left over and not passed over in
silence. -/
theorem ignored_eq (path : String) :
    ignored (family key).descriptor (family key).tags path e =
      (Visit.mk (.value key) path e).noted family := by
  have hignored : ignored (family key).descriptor (family key).tags path e =
      (unreceivedAttributes family key e).map (fun attr => .ignoredAttribute attr.name path) ++
        (if hasVariants family key then [] else e.children.filter fun child =>
          !claimedByOther (family key).tags none e.ns child).map fun child =>
            .ignoredElement child.name path := by
    have hdescriptor : hasVariants family key = (family key).descriptor.fields.any fun field =>
        match field.kind with
        | .variants _ => true
        | _ => false := by
      rw [BoundType.descriptor, List.any_map]
      rfl
    rw [unreceivedAttributes_eq, hdescriptor]
    rfl
  have hsilent : (Visit.mk (.value key) path e).isSilent family = hasVariants family key := rfl
  rw [hignored, Visit.noted, hsilent, Visit.attributeEvents, Visit.childEvents]
  congr 1
  cases hvariants : hasVariants family key with
  | true => rfl
  | false =>
      simp only [unreceivedChildren, claimedByOther_none hvariants]
      rfl

end Noted

section Log

variable {family : Family κ} {key : κ} {index : Nat} {bound : BoundField κ} {e : Element}
  {typeName path outer : String}

/-- All that is noted at the visits of which the reading of an element consists. -/
def notedIn (family : Family κ) (role : Role κ) (path : String) (e : Element) : List Event :=
  (visits family role path e).flatMap (Visit.noted family)

theorem notedIn_eq (role : Role κ) :
    notedIn family role path e = ((given family e role).flatMap fun item =>
      notedIn family item.1 (childPath path item.2) item.2) ++
        (Visit.mk role path e).noted family := by
  rw [notedIn, visits_eq, List.flatMap_append, List.flatMap_assoc, List.flatMap_singleton]
  rfl

theorem told_map {ρ σ : Type} {tell : Element → Option ρ} (f : ρ → σ) (found : List Element) :
    told (fun child => (tell child).map f) found =
      (told tell found).map fun item => (f item.1, item.2) := by
  simp only [told, List.map_filterMap, Option.map_map]
  rfl

/-- In a wrapper nothing is noted but what is noted inside its items. -/
theorem notedIn_wrapper (field : FieldDecl κ) :
    notedIn family (.wrapper field) path e =
      (told (memberType? family field e.ns) (e.children.filter (listsItem field e.ns))).flatMap
        fun item => notedIn family (.value item.1) (childPath path item.2) item.2 := by
  rw [notedIn_eq, given, told_map, List.flatMap_map]
  exact List.append_nil _

theorem told_of_variantsOf {types : List κ} {parent : Option String} {candidates : List Element}
    {found : List (κ × Element)}
    (hfound : variantsOf family types path parent candidates = .ok found) :
    found = told (fun child => types.find? fun type =>
      (family type).descriptor.isVariant parent child) candidates := by
  induction candidates generalizing found with
  | nil => exact (Except.ok.inj hfound).symm
  | cons child rest ih =>
      rw [variantsOf_cons] at hfound
      split at hfound
      · rename_i type htype
        obtain ⟨others, hothers, rfl⟩ := map_eq_ok.mp hfound
        rw [ih hothers, told, told, List.filterMap_cons_some (by rw [htype]; rfl)]
      · contradiction

variable [DecidableEq κ]

/-- All that is noted inside the children that a field reads. -/
def notedBelow (family : Family κ) (key : κ) (index : Nat) (field : FieldDecl κ) (path : String)
    (e : Element) : List Event :=
  (told (roleOf? family field e.ns)
    (e.children.filter (considers family key index field e.ns))).flatMap fun item =>
      notedIn family item.1 (childPath path item.2) item.2

/-- Whether what is noted is noted inside these items, which are all read. -/
structure NotesItems (family : Family κ) (path : String) (items : List (κ × Element))
    (log : List Event) : Prop where
  log : log = items.flatMap fun item =>
    (readElement family item.1 (childPath path item.2) item.2).log
  read : ∀ item ∈ items, ∃ record,
    (readElement family item.1 (childPath path item.2) item.2).outcome = .ok record

/-- Whether inside the elements below `e` that are read as one of the types, what is noted of
ignored parts is noted at the visits that their reading consists of. -/
def NotesVisits (family : Family κ) (types : List κ) (e : Element) : Prop :=
  ∀ type ∈ types, ∀ child path record, sizeOf child < sizeOf e →
    (readElement family type path child).outcome = .ok record →
      (readElement family type path child).log.filter Event.isIgnored =
        notedIn family (.value type) path child

/-- Then it is so of the items of a list. -/
theorem NotesItems.filter_log {items : List (κ × Element)} {log : List Event}
    (hnotes : NotesItems family path items log) {types : List κ}
    (hvisits : NotesVisits family types e) (htypes : ∀ item ∈ items, item.1 ∈ types)
    (hbelow : ∀ item ∈ items, sizeOf item.2 < sizeOf e) :
    log.filter Event.isIgnored =
      items.flatMap fun item => notedIn family (.value item.1) (childPath path item.2) item.2 := by
  rw [hnotes.log, List.filter_flatMap]
  apply List.flatMap_congr
  intro item hitem
  obtain ⟨record, hrecord⟩ := hnotes.read item hitem
  exact hvisits item.1 (htypes item hitem) item.2 _ record (hbelow item hitem) hrecord

section Items

variable {isSibling : Element → Bool} {container : Element} {located : Located κ}
  {value : FieldValue κ}

/-- What is noted while a list of a fixed type is taken is noted inside its items, which are
all read. -/
theorem log_take_list {type : κ} (hkind : bound.field.kind = .list type)
    (hfits : bound.accessor.Fits bound.field.kind)
    (hitems : itemsUnder family typeName bound.field bound.field.tag isSibling path container =
      .ok located)
    (htake : (take typeName bound.field.tag outer bound.accessor located
      fun child _ key path => readElement family key path child).outcome = .ok value) :
    NotesItems family path
      (told (memberType? family bound.field container.ns)
        (candidates bound.field isSibling container))
      (take typeName bound.field.tag outer bound.accessor located
        fun child _ key path => readElement family key path child).log := by
  have haccessor : bound.accessor = .list type := hfits.eq_list hkind
  have htold : told (memberType? family bound.field container.ns)
      (candidates bound.field isSibling container) =
      (container.childrenNamed bound.field.tag.itemName
        (bound.field.rule.effective container.ns)).map fun item => (type, item) := by
    simp [told, memberType?, candidates, hkind, List.filterMap_eq_map']
  rw [itemsUnder_list hkind] at hitems
  obtain rfl := Except.ok.inj hitems
  rw [haccessor, take_list, Traced.outcome_map, map_eq_ok] at htake
  obtain ⟨records, hrecords, _⟩ := htake
  rw [haccessor, take_list, Traced.log_map, Traced.log_mapM_of_ok hrecords, htold]
  refine ⟨by rw [List.flatMap_map], fun item hitem => ?_⟩
  obtain ⟨child, hchild, rfl⟩ := List.mem_map.mp hitem
  obtain ⟨record, _, hread⟩ :=
    exists_of_forall₂ (Traced.outcome_mapM_eq_ok_iff.mp hrecords) hchild
  exact ⟨record, hread⟩

/-- The same for a list of variants. -/
theorem log_take_variants {types : List κ} (hkind : bound.field.kind = .variants types)
    (hfits : bound.accessor.Fits bound.field.kind)
    (hitems : itemsUnder family typeName bound.field bound.field.tag isSibling path container =
      .ok located)
    (htake : (take typeName bound.field.tag outer bound.accessor located
      fun child _ key path => readElement family key path child).outcome = .ok value) :
    NotesItems family path
      (told (memberType? family bound.field container.ns)
        (candidates bound.field isSibling container))
      (take typeName bound.field.tag outer bound.accessor located
        fun child _ key path => readElement family key path child).log := by
  obtain ⟨types', haccessor, hsame⟩ := hfits.exists_variants hkind
  rw [itemsUnder_variants hkind rfl] at hitems
  obtain ⟨found, hfound, rfl⟩ := map_eq_ok.mp hitems
  have htold : told (memberType? family bound.field container.ns)
      (candidates bound.field isSibling container) = found := by
    have htell : memberType? family bound.field container.ns = fun child =>
        types.find? fun type => (family type).descriptor.isVariant container.ns child := by
      funext child
      simp only [memberType?, hkind]
    rw [htell, told_of_variantsOf hfound, candidates, hkind]
  have hmember : ∀ item ∈ found, item.1 ∈ types' := fun item hitem =>
    (hsame item.1).mpr (List.mem_of_find?_eq_some (find?_of_variantsOf hfound item hitem).2)
  rw [haccessor, take_variants, Traced.outcome_map, map_eq_ok] at htake
  obtain ⟨records, hrecords, _⟩ := htake
  rw [haccessor, take_variants, Traced.log_map, Traced.log_mapM_of_ok hrecords, htold]
  refine ⟨List.flatMap_congr fun item hitem => by rw [if_pos (hmember item hitem)],
    fun item hitem => ?_⟩
  obtain ⟨record, _, hread⟩ :=
    exists_of_forall₂ (Traced.outcome_mapM_eq_ok_iff.mp hrecords) hitem
  rw [if_pos (hmember item hitem)] at hread
  exact ⟨record, hread⟩

/-- What is noted while a list is taken is noted inside its items, which are all read. -/
theorem log_take_items (hfits : bound.accessor.Fits bound.field.kind)
    (hlist : bound.field.kind.isList = true)
    (hitems : itemsUnder family typeName bound.field bound.field.tag isSibling path container =
      .ok located)
    (htake : (take typeName bound.field.tag outer bound.accessor located
      fun child _ key path => readElement family key path child).outcome = .ok value) :
    NotesItems family path
      (told (memberType? family bound.field container.ns)
        (candidates bound.field isSibling container))
      (take typeName bound.field.tag outer bound.accessor located
        fun child _ key path => readElement family key path child).log := by
  cases hkind : bound.field.kind with
  | list type => exact log_take_list hkind hfits hitems htake
  | variants types => exact log_take_variants hkind hfits hitems htake
  | value => simp [hkind, FieldKind.isList] at hlist
  | element type => simp [hkind, FieldKind.isList] at hlist
  | overflow => simp [hkind, FieldKind.isList] at hlist

end Items

/-- A slot that is read was found and taken, or it was absent, which is all that is noted. -/
theorem log_readSlot_cases {slot : Option (FieldValue κ)}
    (hread : (readSlot family typeName (family key).tags path e
      ((bound, bound.field.tag), index)).outcome = .ok slot) :
    (locate family typeName (family key).tags index bound.field bound.field.tag path e = .ok none ∧
      (readSlot family typeName (family key).tags path e
        ((bound, bound.field.tag), index)).log = [.absentField bound.field.tag.name path]) ∨
    ∃ located value,
      locate family typeName (family key).tags index bound.field bound.field.tag path e =
        .ok (some located) ∧
      (take typeName bound.field.tag path bound.accessor located
        fun child _ key path => readElement family key path child).outcome = .ok value ∧
      (readSlot family typeName (family key).tags path e ((bound, bound.field.tag), index)).log =
        (take typeName bound.field.tag path bound.accessor located
          fun child _ key path => readElement family key path child).log := by
  rw [readSlot] at hread ⊢
  cases hlocate : locate family typeName (family key).tags index bound.field bound.field.tag
      path e with
  | error error =>
      simp only [hlocate] at hread
      contradiction
  | ok found =>
      cases found with
      | none =>
          simp only [hlocate] at hread
          by_cases hrequired : bound.field.tag.required = true
          · simp only [hrequired] at hread
            contradiction
          · refine Or.inl ⟨rfl, ?_⟩
            simp only [hrequired]
            rfl
      | some located =>
          simp only [hlocate, Traced.outcome_map, map_eq_ok] at hread
          obtain ⟨value, htake, _⟩ := hread
          exact Or.inr ⟨located, value, rfl, htake, Traced.log_map _ _⟩

/-- Where no children are read, nothing is noted. -/
theorem log_take_of_childName? (located : Located κ) (hfits : bound.accessor.Fits bound.field.kind)
    (hname : bound.field.tag.childName? = none) :
    (take typeName bound.field.tag path bound.accessor located
      fun child _ key path => readElement family key path child).log = [] := by
  have hkind : bound.field.kind = .value ∨ bound.field.kind = .overflow := by
    cases hkind : bound.field.kind <;> cases hwrapper : bound.field.wrapper.isSome <;>
      simp_all [Tag.childName?, FieldDecl.tag, FieldDecl.placement]
  rcases hkind with hkind | hkind
  · rcases hfits.value_or_raw hkind with ⟨type, haccessor⟩ | haccessor
    · rw [haccessor]
      cases located <;> rfl
    · rw [haccessor]
      cases located <;> rfl
  · rw [hfits.eq_overflow hkind]
    cases located <;> rfl

omit [DecidableEq κ] in
theorem childrenNamed_of_singleChild {name : String} {ns : Option String} {child : Element}
    (hsingle : singleChild path e name ns = .ok (some child)) :
    e.childrenNamed name ns = [child] := by
  rw [singleChild] at hsingle
  split at hsingle
  · cases hsingle
  · rename_i only honly
    rw [honly, Option.some.inj (Except.ok.inj hsingle)]
  · contradiction

section Slots

variable {located : Located κ} {value : FieldValue κ}

/-- What is noted while a child is taken is noted inside it. -/
theorem filter_log_take_element (hplace : bound.field.placement = .childElement)
    (hfits : bound.accessor.Fits bound.field.kind)
    (hvisits : NotesVisits family bound.field.kind.types e)
    (hlocate : locate family typeName (family key).tags index bound.field bound.field.tag path e =
      .ok (some located))
    (htake : (take typeName bound.field.tag path bound.accessor located
      fun child _ key path => readElement family key path child).outcome = .ok value) :
    (take typeName bound.field.tag path bound.accessor located
      fun child _ key path => readElement family key path child).log.filter Event.isIgnored =
      notedBelow family key index bound.field path e := by
  obtain ⟨type, hkind⟩ := element_of_placement hplace
  have haccessor : bound.accessor = .element type := hfits.eq_element hkind
  have hrest : bound.field.takesRest = false := by simp [FieldDecl.takesRest, hkind]
  have hname : bound.field.tag.childName? = some bound.field.tag.name := by
    simp [Tag.childName?, FieldDecl.tag, hplace]
  rw [locate_of_element hplace] at hlocate
  obtain ⟨found, hsingle, hsome⟩ := map_eq_ok.mp hlocate
  obtain ⟨child, rfl, rfl⟩ := Option.map_eq_some_iff.mp hsome
  rw [haccessor] at htake ⊢
  simp only [take, Traced.outcome_bind, Traced.outcome_pure, bind_eq_ok] at htake ⊢
  obtain ⟨record, hrecord, _⟩ := htake
  rw [Traced.log_bind_of_ok hrecord, Traced.log_pure, List.append_nil, notedBelow,
    filter_considers hrest hname, childrenNamed_of_singleChild hsingle]
  simp only [told, List.filterMap_cons, roleOf?_of_element hkind, Option.map_some,
    List.filterMap_nil, List.flatMap_singleton]
  exact hvisits type (by simp [hkind, FieldKind.types]) child _ record
    (Element.sizeOf_child_lt (mem_of_singleChild_eq_ok hsingle).1) hrecord

/-- What is noted while a wrapped list is taken is noted inside the items of its wrapper. -/
theorem filter_log_take_wrapped (hplace : bound.field.placement = .wrappedList)
    (hfits : bound.accessor.Fits bound.field.kind)
    (hvisits : NotesVisits family bound.field.kind.types e)
    (hlocate : locate family typeName (family key).tags index bound.field bound.field.tag path e =
      .ok (some located))
    (htake : (take typeName bound.field.tag path bound.accessor located
      fun child _ key path => readElement family key path child).outcome = .ok value) :
    (take typeName bound.field.tag path bound.accessor located
      fun child _ key path => readElement family key path child).log.filter Event.isIgnored =
      notedBelow family key index bound.field path e := by
  have hlist := (list_of_wrapped hplace).1
  have hrest := takesRest_of_wrapped hplace
  have hname : bound.field.tag.childName? = some bound.field.tag.wrapperName := by
    simp [Tag.childName?, FieldDecl.tag, hplace, Tag.wrapperName]
  rw [locate_of_wrapped hplace] at hlocate
  obtain ⟨found, hsingle, hlocate⟩ := bind_eq_ok.mp hlocate
  cases found with
  | none => exact absurd (Except.ok.inj hlocate) (by simp)
  | some wrapper =>
      obtain ⟨_, hitems, hsome⟩ := map_eq_ok.mp hlocate
      obtain rfl := Option.some.inj hsome
      have hwrapper := Element.sizeOf_child_lt (mem_of_singleChild_eq_ok hsingle).1
      have hnotes := log_take_items hfits hlist hitems htake
      rw [candidates_of_wrapped] at hnotes
      rw [notedBelow, filter_considers hrest hname, childrenNamed_of_singleChild hsingle]
      simp only [told, List.filterMap_cons, roleOf?_of_wrapped hplace, Option.map_some,
        List.filterMap_nil, List.flatMap_singleton]
      rw [notedIn_wrapper]
      apply hnotes.filter_log hvisits
      · exact fun item hitem => mem_types_of_memberType? (mem_told_iff.mp hitem).2
      · intro item hitem
        have hchild := List.mem_filter.mp (mem_told_iff.mp hitem).1
        exact Nat.lt_trans (Element.sizeOf_child_lt hchild.1) hwrapper

/-- What is noted while a list among the children is taken is noted inside its items. -/
theorem filter_log_take_unwrapped (hplace : bound.field.placement = .unwrappedList)
    (hfits : bound.accessor.Fits bound.field.kind)
    (hvisits : NotesVisits family bound.field.kind.types e)
    (hlocate : locate family typeName (family key).tags index bound.field bound.field.tag path e =
      .ok (some located))
    (htake : (take typeName bound.field.tag path bound.accessor located
      fun child _ key path => readElement family key path child).outcome = .ok value) :
    (take typeName bound.field.tag path bound.accessor located
      fun child _ key path => readElement family key path child).log.filter Event.isIgnored =
      notedBelow family key index bound.field path e := by
  rw [locate_of_unwrapped hplace] at hlocate
  obtain ⟨found, hitems, hsome⟩ := map_eq_ok.mp hlocate
  split at hsome
  · contradiction
  obtain rfl := Option.some.inj hsome
  have hnotes := log_take_items hfits (list_of_unwrapped hplace).1 hitems htake
  rw [candidates_of_unwrapped hplace] at hnotes
  have htell : roleOf? family bound.field e.ns =
      fun child => (memberType? family bound.field e.ns child).map .value := by
    funext child
    exact roleOf?_of_unwrapped hplace e.ns child
  rw [notedBelow, htell, told_map, List.flatMap_map]
  apply hnotes.filter_log hvisits
  · exact fun item hitem => mem_types_of_memberType? (mem_told_iff.mp hitem).2
  · intro item hitem
    exact Element.sizeOf_child_lt (List.mem_filter.mp (mem_told_iff.mp hitem).1).1

end Slots

/-- While a field is read, what is noted of ignored parts is noted inside the children that
it reads, if that is so of each of them. -/
theorem filter_log_readSlot {slot : Option (FieldValue κ)}
    (hfits : bound.accessor.Fits bound.field.kind)
    (hvisits : NotesVisits family bound.field.kind.types e)
    (hread : (readSlot family typeName (family key).tags path e
      ((bound, bound.field.tag), index)).outcome = .ok slot) :
    (readSlot family typeName (family key).tags path e
        ((bound, bound.field.tag), index)).log.filter Event.isIgnored =
      notedBelow family key index bound.field path e := by
  -- an absent field notes nothing of the kind, and has no children to read
  rcases log_readSlot_cases hread with ⟨hlocate, hlog⟩ | ⟨located, value, hlocate, htake, hlog⟩
  · have hnothing : told (roleOf? family bound.field e.ns)
        (e.children.filter (considers family key index bound.field e.ns)) = [] := by
      apply List.eq_nil_iff_forall_not_mem.mpr
      rintro ⟨role, child⟩ hitem
      obtain ⟨hchild, hrole⟩ := mem_told_iff.mp hitem
      obtain ⟨hchild, hconsiders⟩ := List.mem_filter.mp hchild
      exact not_takes_of_locate hlocate (takes_of_considers hchild hconsiders hrole)
    rw [hlog, notedBelow, hnothing]
    rfl
  · rw [hlog]
    cases hplace : bound.field.placement with
    | childElement => exact filter_log_take_element hplace hfits hvisits hlocate htake
    | wrappedList => exact filter_log_take_wrapped hplace hfits hvisits hlocate htake
    | unwrappedList => exact filter_log_take_unwrapped hplace hfits hvisits hlocate htake
    | attr | text | overflow =>
        have hname : bound.field.tag.childName? = none := by
          simp [Tag.childName?, FieldDecl.tag, hplace]
        have hnone : e.children.filter (considers family key index bound.field e.ns) = [] :=
          List.filter_eq_nil_iff.mpr fun child _ => by simp [not_considers hname]
        rw [log_take_of_childName? located hfits hname, notedBelow, hnone]
        rfl

omit [DecidableEq κ] in
/-- Whatever is noted at a visit is said of an ignored part. -/
theorem filter_noted (visit : Visit κ) :
    (visit.noted family).filter Event.isIgnored = visit.noted family := by
  rw [List.filter_eq_self]
  intro event hevent
  rw [Visit.noted, List.mem_append] at hevent
  rcases hevent with hattribute | hchild
  · rw [Visit.attributeEvents] at hattribute
    split at hattribute
    · obtain ⟨attr, _, rfl⟩ := List.mem_map.mp hattribute
      rfl
    · contradiction
  · split at hchild
    · contradiction
    · obtain ⟨child, _, rfl⟩ := List.mem_map.mp hchild
      rfl

/-- An element that is read notes what its fields note in turn, and then what is left over. -/
theorem log_readElement (htags : (family key).descriptor.tags = .ok (family key).tags)
    {record : Record κ} (hread : (readElement family key path e).outcome = .ok record) :
    (readElement family key path e).log =
      ((family key).fields.zipIdx.flatMap fun item =>
        (readSlot family (family key).name (family key).tags path e
          ((item.1, item.1.field.tag), item.2)).log) ++
        ignored (family key).descriptor (family key).tags path e ∧
      ∀ item ∈ (family key).fields.zipIdx, ∃ slot,
        (readSlot family (family key).name (family key).tags path e
          ((item.1, item.1.field.tag), item.2)).outcome = .ok slot := by
  have hfields : ((family key).fields.zip (family key).tags).zipIdx =
      (family key).fields.zipIdx.map fun item => ((item.1, item.1.field.tag), item.2) := by
    rw [BoundType.tags, zip_tags, List.zipIdx_map]
    rfl
  have hlift : (Traced.lift ((family key).descriptor.tags.mapError Error.schema)).outcome =
      .ok (family key).tags := by
    rw [htags]
    rfl
  rw [readElement_eq] at hread ⊢
  rw [Traced.outcome_bind, hlift, ok_bind, Traced.outcome_bind] at hread
  obtain ⟨slots, hslots, _⟩ := bind_eq_ok.mp hread
  rw [Traced.log_bind_of_ok hlift, Traced.log_bind_of_ok hslots, Traced.log_mapM_of_ok hslots,
    hfields, List.flatMap_map]
  rw [hfields] at hslots
  refine ⟨?_, fun item hitem => ?_⟩
  · rw [Traced.log_bind_of_ok rfl]
    simp
  · obtain ⟨slot, _, hslot⟩ := exists_of_forall₂ (Traced.outcome_mapM_eq_ok_iff.mp hslots)
      (List.mem_map_of_mem hitem)
    exact ⟨slot, hslot⟩

/-- What is noted of ignored parts while an element is read successfully is noted at the
visits that the reading consists of, in their order.  The recursion follows the reading. -/
theorem filter_log_readElement {key : κ} {path : String} {e : Element} {record : Record κ}
    (hfamily : IsBound family key)
    (hread : (readElement family key path e).outcome = .ok record) :
    (readElement family key path e).log.filter Event.isIgnored =
      notedIn family (.value key) path e := by
  obtain ⟨slots, htags, _, _⟩ := exists_slots_of_readElement hfamily hread
  obtain ⟨hlog, hslots⟩ := log_readElement htags hread
  rw [hlog, List.filter_append, List.filter_flatMap, ignored_eq, filter_noted, notedIn_eq, given,
    List.flatMap_assoc]
  congr 1
  apply List.flatMap_congr
  intro item hitem
  have hbound := List.fst_mem_of_mem_zipIdx hitem
  obtain ⟨slot, hslot⟩ := hslots item hitem
  refine filter_log_readSlot (hfamily.here item.1 hbound) ?_ hslot
  intro type htype child inner record hlt hchild
  exact filter_log_readElement (hfamily.inside hbound htype) hchild
termination_by sizeOf e

end Log

theorem Visit.noted_sublist (family : Family κ) (visit : Visit κ) :
    (visit.noted family).Sublist (visit.dropped family) := by
  rw [Visit.noted, Visit.dropped]
  apply List.Sublist.append_left
  split
  · exact List.nil_sublist _
  · exact List.Sublist.refl _

/-- All that is left over at a visit is noted unless some children are passed over in
silence. -/
theorem Visit.noted_eq_dropped_iff (family : Family κ) (visit : Visit κ) :
    visit.noted family = visit.dropped family ↔
      (visit.isSilent family = true →
        unreceivedChildren family visit.role visit.element = []) := by
  rw [Visit.noted, Visit.dropped, List.append_cancel_left_eq, Visit.childEvents]
  by_cases hsilent : visit.isSilent family = true
  · rw [if_pos hsilent, eq_comm, List.map_eq_nil_iff]
    simp [hsilent]
  · simp [hsilent]

/-- What is noted over all visits is all that is left over exactly when no children are passed
over in silence. -/
theorem perm_dropped_iff {family : Family κ} {all : List (Visit κ)} :
    (all.flatMap (Visit.noted family)).Perm (all.flatMap (Visit.dropped family)) ↔
      ∀ visit ∈ all, visit.isSilent family = true →
        unreceivedChildren family visit.role visit.element = [] := by
  simp only [← Visit.noted_eq_dropped_iff]
  constructor
  · intro hperm visit hvisit
    have hlength := length_eq_of_flatMap
      (fun visit => (Visit.noted_sublist family visit).length_le) hperm.length_eq visit hvisit
    exact (Visit.noted_sublist family visit).eq_of_length hlength
  · intro hall
    rw [List.flatMap_congr hall]

/-- Nothing is noted of what a field receives, and of what none receives, visit by visit, all
attributes are, and the children unless the visit is of a wrapper or of a type with a list of
variants.  So everything that is left over is noted, once at each visit, exactly when at these
visits no child is left over. -/
theorem ignored_of_readRoot [DecidableEq κ] {family : Family κ} {key : κ} {e : Element}
    {record : Record κ} (hfamily : IsBound family key)
    (hread : (readRoot family key e).outcome = .ok record) :
    (readRoot family key e).log.filter Event.isIgnored =
      (visits family (.value key) ("/" ++ e.name) e).flatMap (Visit.noted family) ∧
    (((readRoot family key e).log.filter Event.isIgnored).Perm
        ((visits family (.value key) ("/" ++ e.name) e).flatMap (Visit.dropped family)) ↔
      ∀ visit ∈ visits family (.value key) ("/" ++ e.name) e, visit.isSilent family = true →
        unreceivedChildren family visit.role visit.element = []) := by
  have hlog : (readRoot family key e).log.filter Event.isIgnored =
      (visits family (.value key) ("/" ++ e.name) e).flatMap (Visit.noted family) :=
    filter_log_readElement hfamily hread
  refine ⟨hlog, ?_⟩
  rw [hlog]
  exact perm_dropped_iff

/-- A section with an attribute and a child that are not received, both inside and around the
section in it. -/
def remarkedSection : Element :=
  sectionOf [⟨"label", none, "1"⟩]
    [Element.empty "note" none,
      innerOf [sectionOf [⟨"label", none, "2"⟩] [Element.empty "remark" none]]]

theorem ignored_of_readRoot_remarked :
    IsBound sections () ∧
    (∃ record, (readRoot sections () remarkedSection).outcome = .ok record) ∧
    (readRoot sections () remarkedSection).log.filter Event.isIgnored =
      [.ignoredElement "remark" "/section/inner/section", .ignoredElement "note" "/section"] := by
  have hany : (readRoot sections () remarkedSection).outcome.toOption.any (fun _ => true) =
      true := by decide +kernel
  obtain ⟨record, hread, _⟩ := exists_ok_of_any hany
  refine ⟨wellBound_sections.isBound, ⟨record, hread⟩, ?_⟩
  rw [(ignored_of_readRoot wellBound_sections.isBound hread).1]
  decide +kernel

/-- The parts of a text, which may have parts themselves. -/
def parts : Family Unit := fun _ =>
  ⟨"part", .unqualified,
    [.variants [()] ((FieldDecl.variants "parts" [()]).wrapped "parts").optional], []⟩

/-- A part with an unknown child beside the wrapper of the parts in it. -/
def remarkedPart : Element :=
  { Element.empty "part" none with
    children := [Element.empty "parts" none, Element.empty "note" none] }

/-- A section with an unknown child in the wrapper of the sections in it. -/
def remarkedInner : Element :=
  sectionOf [⟨"label", none, "1"⟩] [innerOf [Element.empty "note" none]]

theorem wellBound_parts : WellBound parts () := by
  intro type _
  have hfaithful : ∀ bound ∈ (parts ()).fields, bound.Faithful := by decide
  exact ⟨rfl, fun bound hbound => (hfaithful bound hbound).fits⟩

/-- What is left over need not be noted: an unknown child beside the wrapper of a list of
variants, and one in the wrapper of another list, are passed over in silence. -/
theorem not_perm_dropped_remarked :
    WellBound parts () ∧ WellBound sections () ∧
    (∃ record, (readRoot parts () remarkedPart).outcome = .ok record) ∧
    ¬((readRoot parts () remarkedPart).log.filter Event.isIgnored).Perm
      ((visits parts (.value ()) "/part" remarkedPart).flatMap (Visit.dropped parts)) ∧
    (∃ record, (readRoot sections () remarkedInner).outcome = .ok record) ∧
    ¬((readRoot sections () remarkedInner).log.filter Event.isIgnored).Perm
      ((visits sections (.value ()) "/section" remarkedInner).flatMap
        (Visit.dropped sections)) := by
  have hpart : (readRoot parts () remarkedPart).outcome.toOption.any (fun _ => true) = true := by
    decide +kernel
  have hinner : (readRoot sections () remarkedInner).outcome.toOption.any (fun _ => true) =
      true := by decide +kernel
  obtain ⟨part, hpart, _⟩ := exists_ok_of_any hpart
  obtain ⟨inner, hinner, _⟩ := exists_ok_of_any hinner
  exact ⟨wellBound_parts, wellBound_sections, ⟨part, hpart⟩, by decide +kernel, ⟨inner, hinner⟩,
    by decide +kernel⟩

end Binding

end Epub
