/-
Lists of variants among the children of an element.  Where the names of all children are
apart, such a list receives the children of its own variants, and no child that belongs to a
field is unknown to it, exactly when no child has the wrong name: a list knows the children of
another list by the name of the items of that list, and by nothing else.
-/
import Epub.Proofs.Binding.Roles

namespace Epub.Binding

open Epub.Schema Epub.Xml

variable {κ : Type}

section Definitions

variable (family : Family κ) (key : κ)

/-- Whether the field at `index` of the type is a list of these variants among the children. -/
structure IsVariantList (index : Nat) (bound : BoundField κ) (types : List κ) : Prop where
  field : (family key).fields[index]? = some bound
  kind : bound.field.kind = .variants types
  place : bound.field.placement = .unwrappedList

/-- The children of an element that are one of the variants, with their types. -/
def ownVariants (types : List κ) (e : Element) : List (κ × Element) :=
  e.children.filterMap fun child =>
    (types.find? fun type => (family type).descriptor.isVariant e.ns child).map fun type =>
      (type, child)

/-- Whether each list of variants finds the children of its own variants, in the order of the
document, or nothing if there are none. -/
def ReceivesOwn (path : String) (e : Element) : Prop :=
  ∀ index bound types, IsVariantList family key index bound types →
    locate family (family key).name (family key).tags index bound.field bound.field.tag path e =
      .ok (if (ownVariants family types e).isEmpty then none
        else some (.variants path (ownVariants family types e)))

/-- Whether a child has the name that a list of variants other than the one at `index` gives
to its items. -/
def BearsOtherName (index : Nat) (e child : Element) : Prop :=
  ∃ other bound types, other ≠ index ∧ IsVariantList family key other bound types ∧
    child.Named bound.field.tag.itemName (bound.field.rule.effective e.ns)

/-- Whether a child is kept from a list that it belongs to, or left to one that it does not
belong to, by the names of other lists. -/
inductive Misnamed (e child : Element) : Prop where
  | withheld {index : Nat} {bound : BoundField κ} {types : List κ}
      (hlist : IsVariantList family key index bound types)
      (hown : elementKey child ∈ childKeys family bound.field e.ns)
      (hother : BearsOtherName family key index e child) : Misnamed e child
  | exposed {index other : Nat} {bound owner : BoundField κ} {types types' : List κ}
      (hlist : IsVariantList family key index bound types)
      (howner : IsVariantList family key other owner types') (hapart : other ≠ index)
      (hown : elementKey child ∈ childKeys family owner.field e.ns)
      (hother : ¬BearsOtherName family key index e child) : Misnamed e child

end Definitions

section Own

variable {family : Family κ} {key : κ} {index : Nat} {bound : BoundField κ} {types : List κ}
  {e child : Element} {path : String}

theorem isVariant_iff {type : κ} {parent : Option String} :
    (family type).descriptor.isVariant parent child = true ↔
      elementKey child = ⟨(family type).name, (family type).rule.effective parent⟩ := by
  rw [Descriptor.isVariant, decide_eq_true_eq, ← named_iff_elementKey]
  rfl

/-- The keys of a list of variants are the names of the variants. -/
theorem IsVariantList.mem_childKeys_iff (hlist : IsVariantList family key index bound types)
    (parent : Option String) :
    elementKey child ∈ childKeys family bound.field parent ↔
      ∃ type ∈ types, (family type).descriptor.isVariant parent child = true := by
  simp only [childKeys, hlist.place, memberKeys, hlist.kind, FieldKind.types,
    memberName_of_unwrapped hlist.place, List.mem_map, itemNaming, ItemName.key]
  refine exists_congr fun type => and_congr_right fun _ => ?_
  rw [isVariant_iff, eq_comm]

theorem IsVariantList.find?_isSome_iff (hlist : IsVariantList family key index bound types)
    (parent : Option String) :
    (types.find? fun type => (family type).descriptor.isVariant parent child).isSome = true ↔
      elementKey child ∈ childKeys family bound.field parent := by
  rw [hlist.mem_childKeys_iff, List.find?_isSome]

theorem map_snd_ownVariants (family : Family κ) (types : List κ) (e : Element) :
    (ownVariants family types e).map Prod.snd = e.children.filter fun child =>
      (types.find? fun type => (family type).descriptor.isVariant e.ns child).isSome := by
  rw [ownVariants]
  induction e.children with
  | nil => rfl
  | cons child rest ih =>
      cases hfound : types.find? fun type => (family type).descriptor.isVariant e.ns child with
      | none => simp [hfound, ih]
      | some type => simp [hfound, ih]

/-- Children that are all variants are told. -/
theorem variantsOf_own (family : Family κ) (types : List κ) (path : String) (e : Element) :
    variantsOf family types path e.ns (e.children.filter fun child =>
      (types.find? fun type => (family type).descriptor.isVariant e.ns child).isSome) =
      .ok (ownVariants family types e) := by
  rw [ownVariants]
  induction e.children with
  | nil => rfl
  | cons child rest ih =>
      cases hfound : types.find? fun type => (family type).descriptor.isVariant e.ns child with
      | none => simpa [hfound] using ih
      | some type =>
          rw [List.filter_cons_of_pos (by simp [hfound]), variantsOf_cons, hfound, ih,
            List.filterMap_cons_some (by rw [hfound]; rfl)]
          rfl

/-- A list receives its own when its own are the children that no other field claims. -/
theorem IsVariantList.locate_eq_own_iff (hlist : IsVariantList family key index bound types) :
    locate family (family key).name (family key).tags index bound.field bound.field.tag path e =
        .ok (if (ownVariants family types e).isEmpty then none
          else some (.variants path (ownVariants family types e))) ↔
      ∀ child ∈ e.children, elementKey child ∈ childKeys family bound.field e.ns ↔
        claimedByOther (family key).tags (some index) e.ns child = false := by
  rw [locate_of_unwrapped hlist.place, itemsUnder_variants hlist.kind rfl]
  constructor
  · intro hlocate
    obtain ⟨located, hitems, hsome⟩ := map_eq_ok.mp hlocate
    obtain ⟨found, hfound, rfl⟩ := map_eq_ok.mp hitems
    -- what is found is what the list has to receive
    have hown : found = ownVariants family types e := by
      generalize ownVariants family types e = own at hsome ⊢
      cases found with
      | nil => cases own <;> simp_all [Located.isEmpty]
      | cons pair rest => cases own <;> simp_all [Located.isEmpty]
    intro child hchild
    have hcandidates := snd_of_variantsOf hfound
    rw [hown, map_snd_ownVariants] at hcandidates
    have hmem := congrArg (child ∈ ·) hcandidates
    simp only [List.mem_filter, hchild, true_and, eq_iff_iff, hlist.find?_isSome_iff,
      Bool.not_eq_true'] at hmem
    exact hmem
  · intro hall
    have hcandidates : (e.children.filter fun child =>
        !claimedByOther (family key).tags (some index) e.ns child) =
        e.children.filter fun child =>
          (types.find? fun type => (family type).descriptor.isVariant e.ns child).isSome := by
      apply List.filter_congr
      intro child hchild
      rw [Bool.eq_iff_iff, hlist.find?_isSome_iff, hall child hchild, Bool.not_eq_true']
    rw [hcandidates, variantsOf_own]
    rfl

end Own

section Names

variable {family : Family κ} {key : κ} {index : Nat} {bound : BoundField κ} {types : List κ}
  {e child : Element} {path : String}

/-- Where all keys are apart, a child belongs to one field. -/
theorem index_eq_of_mem_childKeys {ns : Option String}
    (hkeys : ((family key).fields.flatMap fun bound => childKeys family bound.field ns).Nodup)
    {other : Nat} {owner : BoundField κ} (hbound : (family key).fields[index]? = some bound)
    (howner : (family key).fields[other]? = some owner)
    (hchild : elementKey child ∈ childKeys family bound.field ns)
    (hother : elementKey child ∈ childKeys family owner.field ns) : index = other := by
  have hapart := List.pairwise_iff_getElem.mp (List.nodup_flatMap.mp hkeys).2
  obtain ⟨hlt, rfl⟩ := List.getElem?_eq_some_iff.mp hbound
  obtain ⟨hlt', rfl⟩ := List.getElem?_eq_some_iff.mp howner
  rcases Nat.lt_trichotomy index other with hless | heq | hmore
  · exact absurd hother (hapart index other hlt hlt' hless hchild)
  · exact heq
  · exact absurd hchild (hapart other index hlt' hlt hmore hother)

theorem claimedByOther_iff {ns : Option String} :
    claimedByOther (family key).tags (some index) ns child = true ↔
      ∃ other owner, other ≠ index ∧ (family key).fields[other]? = some owner ∧
        owner.field.tag.claims ns child = true := by
  simp only [claimedByOther, List.any_eq_true, Prod.exists, List.mem_zipIdx_iff_getElem?,
    BoundType.tags, List.getElem?_map, Option.map_eq_some_iff, Bool.and_eq_true,
    decide_eq_true_eq, ne_eq, Option.some.injEq]
  constructor
  · rintro ⟨tag, other, ⟨owner, howner, rfl⟩, hapart, hclaims⟩
    exact ⟨other, owner, hapart, howner, hclaims⟩
  · rintro ⟨other, owner, hapart, howner, hclaims⟩
    exact ⟨owner.field.tag, other, ⟨owner, howner, rfl⟩, hapart, hclaims⟩

/-- A field that takes the rest is a list of variants. -/
theorem exists_isVariantList (hbound : (family key).fields[index]? = some bound)
    (hrest : bound.field.takesRest = true) :
    ∃ types, IsVariantList family key index bound types := by
  cases hkind : bound.field.kind with
  | variants types =>
      have hwrapper : bound.field.wrapper.isSome = false := by
        simpa [FieldDecl.takesRest, hkind] using hrest
      exact ⟨types, hbound, hkind, by simp [FieldDecl.placement, hkind, hwrapper]⟩
  | value => simp [FieldDecl.takesRest, hkind] at hrest
  | element type => simp [FieldDecl.takesRest, hkind] at hrest
  | list type => simp [FieldDecl.takesRest, hkind] at hrest
  | overflow => simp [FieldDecl.takesRest, hkind] at hrest

theorem IsVariantList.claims_iff (hlist : IsVariantList family key index bound types)
    {ns : Option String} :
    bound.field.tag.claims ns child = true ↔
      child.Named bound.field.tag.itemName (bound.field.rule.effective ns) := by
  simp only [Tag.claims, Tag.childName?, FieldDecl.tag, hlist.place, Option.any_some,
    decide_eq_true_eq]

/-- Another list of variants claims the children of the name that it gives to its items. -/
theorem BearsOtherName.claimedByOther (hother : BearsOtherName family key index e child) :
    claimedByOther (family key).tags (some index) e.ns child = true := by
  obtain ⟨other, owner, types, hapart, hlist, hnamed⟩ := hother
  exact claimedByOther_iff.mpr ⟨other, owner, hapart, hlist.field, hlist.claims_iff.mpr hnamed⟩

/-- A child that belongs to a field is claimed by that field, unless it is a list of variants,
and by the lists of variants whose items have its name. -/
theorem claimedByOther_iff_of_owner
    (hkeys : ((family key).fields.flatMap fun bound => childKeys family bound.field e.ns).Nodup)
    {other : Nat} {owner : BoundField κ} (howner : (family key).fields[other]? = some owner)
    (hown : elementKey child ∈ childKeys family owner.field e.ns) :
    claimedByOther (family key).tags (some index) e.ns child = true ↔
      (other ≠ index ∧ owner.field.takesRest = false) ∨
        BearsOtherName family key index e child := by
  constructor
  · intro hclaimed
    obtain ⟨claimer, field, hapart, hfield, hclaims⟩ := claimedByOther_iff.mp hclaimed
    by_cases hrest : field.field.takesRest = true
    · obtain ⟨types, hlist⟩ := exists_isVariantList hfield hrest
      exact Or.inr ⟨claimer, field, types, hapart, hlist, hlist.claims_iff.mp hclaims⟩
    · have hrest : field.field.takesRest = false := Bool.eq_false_iff.mpr hrest
      have hsame := index_eq_of_mem_childKeys hkeys howner hfield hown
        ((claims_iff hrest child).mp hclaims)
      subst hsame
      rw [howner, Option.some.injEq] at hfield
      subst hfield
      exact Or.inl ⟨hapart, hrest⟩
  · rintro (⟨hapart, hrest⟩ | hother)
    · exact claimedByOther_iff.mpr ⟨other, owner, hapart, howner, (claims_iff hrest child).mpr hown⟩
    · exact hother.claimedByOther

/-- A child that is not misnamed is left to the list that it belongs to, and to no other. -/
theorem own_iff_of_not_misnamed
    (hkeys : ((family key).fields.flatMap fun bound => childKeys family bound.field e.ns).Nodup)
    (hlist : IsVariantList family key index bound types) {owner : BoundField κ}
    (howner : owner ∈ (family key).fields)
    (hown : elementKey child ∈ childKeys family owner.field e.ns)
    (hnamed : ¬Misnamed family key e child) :
    elementKey child ∈ childKeys family bound.field e.ns ↔
      claimedByOther (family key).tags (some index) e.ns child = false := by
  obtain ⟨other, howner⟩ := List.mem_iff_getElem?.mp howner
  rw [← Bool.not_eq_true, claimedByOther_iff_of_owner hkeys howner hown]
  by_cases hsame : other = index
  · subst hsame
    have hbound := hlist.field
    rw [howner, Option.some.injEq] at hbound
    subst hbound
    have hother : ¬BearsOtherName family key other e child :=
      fun hother => hnamed (.withheld hlist hown hother)
    simp [hown, hother]
  · have hnot : elementKey child ∉ childKeys family bound.field e.ns :=
      fun hmem => hsame (index_eq_of_mem_childKeys hkeys howner hlist.field hown hmem)
    by_cases hrest : owner.field.takesRest = true
    · obtain ⟨types', howner'⟩ := exists_isVariantList howner hrest
      have hother : BearsOtherName family key index e child :=
        by_contra fun hother => hnamed (.exposed hlist howner' hsame hown hother)
      simp [hnot, hother]
    · simp [hnot, hsame, hrest]

/-- Lists receive their own where no child is misnamed. -/
theorem receivesOwn_iff
    (hkeys : ((family key).fields.flatMap fun bound => childKeys family bound.field e.ns).Nodup)
    (hknown : ∀ child ∈ e.children, ∃ owner ∈ (family key).fields,
      elementKey child ∈ childKeys family owner.field e.ns) :
    ReceivesOwn family key path e ↔ ∀ child ∈ e.children, ¬Misnamed family key e child := by
  constructor
  · intro hreceives child hchild hmisnamed
    have hlocated : ∀ {index bound types}, IsVariantList family key index bound types →
        (elementKey child ∈ childKeys family bound.field e.ns ↔
          claimedByOther (family key).tags (some index) e.ns child = false) :=
      fun hlist => hlist.locate_eq_own_iff.mp (hreceives _ _ _ hlist) child hchild
    cases hmisnamed with
    | withheld hlist hown hother =>
        have hclaimed := (hlocated hlist).mp hown
        exact Bool.false_ne_true (hclaimed.symm.trans hother.claimedByOther)
    | exposed hlist howner hapart hown hother =>
        have hnot := fun hmem =>
          hapart (index_eq_of_mem_childKeys hkeys howner.field hlist.field hown hmem)
        have hclaimed := Bool.not_eq_false _ ▸ mt (hlocated hlist).mpr hnot
        rcases (claimedByOther_iff_of_owner hkeys howner.field hown).mp hclaimed with
          ⟨_, hrest⟩ | hbears
        · rw [takesRest_of_unwrapped howner.place howner.kind] at hrest
          contradiction
        · exact hother hbears
  · intro hall index bound types hlist
    rw [hlist.locate_eq_own_iff]
    intro child hchild
    obtain ⟨owner, howner, hown⟩ := hknown child hchild
    exact own_iff_of_not_misnamed hkeys hlist howner hown (hall child hchild)

end Names

section Unknown

variable [DecidableEq κ] {family : Family κ} {key : κ} {e : Element} {path : String}

omit [DecidableEq κ] in
theorem length_foldl_childPath (trail : List Element) (path : String) :
    path.length + trail.length ≤ (trail.foldl childPath path).length := by
  induction trail generalizing path with
  | nil => simp
  | cons child rest ih =>
      have hrest := ih (childPath path child)
      have hslash : "/".length = 1 := by decide
      simp only [childPath, String.length_append, List.foldl_cons, List.length_cons] at hrest ⊢
      omega

/-- An error that names the path of the element itself is true of the element. -/
theorem explains_of_readElement (hfamily : WellBound family key) {fault : DecodeFault}
    (hread : (readElement family key path e).outcome = .error (.decode fault))
    (hpath : fault.path = path) : Explains family (.value key) e fault := by
  obtain ⟨_, trail, role, last, hfault, htrail, hleads, hexplains⟩ :=
    (blames_of_readElement hfamily hread).exists_trail
  cases hfault
  have hlength := length_foldl_childPath trail path
  rw [← htrail, hpath] at hlength
  have hnil : trail = [] := List.eq_nil_of_length_eq_zero (by omega)
  subst hnil
  cases hleads
  exact hexplains

/-- Where each list receives its own, no child is unknown. -/
theorem ReceivesOwn.ne_unknownVariant (hreceives : ReceivesOwn family key path e)
    (hfamily : WellBound family key) (name : String) :
    (readElement family key path e).outcome ≠ .error (.decode (.unknownVariant name path)) := by
  intro hread
  cases explains_of_readElement hfamily hread rfl with
  | unknownVariant _ hbound hplace hkind hchild hfree hnone =>
      have hlist : IsVariantList family key _ _ _ := ⟨hbound, hkind, hplace⟩
      have hown := (hlist.locate_eq_own_iff.mp (hreceives _ _ _ hlist) _ hchild).mpr hfree
      obtain ⟨type, htype, hvariant⟩ := (hlist.mem_childKeys_iff e.ns).mp hown
      rw [hnone type htype] at hvariant
      contradiction

end Unknown

/-- Of an element all of whose children belong to a field, and to one only, each list of
variants receives the children of its own variants, in order, exactly when no child is
misnamed; then none of the children is refused as unknown.  With no more than one list of
variants that is always so. -/
theorem receivesOwn_of_known [DecidableEq κ] {family : Family κ} {key : κ} {e : Element}
    (hfamily : WellBound family key)
    (hkeys : ((family key).fields.flatMap fun bound => childKeys family bound.field e.ns).Nodup)
    (hknown : ∀ child ∈ e.children, ∃ owner ∈ (family key).fields,
      elementKey child ∈ childKeys family owner.field e.ns) (path : String) :
    (ReceivesOwn family key path e ↔ ∀ child ∈ e.children, ¬Misnamed family key e child) ∧
    (ReceivesOwn family key path e → ∀ name,
      (readElement family key path e).outcome ≠ .error (.decode (.unknownVariant name path))) ∧
    ((∀ index bound types index' bound' types', IsVariantList family key index bound types →
        IsVariantList family key index' bound' types' → index = index') →
      ReceivesOwn family key path e) := by
  have hiff : ReceivesOwn family key path e ↔
      ∀ child ∈ e.children, ¬Misnamed family key e child := receivesOwn_iff hkeys hknown
  refine ⟨hiff, fun hreceives => hreceives.ne_unknownVariant hfamily, fun hone => ?_⟩
  rw [hiff]
  rintro child _ (⟨hlist, _, other, _, _, hapart, hother, _⟩ | ⟨hlist, howner, hapart, _, _⟩)
  · exact hapart (hone _ _ _ _ _ _ hother hlist)
  · exact hapart (hone _ _ _ _ _ _ howner hlist)

/-- A book and the parts before and after its text. -/
inductive Matter where
  | book
  | preface
  | appendix
deriving DecidableEq

/-- The parts before the text of a book, where their list has this name for its items. -/
def frontMatter (itemsName : Option String) : BoundField Matter :=
  .variants [.preface] { (FieldDecl.variants "front" [Matter.preface]).optional with itemsName }

/-- The parts after it. -/
def backMatter : BoundField Matter :=
  .variants [.appendix] (FieldDecl.variants "back" [Matter.appendix]).optional

/-- Books with two lists of variants. -/
def books (itemsName : Option String) : Family Matter
  | .book => ⟨"book", .unqualified, [frontMatter itemsName, backMatter], []⟩
  | .preface => ⟨"preface", .unqualified, [], []⟩
  | .appendix => ⟨"appendix", .unqualified, [], []⟩

/-- A book with these children. -/
def bookOf (children : List Element) : Element :=
  { Element.empty "book" none with children }

theorem wellBound_books (itemsName : Option String) : WellBound (books itemsName) .book := by
  intro type _
  cases type with
  | book =>
      refine ⟨rfl, fun bound hbound => ?_⟩
      simp only [books, List.mem_cons, List.not_mem_nil, or_false] at hbound
      rcases hbound with rfl | rfl
      · exact BoundField.Faithful.fits rfl
      · exact BoundField.Faithful.fits rfl
  | preface => exact ⟨rfl, fun _ hbound => absurd hbound List.not_mem_nil⟩
  | appendix => exact ⟨rfl, fun _ hbound => absurd hbound List.not_mem_nil⟩

theorem isVariantList_books {itemsName : Option String} {index : Nat} {bound : BoundField Matter}
    {types : List Matter} (hlist : IsVariantList (books itemsName) .book index bound types) :
    (index = 0 ∧ bound = frontMatter itemsName) ∨ (index = 1 ∧ bound = backMatter) := by
  have hfield := hlist.field
  match index with
  | 0 => exact Or.inl ⟨rfl, (Option.some.inj hfield).symm⟩
  | 1 => exact Or.inr ⟨rfl, (Option.some.inj hfield).symm⟩
  | index + 2 => contradiction

/-- The parts of a book that has only parts before its text are not misnamed, if their list
is called as they are. -/
theorem not_misnamed_preface :
    ¬Misnamed (books (some "preface")) .book (bookOf [Element.empty "preface" none])
      (Element.empty "preface" none) := by
  have hback : elementKey (Element.empty "preface" none) ∉
      childKeys (books (some "preface")) backMatter.field none := by decide
  rintro (⟨hlist, hown, other, _, _, hapart, hother, hnamed⟩ | ⟨hlist, howner, hapart, hown, hnot⟩)
  · rcases isVariantList_books hlist with ⟨rfl, rfl⟩ | ⟨rfl, rfl⟩
    · rcases isVariantList_books hother with ⟨rfl, rfl⟩ | ⟨rfl, rfl⟩
      · exact hapart rfl
      · exact absurd hnamed (by decide)
    · exact hback hown
  · rcases isVariantList_books howner with ⟨rfl, rfl⟩ | ⟨rfl, rfl⟩
    · exact hnot ⟨0, _, _, hapart, howner, by decide⟩
    · exact hback hown

theorem receivesOwn_of_known_books :
    WellBound (books (some "preface")) .book ∧
    ReceivesOwn (books (some "preface")) .book "/book" (bookOf [Element.empty "preface" none]) ∧
    ∀ name, (readElement (books (some "preface")) .book "/book"
        (bookOf [Element.empty "preface" none])).outcome ≠
      .error (.decode (.unknownVariant name "/book")) := by
  have hreceives := receivesOwn_of_known (wellBound_books (some "preface"))
    (e := bookOf [Element.empty "preface" none]) (by decide) (by decide) "/book"
  have hown := hreceives.1.mpr fun child hchild => by
    rw [List.mem_singleton.mp hchild]
    exact not_misnamed_preface
  exact ⟨wellBound_books (some "preface"), hown, hreceives.2.1 hown⟩

/-- Two lists of variants do not know the children of each other: a book with a part before
and a part after its text is refused, although each of the two is in a list. -/
theorem unknownVariant_of_two_lists :
    WellBound (books none) .book ∧
    ((books none .book).fields.flatMap fun bound => childKeys (books none) bound.field none).Nodup ∧
    (∀ child ∈ [Element.empty "preface" none, Element.empty "appendix" none],
      ∃ owner ∈ (books none .book).fields,
        elementKey child ∈ childKeys (books none) owner.field none) ∧
    (readRoot (books none) .book
      (bookOf [Element.empty "preface" none, Element.empty "appendix" none])).outcome =
        .error (.decode (.unknownVariant "appendix" "/book")) :=
  ⟨wellBound_books none, by decide, by decide, by decide +kernel⟩

end Epub.Binding
