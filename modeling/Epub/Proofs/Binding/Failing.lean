/-
Errors of reading.  An element of a well-bound type that cannot be read is refused for
something that is true of an element inside it, and the error names the way there.
-/
import Epub.Proofs.Binding.RoundTrip
import Epub.Proofs.Binding.Taken
import Epub.Proofs.Binding.WellBound

namespace Epub.Binding

open Epub.Schema Epub.Xml

variable {κ : Type}

/-- As what an element is read. -/
inductive Role (κ : Type) where
  /-- A value of the type. -/
  | value (type : κ)
  /-- The element around the items of the list. -/
  | wrapper (field : FieldDecl κ)

/-- Whether a child of an element in `parent` is an item of the list, of the given type. -/
inductive IsItem (family : Family κ) (field : FieldDecl κ) (parent : Option String)
    (child : Element) : κ → Prop where
  | named {type : κ} (hkind : field.kind = .list type)
      (hnamed : child.Named field.tag.itemName (field.rule.effective parent)) :
      IsItem family field parent child type
  | variant {types : List κ} {type : κ} (hkind : field.kind = .variants types)
      (hfound : types.find? (fun variant => (family variant).descriptor.isVariant parent child) =
        some type) :
      IsItem family field parent child type

/-- Whether the field at `index` of the type `key` reads a child of `e`, and as what. -/
inductive Takes (family : Family κ) (key : κ) (index : Nat) (field : FieldDecl κ)
    (e : Element) : Role κ → Element → Prop where
  | element {type : κ} {child : Element} (hkind : field.kind = .element type)
      (hchild : child ∈ e.children)
      (hnamed : child.Named field.tag.name (field.rule.effective e.ns)) :
      Takes family key index field e (.value type) child
  | wrapper {child : Element} (hplace : field.placement = .wrappedList)
      (hchild : child ∈ e.children)
      (hnamed : child.Named field.tag.wrapperName (field.rule.effective e.ns)) :
      Takes family key index field e (.wrapper field) child
  /-- An item without a wrapper.  One of several variants must not belong to another
  field. -/
  | item {type : κ} {child : Element} (hplace : field.placement = .unwrappedList)
      (hchild : child ∈ e.children)
      (hfree : ∀ types, field.kind = .variants types →
        claimedByOther (family key).tags (some index) e.ns child = false)
      (hitem : IsItem family field e.ns child type) :
      Takes family key index field e (.value type) child

/-- Whether an element in its role is read by way of a child in the child's role. -/
inductive Gives (family : Family κ) : Role κ → Element → Role κ → Element → Prop where
  | field {key : κ} {index : Nat} {bound : BoundField κ} {e child : Element} {role : Role κ}
      (hbound : (family key).fields[index]? = some bound)
      (htakes : Takes family key index bound.field e role child) :
      Gives family (.value key) e role child
  | item {field : FieldDecl κ} {type : κ} {wrapper child : Element}
      (hchild : child ∈ wrapper.children)
      (hitem : IsItem family field wrapper.ns child type) :
      Gives family (.wrapper field) wrapper (.value type) child

/-- Whether reading passes from an element through the elements of the trail, one after
the other, to the last of them. -/
inductive Leads (family : Family κ) :
    Role κ → Element → List Element → Role κ → Element → Prop where
  | here {role : Role κ} {e : Element} : Leads family role e [] role e
  | inside {role inner lastRole : Role κ} {e child last : Element} {trail : List Element}
      (hgives : Gives family role e inner child)
      (hleads : Leads family inner child trail lastRole last) :
      Leads family role e (child :: trail) lastRole last

/-- The text that a field for a scalar reads. -/
def rawText? (field : FieldDecl κ) (e : Element) : Option String :=
  match field.placement with
  | .attr => (findAttribute? e field.tag.name field.rule).map Attribute.value
  | .text => e.ownText?
  | _ => none

/-- Whether what an error says is true of an element in its role. -/
inductive Explains (family : Family κ) : Role κ → Element → DecodeFault → Prop where
  | missingAttribute {key : κ} {bound : BoundField κ} {e : Element} (path : String)
      (hbound : bound ∈ (family key).fields) (hrequired : bound.field.hasDefault = false)
      (hplace : bound.field.placement = .attr)
      (hnone : ∀ attr ∈ e.attributes,
        attributeMatches bound.field.tag.name bound.field.rule e.ns attr = false) :
      Explains family (.value key) e (.missingAttribute bound.field.tag.name path)
  /-- A field for leftover attributes may be required too; then none is left over. -/
  | missingOverflow {key : κ} {bound : BoundField κ} {e : Element} (path : String)
      (hbound : bound ∈ (family key).fields) (hrequired : bound.field.hasDefault = false)
      (hplace : bound.field.placement = .overflow)
      (hnone : unclaimedAttributes e (family key).tags = []) :
      Explains family (.value key) e (.missingAttribute bound.field.tag.name path)
  | missingText {key : κ} {bound : BoundField κ} {e : Element} (path : String)
      (hbound : bound ∈ (family key).fields) (hrequired : bound.field.hasDefault = false)
      (hplace : bound.field.placement = .text) (hnone : ∀ text, e.text = some text → text = "") :
      Explains family (.value key) e (.missingText path)
  | missingElement {key : κ} {index : Nat} {bound : BoundField κ} {e : Element} {name : String}
      (path : String) (hbound : (family key).fields[index]? = some bound)
      (hrequired : bound.field.hasDefault = false) (hname : bound.field.tag.childName? = some name)
      (hnone : ∀ role child, ¬Takes family key index bound.field e role child) :
      Explains family (.value key) e (.missingElement name path)
  | tooManyMatches {key : κ} {bound : BoundField κ} {e : Element} {name : String}
      (path : String) (hbound : bound ∈ (family key).fields)
      (hplace : bound.field.placement ≠ .unwrappedList)
      (hname : bound.field.tag.childName? = some name)
      (hmany : 2 ≤ (e.childrenNamed name (bound.field.rule.effective e.ns)).length) :
      Explains family (.value key) e (.tooManyMatches name path)
  /-- Of the children of `e` that no other field reads, one is none of the variants. -/
  | unknownVariant {key : κ} {index : Nat} {bound : BoundField κ} {types : List κ}
      {e child : Element} (path : String) (hbound : (family key).fields[index]? = some bound)
      (hplace : bound.field.placement = .unwrappedList)
      (hkind : bound.field.kind = .variants types) (hchild : child ∈ e.children)
      (hfree : claimedByOther (family key).tags (some index) e.ns child = false)
      (hnone : ∀ variant ∈ types, (family variant).descriptor.isVariant e.ns child = false) :
      Explains family (.value key) e (.unknownVariant child.name path)
  /-- In a wrapper every child has to be one of the variants. -/
  | unknownItem {field : FieldDecl κ} {types : List κ} {wrapper child : Element}
      (path : String) (hkind : field.kind = .variants types) (hchild : child ∈ wrapper.children)
      (hnone : ∀ variant ∈ types,
        (family variant).descriptor.isVariant wrapper.ns child = false) :
      Explains family (.wrapper field) wrapper (.unknownVariant child.name path)
  | invalidNumber {key : κ} {bound : BoundField κ} {type : ScalarType} {e : Element}
      {raw : String} (path : String) (hbound : bound ∈ (family key).fields)
      (haccessor : bound.accessor = .value type) (hraw : rawText? bound.field e = some raw)
      (hread : type.read raw = .error .notNumber) :
      Explains family (.value key) e (.invalidNumber bound.field.tag.name raw path)
  | invalidKeyword {key : κ} {bound : BoundField κ} {type : ScalarType} {e : Element}
      {raw : String} (path : String) (hbound : bound ∈ (family key).fields)
      (haccessor : bound.accessor = .value type) (hraw : rawText? bound.field e = some raw)
      (hread : type.read raw = .error .notKeyword) :
      Explains family (.value key) e (.invalidKeyword bound.field.tag.name raw path)

/-- Whether an error is true of an element at `path`, or of one inside that is read on
behalf of it and has its path. -/
inductive Blames (family : Family κ) : Role κ → String → Element → Error → Prop where
  | here {role : Role κ} {e : Element} {fault : DecodeFault}
      (hexplains : Explains family role e fault) :
      Blames family role fault.path e (.decode fault)
  | inside {role inner : Role κ} {path : String} {e child : Element} {error : Error}
      (hgives : Gives family role e inner child)
      (hblames : Blames family inner (childPath path child) child error) :
      Blames family role path e error

section Trails

variable {family : Family κ}

theorem IsItem.type_mem {field : FieldDecl κ} {parent : Option String} {child : Element}
    {type : κ} (hitem : IsItem family field parent child type) : type ∈ field.kind.types := by
  cases hitem with
  | named hkind _ => simp [hkind, FieldKind.types]
  | variant hkind hfound => simpa [hkind, FieldKind.types] using List.mem_of_find?_eq_some hfound

theorem Takes.mem_children {key : κ} {index : Nat} {field : FieldDecl κ} {role : Role κ}
    {e child : Element} (htakes : Takes family key index field e role child) :
    child ∈ e.children := by
  cases htakes with
  | element _ hchild _ => exact hchild
  | wrapper _ hchild _ => exact hchild
  | item _ hchild _ _ => exact hchild

theorem Gives.mem_children {role inner : Role κ} {e child : Element}
    (hgives : Gives family role e inner child) : child ∈ e.children := by
  cases hgives with
  | item hchild _ => exact hchild
  | field _ htakes => exact htakes.mem_children

/-- Each element of a trail is a child of the one before. -/
theorem Leads.isChain {role last : Role κ} {e inner : Element} {trail : List Element}
    (hleads : Leads family role e trail last inner) :
    (e :: trail).IsChain fun parent child => child ∈ parent.children := by
  induction hleads with
  | here => exact .singleton _
  | inside hgives _ ih => exact .cons_cons hgives.mem_children ih

theorem Leads.getLast? {role last : Role κ} {e inner : Element} {trail : List Element}
    (hleads : Leads family role e trail last inner) : (e :: trail).getLast? = some inner := by
  induction hleads with
  | here => rfl
  | inside _ _ ih => rw [List.getLast?_cons_cons, ih]

/-- An error leads along a trail to the element that it is true of. -/
theorem Blames.exists_trail {role : Role κ} {path : String} {e : Element} {error : Error}
    (hblames : Blames family role path e error) :
    ∃ fault trail last inner, error = .decode fault ∧ fault.path = trail.foldl childPath path ∧
      Leads family role e trail last inner ∧ Explains family last inner fault := by
  induction hblames with
  | @here role e fault hexplains => exact ⟨fault, [], role, e, rfl, rfl, .here, hexplains⟩
  | @inside role inner path e child error hgives _ ih =>
      obtain ⟨fault, trail, last, element, herror, hpath, hleads, hexplains⟩ := ih
      exact ⟨fault, child :: trail, last, element, herror, hpath, .inside hgives hleads, hexplains⟩

end Trails

/-- The path at the end of a trail consists of the names on the way. -/
theorem foldl_childPath (trail : List Element) (path : String) :
    trail.foldl childPath path = "/".intercalate (path :: trail.map Element.name) := by
  induction trail generalizing path with
  | nil => rfl
  | cons child rest ih => exact ih (childPath path child)

section Locating

variable {family : Family κ} {typeName path : String} {key : κ} {index : Nat}
  {bound : BoundField κ} {e : Element} {error : Error}

/-- Only a list of variants has items of no known type. -/
theorem exists_unknown_of_itemsUnder {isSibling : Element → Bool} {container : Element}
    (hlist : bound.field.kind.isList = true)
    (hitems : itemsUnder family typeName bound.field bound.field.tag isSibling path container =
      .error error) :
    ∃ types, bound.field.kind = .variants types ∧ ∃ child ∈ container.children,
      isSibling child = false ∧
      (∀ variant ∈ types, (family variant).descriptor.isVariant container.ns child = false) ∧
      error = .decode (.unknownVariant child.name path) := by
  cases hkind : bound.field.kind with
  | list type =>
      rw [itemsUnder_list hkind] at hitems
      contradiction
  | variants types =>
      rw [itemsUnder_variants hkind rfl, map_eq_error] at hitems
      obtain ⟨child, hchild, htold⟩ := exists_of_mapM_eq_error hitems
      obtain ⟨hchild, hfree⟩ := List.mem_filter.mp hchild
      split at htold
      · contradiction
      · rename_i hnone
        refine ⟨types, rfl, child, hchild, by simpa using hfree, fun variant hvariant => ?_,
          (Except.error.inj htold).symm⟩
        simpa using List.find?_eq_none.mp hnone variant hvariant
  | value => simp [hkind, FieldKind.isList] at hlist
  | element type => simp [hkind, FieldKind.isList] at hlist
  | overflow => simp [hkind, FieldKind.isList] at hlist

/-- A single child is refused when there are several of its name. -/
theorem blames_of_singleChild {name : String} (hbound : bound ∈ (family key).fields)
    (hplace : bound.field.placement ≠ .unwrappedList)
    (hname : bound.field.tag.childName? = some name)
    (hsingle : singleChild path e name (bound.field.rule.effective e.ns) = .error error) :
    Blames family (.value key) path e error := by
  rw [singleChild] at hsingle
  split at hsingle
  · contradiction
  · contradiction
  · rename_i hnil hone
    rw [← Except.error.inj hsingle]
    refine .here (.tooManyMatches path hbound hplace hname ?_)
    cases hchildren : e.childrenNamed name (bound.field.rule.effective e.ns) with
    | nil => exact absurd hchildren hnil
    | cons first rest =>
        cases rest with
        | nil => exact absurd hchildren (hone first)
        | cons second rest => simp

/-- What a field finds wrong is wrong. -/
theorem blames_of_locate (hbound : (family key).fields[index]? = some bound)
    (hlocate : locate family typeName (family key).tags index bound.field bound.field.tag path e =
      .error error) : Blames family (.value key) path e error := by
  have hmem := List.mem_of_getElem? hbound
  cases hplace : bound.field.placement with
  | attr =>
      rw [locate_of_attr hplace] at hlocate
      contradiction
  | text =>
      rw [locate_of_text hplace] at hlocate
      contradiction
  | overflow =>
      rw [locate_of_overflow hplace] at hlocate
      contradiction
  | childElement =>
      rw [locate_of_element hplace, map_eq_error] at hlocate
      have hname : bound.field.tag.childName? = some bound.field.tag.name := by
        simp [Tag.childName?, FieldDecl.tag, hplace]
      exact blames_of_singleChild hmem (by simp [hplace]) hname hlocate
  | wrappedList =>
      have hname : bound.field.tag.childName? = some bound.field.tag.wrapperName := by
        simp [Tag.childName?, FieldDecl.tag, hplace]
      rw [locate_of_wrapped hplace, bind_eq_error] at hlocate
      rcases hlocate with hsingle | ⟨found, hsingle, hitems⟩
      · exact blames_of_singleChild hmem (by simp [hplace]) hname hsingle
      · cases found with
        | none => contradiction
        | some wrapper =>
            obtain ⟨hchild, hnamed⟩ := mem_of_singleChild_eq_ok hsingle
            obtain ⟨types, hkind, item, hitem, _, hnone, rfl⟩ :=
              exists_unknown_of_itemsUnder (list_of_wrapped hplace).1 (map_eq_error.mp hitems)
            exact .inside (.field hbound (.wrapper hplace hchild hnamed))
              (.here (.unknownItem _ hkind hitem hnone))
  | unwrappedList =>
      rw [locate_of_unwrapped hplace, map_eq_error] at hlocate
      obtain ⟨types, hkind, child, hchild, hfree, hnone, rfl⟩ :=
        exists_unknown_of_itemsUnder (list_of_unwrapped hplace).1 hlocate
      exact .here (.unknownVariant path hbound hplace hkind hchild hfree hnone)

/-- An item of a list is among the items that were found. -/
theorem isEmpty_eq_false_of_isItem {isSibling : Element → Bool} {container child : Element}
    {located : Located κ} {type : κ}
    (hitems : itemsUnder family typeName bound.field bound.field.tag isSibling path container =
      .ok located) (hchild : child ∈ container.children)
    (hfree : ∀ types, bound.field.kind = .variants types → isSibling child = false)
    (hitem : IsItem family bound.field container.ns child type) : located.isEmpty = false := by
  cases hitem with
  | named hkind hnamed =>
      rw [itemsUnder_list hkind] at hitems
      cases Except.ok.inj hitems
      rw [Located.isEmpty, List.isEmpty_eq_false_iff]
      exact List.ne_nil_of_mem (List.mem_filter.mpr ⟨hchild, decide_eq_true hnamed⟩)
  | @variant types _ hkind _ =>
      rw [itemsUnder_variants hkind rfl] at hitems
      obtain ⟨found, hfound, rfl⟩ := map_eq_ok.mp hitems
      have hcandidate : child ∈ container.children.filter fun child => !isSibling child :=
        List.mem_filter.mpr ⟨hchild, by simp [hfree types hkind]⟩
      rw [← snd_of_variantsOf hfound] at hcandidate
      obtain ⟨pair, hpair, _⟩ := List.mem_map.mp hcandidate
      rw [Located.isEmpty, List.isEmpty_eq_false_iff]
      exact List.ne_nil_of_mem hpair

/-- A field that finds nothing reads none of the children. -/
theorem not_takes_of_locate {role : Role κ} {child : Element}
    (hlocate : locate family typeName (family key).tags index bound.field bound.field.tag path e =
      .ok none) : ¬Takes family key index bound.field e role child := by
  have hnamed : ∀ name, singleChild path e name (bound.field.rule.effective e.ns) = .ok none →
      child ∈ e.children → ¬child.Named name (bound.field.rule.effective e.ns) := by
    intro name hsingle hchild hnamed
    have hmem : child ∈ e.childrenNamed name (bound.field.rule.effective e.ns) :=
      List.mem_filter.mpr ⟨hchild, decide_eq_true hnamed⟩
    rw [singleChild] at hsingle
    split at hsingle
    · rename_i hnil
      rw [hnil] at hmem
      contradiction
    · cases hsingle
    · contradiction
  intro htakes
  cases htakes with
  | element hkind hchild hname =>
      have hplace : bound.field.placement = .childElement := by simp [FieldDecl.placement, hkind]
      rw [locate_of_element hplace, map_eq_ok] at hlocate
      obtain ⟨found, hsingle, hnone⟩ := hlocate
      rw [Option.map_eq_none_iff.mp hnone] at hsingle
      exact hnamed _ hsingle hchild hname
  | wrapper hplace hchild hname =>
      rw [locate_of_wrapped hplace] at hlocate
      obtain ⟨found, hsingle, hitems⟩ := bind_eq_ok.mp hlocate
      cases found with
      | none => exact hnamed _ hsingle hchild hname
      | some wrapper =>
          obtain ⟨_, _, hsome⟩ := map_eq_ok.mp hitems
          contradiction
  | item hplace hchild hfree hitem =>
      rw [locate_of_unwrapped hplace, map_eq_ok] at hlocate
      obtain ⟨located, hitems, hnone⟩ := hlocate
      rw [isEmpty_eq_false_of_isItem hitems hchild hfree hitem] at hnone
      contradiction

/-- A required field that finds nothing is missing. -/
theorem blames_missing (hbound : (family key).fields[index]? = some bound)
    (hrequired : bound.field.hasDefault = false)
    (hlocate : locate family typeName (family key).tags index bound.field bound.field.tag path e =
      .ok none) :
    Blames family (.value key) path e (.decode (missing bound.field.tag path)) := by
  have hmem := List.mem_of_getElem? hbound
  have helement : ∀ name, bound.field.tag.childName? = some name →
      Blames family (.value key) path e (.decode (.missingElement name path)) := fun name hname =>
    .here (.missingElement path hbound hrequired hname fun _ _ => not_takes_of_locate hlocate)
  have hplace : bound.field.tag.placement = bound.field.placement := rfl
  cases hcase : bound.field.placement with
  | attr =>
      rw [locate_of_attr hcase] at hlocate
      have hnone := Option.map_eq_none_iff.mp (Except.ok.inj hlocate)
      simp only [missing, hplace, hcase]
      exact .here (.missingAttribute path hmem hrequired hcase
        (findAttribute?_eq_none_iff.mp hnone))
  | overflow =>
      rw [locate_of_overflow hcase] at hlocate
      have hnone := Except.ok.inj hlocate
      split at hnone
      · rename_i hempty
        have hleft := List.map_eq_nil_iff.mp (SortedMap.eq_nil_of_isEmpty_ofList hempty)
        simp only [missing, hplace, hcase]
        exact .here (.missingOverflow path hmem hrequired hcase hleft)
      · contradiction
  | text =>
      rw [locate_of_text hcase] at hlocate
      have hnone := Option.map_eq_none_iff.mp (Except.ok.inj hlocate)
      simp only [missing, hplace, hcase]
      refine .here (.missingText path hmem hrequired hcase fun text htext => ?_)
      simpa [Element.ownText?, htext] using hnone
  | childElement =>
      simp only [missing, hplace, hcase]
      exact helement _ (by simp [Tag.childName?, Tag.missingName, hplace, hcase])
  | wrappedList =>
      simp only [missing, hplace, hcase]
      exact helement _ (by simp [Tag.childName?, Tag.missingName, hplace, hcase])
  | unwrappedList =>
      simp only [missing, hplace, hcase]
      exact helement _ (by simp [Tag.childName?, Tag.missingName, hplace, hcase])

end Locating

section Taking

variable [DecidableEq κ] {family : Family κ} {typeName path : String} {key : κ} {index : Nat}
  {bound : BoundField κ} {e : Element} {located : Located κ} {error : Error}

/-- A scalar is refused by its type only. -/
theorem blames_of_text {raw : String} (hbound : bound ∈ (family key).fields)
    (hfits : bound.accessor.Fits bound.field.kind) (hkind : bound.field.kind = .value)
    (hraw : rawText? bound.field e = some raw)
    (htake : (take typeName bound.field.tag path bound.accessor (.text raw)
      fun child _ key path => readElement family key path child).outcome = .error error) :
    Blames family (.value key) path e error := by
  rcases hfits.value_or_raw hkind with ⟨type, haccessor⟩ | haccessor
  · rw [haccessor] at htake
    simp only [take, Traced.outcome_lift, map_eq_error, readScalar, mapError_eq_error] at htake
    obtain ⟨fault, hread, rfl⟩ := htake
    cases fault with
    | notNumber => exact .here (.invalidNumber path hbound haccessor hraw hread)
    | notKeyword => exact .here (.invalidKeyword path hbound haccessor hraw hread)
  · rw [haccessor] at htake
    contradiction

/-- A list is refused for one of its items. -/
theorem exists_item_of_take {outer : String} {isSibling : Element → Bool} {container : Element}
    (hfits : bound.accessor.Fits bound.field.kind) (hlist : bound.field.kind.isList = true)
    (hitems : itemsUnder family typeName bound.field bound.field.tag isSibling path container =
      .ok located)
    (htake : (take typeName bound.field.tag outer bound.accessor located
      fun child _ key path => readElement family key path child).outcome = .error error) :
    ∃ child ∈ container.children, ∃ type,
      (∀ types, bound.field.kind = .variants types → isSibling child = false) ∧
      IsItem family bound.field container.ns child type ∧
      (readElement family type (childPath path child) child).outcome = .error error := by
  cases hkind : bound.field.kind with
  | list type =>
      have haccessor : bound.accessor = .list type := hfits.eq_list hkind
      rw [itemsUnder_list hkind] at hitems
      cases Except.ok.inj hitems
      rw [haccessor, take_list, Traced.outcome_map, map_eq_error, Traced.outcome_mapM] at htake
      obtain ⟨child, hchild, hread⟩ := exists_of_mapM_eq_error htake
      obtain ⟨hmem, hnamed⟩ := List.mem_filter.mp hchild
      exact ⟨child, hmem, type, by simp, .named hkind (of_decide_eq_true hnamed), hread⟩
  | variants types =>
      obtain ⟨types', haccessor, hsame⟩ := hfits.exists_variants hkind
      rw [itemsUnder_variants hkind rfl] at hitems
      obtain ⟨found, hfound, rfl⟩ := map_eq_ok.mp hitems
      rw [haccessor, take_variants, Traced.outcome_map, map_eq_error, Traced.outcome_mapM] at htake
      obtain ⟨pair, hpair, hread⟩ := exists_of_mapM_eq_error htake
      obtain ⟨hcandidate, htold⟩ := find?_of_variantsOf hfound pair hpair
      obtain ⟨hmem, hfree⟩ := List.mem_filter.mp hcandidate
      have htype : pair.1 ∈ types' := (hsame pair.1).mpr (List.mem_of_find?_eq_some htold)
      rw [if_pos htype] at hread
      exact ⟨pair.2, hmem, pair.1, fun _ _ => by simpa using hfree, .variant hkind htold, hread⟩
  | value => simp [hkind, FieldKind.isList] at hlist
  | element type => simp [hkind, FieldKind.isList] at hlist
  | overflow => simp [hkind, FieldKind.isList] at hlist

/-- What a field takes is refused for something that is true of it, if that is so of the
elements inside. -/
theorem blames_of_take (hbound : (family key).fields[index]? = some bound)
    (hfits : bound.accessor.Fits bound.field.kind)
    (hlocate : locate family typeName (family key).tags index bound.field bound.field.tag path e =
      .ok (some located))
    (hinner : ∀ type ∈ bound.field.kind.types, ∀ child path, sizeOf child < sizeOf e →
      (readElement family type path child).outcome = .error error →
        Blames family (.value type) path child error)
    (htake : (take typeName bound.field.tag path bound.accessor located
      fun child _ key path => readElement family key path child).outcome = .error error) :
    Blames family (.value key) path e error := by
  have hmem := List.mem_of_getElem? hbound
  cases hplace : bound.field.placement with
  | attr =>
      rw [locate_of_attr hplace] at hlocate
      obtain ⟨attr, hfound, rfl⟩ := Option.map_eq_some_iff.mp (Except.ok.inj hlocate)
      have hraw : rawText? bound.field e = some attr.value := by simp [rawText?, hplace, hfound]
      exact blames_of_text hmem hfits (value_of_attr hplace).1 hraw htake
  | text =>
      rw [locate_of_text hplace] at hlocate
      obtain ⟨raw, hfound, rfl⟩ := Option.map_eq_some_iff.mp (Except.ok.inj hlocate)
      have hraw : rawText? bound.field e = some raw := by simp [rawText?, hplace, hfound]
      exact blames_of_text hmem hfits (value_of_text hplace).1 hraw htake
  | childElement =>
      obtain ⟨type, hkind⟩ := element_of_placement hplace
      have haccessor : bound.accessor = .element type := hfits.eq_element hkind
      rw [locate_of_element hplace] at hlocate
      obtain ⟨found, hsingle, hsome⟩ := map_eq_ok.mp hlocate
      obtain ⟨child, rfl, rfl⟩ := Option.map_eq_some_iff.mp hsome
      obtain ⟨hchild, hnamed⟩ := mem_of_singleChild_eq_ok hsingle
      rw [haccessor] at htake
      simp only [take, Traced.outcome_bind, Traced.outcome_pure, bind_eq_error] at htake
      rcases htake with hread | ⟨_, _, hpure⟩
      · exact .inside (.field hbound (.element hkind hchild hnamed))
          (hinner type (by simp [hkind, FieldKind.types]) child _ (Element.sizeOf_child_lt hchild)
            hread)
      · contradiction
  | wrappedList =>
      rw [locate_of_wrapped hplace] at hlocate
      obtain ⟨found, hsingle, hitems⟩ := bind_eq_ok.mp hlocate
      cases found with
      | none => cases Except.ok.inj hitems
      | some wrapper =>
          obtain ⟨_, hitems, hsome⟩ := map_eq_ok.mp hitems
          cases hsome
          obtain ⟨hwrapper, hnamed⟩ := mem_of_singleChild_eq_ok hsingle
          obtain ⟨child, hchild, type, _, hitem, hread⟩ :=
            exists_item_of_take hfits (list_of_wrapped hplace).1 hitems htake
          have hlt := Nat.lt_trans (Element.sizeOf_child_lt hchild)
            (Element.sizeOf_child_lt hwrapper)
          exact .inside (.field hbound (.wrapper hplace hwrapper hnamed))
            (.inside (.item hchild hitem) (hinner type hitem.type_mem child _ hlt hread))
  | unwrappedList =>
      rw [locate_of_unwrapped hplace] at hlocate
      obtain ⟨_, hitems, hsome⟩ := map_eq_ok.mp hlocate
      split at hsome
      · contradiction
      · cases hsome
        obtain ⟨child, hchild, type, hfree, hitem, hread⟩ :=
          exists_item_of_take hfits (list_of_unwrapped hplace).1 hitems htake
        exact .inside (.field hbound (.item hplace hchild hfree hitem))
          (hinner type hitem.type_mem child _ (Element.sizeOf_child_lt hchild) hread)
  | overflow =>
      have haccessor : bound.accessor = .overflow := hfits.eq_overflow (kind_of_overflow hplace)
      rw [locate_of_overflow hplace] at hlocate
      have hsome := Except.ok.inj hlocate
      split at hsome
      · contradiction
      · cases hsome
        rw [haccessor] at htake
        contradiction

/-- A slot that cannot be read is refused for something true, if that is so of the elements
inside. -/
theorem blames_of_readSlot (hbound : (family key).fields[index]? = some bound)
    (hfits : bound.accessor.Fits bound.field.kind)
    (hinner : ∀ type ∈ bound.field.kind.types, ∀ child path, sizeOf child < sizeOf e →
      (readElement family type path child).outcome = .error error →
        Blames family (.value type) path child error)
    (hread : (readSlot family typeName (family key).tags path e
      ((bound, bound.field.tag), index)).outcome = .error error) :
    Blames family (.value key) path e error := by
  rw [readSlot] at hread
  cases hlocate : locate family typeName (family key).tags index bound.field bound.field.tag
      path e with
  | error fault =>
      simp only [hlocate, Traced.outcome_fail, Except.error.injEq] at hread
      exact hread ▸ blames_of_locate hbound hlocate
  | ok found =>
      cases found with
      | none =>
          cases hdefault : bound.field.hasDefault with
          | true =>
              have hrequired : bound.field.tag.required = false := by
                simp [FieldDecl.tag, hdefault]
              simp only [hlocate, hrequired] at hread
              contradiction
          | false =>
              have hrequired : bound.field.tag.required = true := by
                simp [FieldDecl.tag, hdefault]
              simp only [hlocate, hrequired] at hread
              exact Except.error.inj hread ▸ blames_missing hbound hdefault hlocate
      | some located =>
          simp only [hlocate, Traced.outcome_map, map_eq_error] at hread
          exact blames_of_take hbound hfits hlocate hinner hread

/-- An element that cannot be read is refused for something that is true of it or of an
element inside.  The recursion follows the reading. -/
theorem blames_of_readElement {key : κ} {path : String} {e : Element} {error : Error}
    (hfamily : WellBound family key)
    (hread : (readElement family key path e).outcome = .error error) :
    Blames family (.value key) path e error := by
  have horder := hfamily.here
  rw [readElement_eq] at hread
  simp only [Traced.outcome_bind, Traced.outcome_lift, horder.tags, Except.mapError, ok_bind,
    Traced.outcome_mapM, Traced.outcome_noteAll, Traced.outcome_pure, bind_eq_error] at hread
  rcases hread with hslots | ⟨_, _, hpure⟩
  · obtain ⟨⟨⟨bound, tag⟩, index⟩, hfield, hslot⟩ := exists_of_mapM_eq_error hslots
    obtain ⟨hbound, htag⟩ :=
      List.getElem?_zip_eq_some.mp (List.mem_zipIdx_iff_getElem?.mp hfield)
    have hown : tag = bound.field.tag := by
      simp only [BoundType.tags, List.getElem?_map, hbound, Option.map_some,
        Option.some.injEq] at htag
      exact htag.symm
    rw [hown] at hslot
    have hmem := List.mem_of_getElem? hbound
    refine blames_of_readSlot hbound (horder.fits bound hmem) ?_ hslot
    intro type htype child path hlt hchild
    exact blames_of_readElement (hfamily.inside hmem htype) hchild
  · contradiction
termination_by sizeOf e

/-- The outcome of reading is a value, or an error of reading. -/
theorem readElement_ok_or_decode (hfamily : WellBound family key) (path : String) (e : Element) :
    (∃ record, (readElement family key path e).outcome = .ok record) ∨
      ∃ fault, (readElement family key path e).outcome = .error (.decode fault) := by
  cases hread : (readElement family key path e).outcome with
  | ok record => exact Or.inl ⟨record, rfl⟩
  | error error =>
      obtain ⟨fault, _, _, _, rfl, _⟩ := (blames_of_readElement hfamily hread).exists_trail
      exact Or.inr ⟨fault, rfl⟩

/-- So is the outcome of reading a document, whatever its root is called. -/
theorem readDocument_ok_or_decode (hfamily : WellBound family key) (document : Document) :
    (∃ record, (readDocument family key document).outcome = .ok record) ∨
      ∃ fault, (readDocument family key document).outcome = .error (.decode fault) := by
  simp only [readDocument, Traced.outcome_bind, Traced.outcome_note, ok_bind]
  split
  · exact readElement_ok_or_decode hfamily _ _
  · exact Or.inr ⟨_, rfl⟩

end Taking

/-- Every error is true of the place that it names.  Its path spells a chain of elements
from the root, each a child of the one before, and what it says is true of the last of them
as it is read there. -/
theorem exists_place_of_readRoot [DecidableEq κ] {family : Family κ} {key : κ}
    (hfamily : WellBound family key) {root : Element} {fault : DecodeFault}
    (hread : (readRoot family key root).outcome = .error (.decode fault)) :
    ∃ (trail : List Element) (role : Role κ) (last : Element),
      (root :: trail).IsChain (fun parent child => child ∈ parent.children) ∧
      fault.path = "/" ++ "/".intercalate ((root :: trail).map Element.name) ∧
      (root :: trail).getLast? = some last ∧
      Leads family (.value key) root trail role last ∧ Explains family role last fault := by
  obtain ⟨_, trail, role, last, hfault, hpath, hleads, hexplains⟩ :=
    (blames_of_readElement hfamily hread).exists_trail
  cases hfault
  refine ⟨trail, role, last, hleads.isChain, ?_, hleads.getLast?, hleads, hexplains⟩
  rw [hpath, foldl_childPath, List.map_cons, String.intercalate_cons_append]

theorem wellBound_sections : WellBound sections () := by
  intro type _
  have hfaithful : ∀ bound ∈ (sections ()).fields, bound.Faithful := by decide
  exact ⟨rfl, fun bound hbound => (hfaithful bound hbound).fits⟩

/-- A section with one inside whose depth is no number of eight bits. -/
def crampedSection : Element :=
  { Element.empty "section" (some "urn:sections") with
    attributes := [⟨"label", none, "1"⟩]
    children := [{ Element.empty "inner" (some "urn:sections") with
      children := [{ Element.empty "section" (some "urn:sections") with
        attributes := [⟨"label", none, "2"⟩, ⟨"depth", none, "256"⟩] }] }] }

theorem exists_place_of_readRoot_cramped :
    WellBound sections () ∧
    (readRoot sections () crampedSection).outcome =
      .error (.decode (.invalidNumber "depth" "256" "/section/inner/section")) ∧
    ∃ (trail : List Element) (role : Role Unit) (last : Element),
      (crampedSection :: trail).IsChain (fun parent child => child ∈ parent.children) ∧
      "/section/inner/section" =
        "/" ++ "/".intercalate ((crampedSection :: trail).map Element.name) ∧
      (crampedSection :: trail).getLast? = some last ∧
      Leads sections (.value ()) crampedSection trail role last ∧
      Explains sections role last (.invalidNumber "depth" "256" "/section/inner/section") := by
  have hread : (readRoot sections () crampedSection).outcome =
      .error (.decode (.invalidNumber "depth" "256" "/section/inner/section")) := by
    decide +kernel
  exact ⟨wellBound_sections, hread, exists_place_of_readRoot wellBound_sections hread⟩

end Epub.Binding
