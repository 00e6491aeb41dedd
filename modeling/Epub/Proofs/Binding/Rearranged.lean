/-
Order that does not matter.  A tree is read the same when the attributes of its elements are
permuted, and when neighbours among the children change places that no field reads
together.
-/
import Epub.Proofs.Binding.Alike
import Epub.Proofs.Binding.Decoded
import Epub.Proofs.Binding.Written

namespace Epub.Binding

open Epub.Schema Epub.Xml

variable {κ : Type}

/-- Whether one field may read both of two children of an element in `parent`, which is read
in its role: the field considers both, or the list around which the element stands has
both as items. -/
inductive ReadTogether (family : Family κ) (parent : Option String) (first second : Element) :
    Role κ → Prop where
  | field {key : κ} {index : Nat} {bound : BoundField κ}
      (hbound : (family key).fields[index]? = some bound)
      (hfirst : considers family key index bound.field parent first = true)
      (hsecond : considers family key index bound.field parent second = true) :
      ReadTogether family parent first second (.value key)
  | items {field : FieldDecl κ} (hfirst : listsItem field parent first = true)
      (hsecond : listsItem field parent second = true) :
      ReadTogether family parent first second (.wrapper field)

/-- Whether a tree comes from another one that is read in all of the roles by permuting
attributes and by swapping neighbours that are not read together, here or inside. -/
inductive Rearranged (family : Family κ) : (Role κ → Prop) → Element → Element → Prop where
  | refl {roles : Role κ → Prop} {e : Element} : Rearranged family roles e e
  | attributes {roles : Role κ → Prop} {e : Element} {attributes : List Attribute}
      (hperm : e.attributes.Perm attributes) :
      Rearranged family roles e { e with attributes }
  | swap {roles : Role κ → Prop} {e first second : Element} {front back : List Element}
      (hchildren : e.children = front ++ first :: second :: back)
      (hapart : ∀ role, roles role → ¬ReadTogether family e.ns first second role) :
      Rearranged family roles e { e with children := front ++ second :: first :: back }
  | inside {roles : Role κ → Prop} {e child child' : Element} {front back : List Element}
      (hchildren : e.children = front ++ child :: back)
      (hinner : Rearranged family
        (fun inner => ∃ role, roles role ∧ Gives family role e inner child) child child') :
      Rearranged family roles e { e with children := front ++ child' :: back }
  | trans {roles : Role κ → Prop} {e e' e'' : Element} (hfirst : Rearranged family roles e e')
      (hsecond : Rearranged family roles e' e'') : Rearranged family roles e e''

section Children

variable {ρ : Type} {tell : Element → Option ρ}
  {read : ρ → String → Element → Except Error (List (Record κ))}

/-- Whether of two children the one is told as the same as the other, and read the same. -/
structure ReadAlike (tell : Element → Option ρ)
    (read : ρ → String → Element → Except Error (List (Record κ))) (child child' : Element) :
    Prop where
  name : child'.name = child.name
  told : tell child' = tell child
  outcome : ∀ role, tell child = some role → ∀ path, read role path child' = read role path child

theorem ReadAlike.refl (child : Element) : ReadAlike tell read child child :=
  ⟨rfl, rfl, fun _ _ _ => rfl⟩

theorem ReadAlike.agrees {child child' : Element} (halike : ReadAlike tell read child child') :
    ReadsAgree tell read Eq (fun _ => False) child child' := by
  refine ⟨halike.name, halike.told, fun role hrole path => ?_⟩
  rw [halike.outcome role hrole]
  exact .refl (fun records => List.forall₂_same.mpr fun _ _ => rfl) _

theorem readEach_congr (path : String) {found found' : List Element}
    (halike : List.Forall₂ (ReadAlike tell read) found found') :
    readEach tell read path found' = readEach tell read path found := by
  have hagree := readEach_agrees path (halike.imp fun _ _ halike => halike.agrees)
  rw [List.forall₂_eq_eq_eq] at hagree
  exact hagree.eq

/-- Neighbours that a filter does not keep both of may change places. -/
theorem filter_swap {α : Type} {keeps : α → Bool} {first second : α} (front back : List α)
    (hapart : ¬(keeps first = true ∧ keeps second = true)) :
    (front ++ second :: first :: back).filter keeps =
      (front ++ first :: second :: back).filter keeps := by
  rw [List.filter_append, List.filter_append]
  congr 1
  by_cases hfirst : keeps first = true
  · have hsecond : ¬keeps second = true := fun hsecond => hapart ⟨hfirst, hsecond⟩
    rw [List.filter_cons_of_neg hsecond, List.filter_cons_of_pos hfirst,
      List.filter_cons_of_pos hfirst, List.filter_cons_of_neg hsecond]
  · by_cases hsecond : keeps second = true
    · rw [List.filter_cons_of_pos hsecond, List.filter_cons_of_neg hfirst,
        List.filter_cons_of_neg hfirst, List.filter_cons_of_pos hsecond]
    · rw [List.filter_cons_of_neg hsecond, List.filter_cons_of_neg hfirst,
        List.filter_cons_of_neg hfirst, List.filter_cons_of_neg hsecond]

/-- Where one element is replaced, so it is in what a filter keeps. -/
theorem forall₂_filter_replace {α : Type} {R : α → α → Prop} (hrefl : ∀ a, R a a)
    {keeps : α → Bool} {old new : α} (hsame : keeps new = keeps old)
    (hkept : keeps old = true → R old new) (front back : List α) :
    List.Forall₂ R ((front ++ old :: back).filter keeps)
      ((front ++ new :: back).filter keeps) := by
  rw [List.filter_append, List.filter_append]
  apply List.rel_append (List.forall₂_same.mpr fun a _ => hrefl a)
  by_cases hold : keeps old = true
  · rw [List.filter_cons_of_pos hold, List.filter_cons_of_pos (hsame.trans hold)]
    exact .cons (hkept hold) (List.forall₂_same.mpr fun a _ => hrefl a)
  · have hnew : ¬keeps new = true := by rwa [hsame]
    rw [List.filter_cons_of_neg hold, List.filter_cons_of_neg hnew]
    exact List.forall₂_same.mpr fun a _ => hrefl a

end Children

section Attributes

variable {e : Element} {attributes : List Attribute}

/-- A tag reads the same attribute, in whatever order they are. -/
theorem findAttribute?_perm (hperm : e.attributes.Perm attributes)
    (hkeys : (e.attributes.map Attribute.key).Nodup) (name : String) (rule : NamespaceRule) :
    findAttribute? { e with attributes } name rule = findAttribute? e name rule := by
  have hkeys' : (attributes.map Attribute.key).Nodup :=
    (hperm.map Attribute.key).nodup_iff.mp hkeys
  apply Option.ext
  intro attr
  rw [findAttribute?_eq_some_iff hkeys,
    findAttribute?_eq_some_iff (e := { e with attributes }) hkeys']
  simp only [hperm.mem_iff]

/-- The same attributes are left over, under their names. -/
theorem unclaimedAttributes_perm (hperm : e.attributes.Perm attributes)
    (hkeys : (e.attributes.map Attribute.key).Nodup) (tags : List Tag) :
    OtherAttributes.of (unclaimedAttributes { e with attributes } tags) =
      OtherAttributes.of (unclaimedAttributes e tags) := by
  have hkeys' : (attributes.map Attribute.key).Nodup :=
    (hperm.map Attribute.key).nodup_iff.mp hkeys
  have hleft : (unclaimedAttributes e tags).Perm
      (unclaimedAttributes { e with attributes } tags) := by
    rw [unclaimedAttributes_eq hkeys.of_map,
      unclaimedAttributes_eq (e := { e with attributes }) hkeys'.of_map]
    simp only [findAttribute?_perm hperm hkeys]
    exact hperm.filter _
  symm
  apply SortedMap.ofList_perm (hleft.map _)
  rw [List.map_map]
  have hsub : (unclaimedAttributes e tags).Sublist e.attributes := by
    rw [unclaimedAttributes_eq hkeys.of_map]
    exact List.filter_sublist
  exact hkeys.sublist (hsub.map Attribute.key)

end Attributes

section Elements

variable [DecidableEq κ] {family : Family κ} {key : κ} {e e' : Element}

/-- Whether the fields of a type find the same in two elements, and read it the same. -/
structure FoundAlike (family : Family κ) (key : κ) (e e' : Element) : Prop where
  ns : e'.ns = e.ns
  text : e'.text = e.text
  found : ∀ name rule, findAttribute? e' name rule = findAttribute? e name rule
  other : OtherAttributes.of (unclaimedAttributes e' (family key).tags) =
    OtherAttributes.of (unclaimedAttributes e (family key).tags)
  children : ∀ index bound, (family key).fields[index]? = some bound →
    List.Forall₂ (ReadAlike (roleOf? family bound.field e.ns) (readAs family))
      (e.children.filter (considers family key index bound.field e.ns))
      (e'.children.filter (considers family key index bound.field e.ns))

theorem readChildren_congr {index : Nat} {bound : BoundField κ} (hns : e'.ns = e.ns)
    (halike : List.Forall₂ (ReadAlike (roleOf? family bound.field e.ns) (readAs family))
      (e.children.filter (considers family key index bound.field e.ns))
      (e'.children.filter (considers family key index bound.field e.ns))) (path : String) :
    readChildren family key path e' index bound =
      readChildren family key path e index bound := by
  have hagree := readChildren_agrees hns (halike.imp fun _ _ halike => halike.agrees) path
  exact (hagree.mono fun _ _ hslots => hslots.eq).eq

theorem readField_congr {index : Nat} {bound : BoundField κ}
    (hbound : (family key).fields[index]? = some bound) (halike : FoundAlike family key e e')
    (path : String) :
    readField family key path e' index bound = readField family key path e index bound := by
  have hchildren := readChildren_congr halike.ns (halike.children index bound hbound) path
  have htext : e'.ownText? = e.ownText? := by rw [Element.ownText?, Element.ownText?, halike.text]
  simp only [readField, halike.found, halike.other, htext, hchildren]

/-- An element in which each field reads the same is read the same. -/
theorem readElement_of_readField {path : String} (hfamily : IsBound family key)
    (hsame : ∀ index bound, (family key).fields[index]? = some bound →
      readField family key path e' index bound = readField family key path e index bound) :
    (readElement family key path e').outcome = (readElement family key path e).outcome := by
  cases htags : (family key).descriptor.tags with
  | error fault => rw [readElement_of_fault htags, readElement_of_fault htags]
  | ok tags =>
      rw [readElement_of_tags hfamily htags, readElement_of_tags hfamily htags]
      congr 1
      apply mapM_congr
      intro item hitem
      exact hsame item.2 item.1 (List.mem_zipIdx_iff_getElem?.mp hitem)

/-- Elements in which all fields find the same are read the same. -/
theorem readElement_congr (hfamily : IsBound family key) (halike : FoundAlike family key e e')
    (path : String) :
    (readElement family key path e').outcome = (readElement family key path e).outcome := by
  apply readElement_of_readField hfamily
  intro index bound hbound
  exact readField_congr hbound halike path

/-- What is read in a role is read the same if its children are. -/
theorem readAs_wrapper_congr {field : FieldDecl κ} (hns : e'.ns = e.ns)
    (halike : List.Forall₂ (ReadAlike (memberType? family field e.ns) (readValue family))
      (e.children.filter (listsItem field e.ns)) (e'.children.filter (listsItem field e.ns)))
    (path : String) :
    readAs family (.wrapper field) path e' = readAs family (.wrapper field) path e := by
  rw [readAs, readAs, hns]
  exact readEach_congr path halike

end Elements

section Rearranging

variable [DecidableEq κ] {family : Family κ} {role : Role κ} {e e' child child' : Element}

open Element

theorem readAs_attributes {attributes : List Attribute} (hfamily : role.IsBound family)
    (hperm : e.attributes.Perm attributes) (hkeys : e.HasDistinctKeys) (path : String) :
    readAs family role path { e with attributes } = readAs family role path e := by
  cases role with
  | wrapper field => rfl
  | value key =>
      have halike : FoundAlike family key e { e with attributes } :=
        ⟨rfl, rfl, findAttribute?_perm hperm hkeys, unclaimedAttributes_perm hperm hkeys _,
          fun _ _ _ => List.forall₂_same.mpr fun child _ => .refl child⟩
      rw [readAs, readAs, readValue, readValue, readElement_congr hfamily halike]

theorem readAs_swap {first second : Element} {front back : List Element}
    (hfamily : role.IsBound family) (hchildren : e.children = front ++ first :: second :: back)
    (hapart : ¬ReadTogether family e.ns first second role) (path : String) :
    readAs family role path { e with children := front ++ second :: first :: back } =
      readAs family role path e := by
  cases role with
  | wrapper field =>
      have hitems : (front ++ second :: first :: back).filter (listsItem field e.ns) =
          e.children.filter (listsItem field e.ns) := by
        rw [hchildren]
        apply filter_swap
        rintro ⟨hfirst, hsecond⟩
        exact hapart (.items hfirst hsecond)
      simp only [readAs, hitems]
  | value key =>
      have hfound : ∀ index bound, (family key).fields[index]? = some bound →
          (front ++ second :: first :: back).filter (considers family key index bound.field e.ns) =
            e.children.filter (considers family key index bound.field e.ns) := by
        intro index bound hbound
        rw [hchildren]
        apply filter_swap
        rintro ⟨hfirst, hsecond⟩
        exact hapart (.field hbound hfirst hsecond)
      have halike : FoundAlike family key e
          { e with children := front ++ second :: first :: back } := by
        refine ⟨rfl, rfl, fun _ _ => rfl, rfl, fun index bound hbound => ?_⟩
        rw [hfound index bound hbound]
        exact List.forall₂_same.mpr fun child _ => .refl child
      rw [readAs, readAs, readValue, readValue, readElement_congr hfamily halike]

theorem readAs_inside {front back : List Element} (hfamily : role.IsBound family)
    (hchildren : e.children = front ++ child :: back) (hsame : elementKey child' = elementKey child)
    (hinner : ∀ inner, Gives family role e inner child → ∀ path,
      readAs family inner path child' = readAs family inner path child) (path : String) :
    readAs family role path { e with children := front ++ child' :: back } =
      readAs family role path e := by
  have hchild : child ∈ e.children := by simp [hchildren]
  have hname : child'.name = child.name := congrArg QName.name hsame
  cases role with
  | wrapper field =>
      apply readAs_wrapper_congr (by rfl)
      rw [hchildren]
      apply forall₂_filter_replace .refl (listsItem_congr hsame)
      intro hlists
      refine ⟨hname, memberType?_congr hsame, fun type htype path => ?_⟩
      exact hinner (.value type)
        (.item hchild (isItem_of_memberType? hfamily.1 hlists htype)) path
  | value key =>
      have halike : FoundAlike family key e { e with children := front ++ child' :: back } := by
        refine ⟨rfl, rfl, fun _ _ => rfl, rfl, fun index bound hbound => ?_⟩
        rw [hchildren]
        apply forall₂_filter_replace .refl (considers_congr hsame)
        intro hconsiders
        refine ⟨hname, roleOf?_congr hsame, fun inner hrole path => ?_⟩
        exact hinner inner (.field hbound (takes_of_considers hchild hconsiders hrole)) path
      rw [readAs, readAs, readValue, readValue, readElement_congr hfamily halike]

/-- Rearranging keeps the name of an element and what it is read as. -/
theorem Rearranged.readAs_eq {roles : Role κ → Prop} (hrearranged : Rearranged family roles e e')
    (hfamily : ∀ role, roles role → role.IsBound family) (hkeys : e.Everywhere HasDistinctKeys) :
    elementKey e' = elementKey e ∧ e'.Everywhere HasDistinctKeys ∧
      ∀ role, roles role → ∀ path, readAs family role path e' = readAs family role path e := by
  induction hrearranged with
  | refl => exact ⟨rfl, hkeys, fun _ _ _ => rfl⟩
  | attributes hperm =>
      refine ⟨rfl, ⟨(hperm.map Attribute.key).nodup_iff.mp hkeys.here, fun inner hinner =>
        hkeys.inside hinner⟩, fun role hrole path => ?_⟩
      exact readAs_attributes (hfamily role hrole) hperm hkeys.here path
  | @swap roles e first second front back hchildren hapart =>
      refine ⟨rfl, ⟨hkeys.here, fun inner hinner => ?_⟩, fun role hrole path => ?_⟩
      · apply hkeys.inside
        rw [hchildren]
        simp only [List.mem_append, List.mem_cons] at hinner ⊢
        tauto
      · exact readAs_swap (hfamily role hrole) hchildren (hapart role hrole) path
  | @inside roles e child child' front back hchildren _ ih =>
      have hchild : child ∈ e.children := by simp [hchildren]
      obtain ⟨hsame, hkeys', hread⟩ := ih
        (fun inner ⟨role, hrole, hgives⟩ => (hfamily role hrole).inside hgives)
        (hkeys.inside hchild)
      refine ⟨rfl, ⟨hkeys.here, fun inner hinner => ?_⟩, fun role hrole path => ?_⟩
      · rcases List.mem_append.mp hinner with hfront | hrest
        · exact hkeys.inside (by simp [hchildren, hfront])
        · rcases List.mem_cons.mp hrest with rfl | hback
          · exact hkeys'
          · exact hkeys.inside (by simp [hchildren, hback])
      · exact readAs_inside (hfamily role hrole) hchildren hsame
          (fun inner hgives path => hread inner ⟨role, hrole, hgives⟩ path) path
  | trans _ _ ihfirst ihsecond =>
      obtain ⟨hsame, hkeys', hread⟩ := ihfirst hfamily hkeys
      obtain ⟨hsame', hkeys'', hread'⟩ := ihsecond hfamily hkeys'
      refine ⟨hsame'.trans hsame, hkeys'', fun role hrole path => ?_⟩
      exact (hread' role hrole path).trans (hread role hrole path)

/-- Elements of one name that are read the same are so as roots. -/
theorem outcome_readRoot_of_readAs {key : κ} (hsame : elementKey e' = elementKey e)
    (hread : ∀ path, readAs family (.value key) path e' = readAs family (.value key) path e) :
    (readRoot family key e').outcome = (readRoot family key e).outcome := by
  have hname : e'.name = e.name := congrArg QName.name hsame
  rw [readRoot, readRoot, hname]
  apply outcome_of_readValue
  exact hread ("/" ++ e.name)

end Rearranging

/-- Reading does not depend on the order of attributes, nor on how the children of
different fields are mixed: a tree that comes from another one by permuting attributes and
by swapping neighbours that no field reads together, at any depth, is read as the same
value, or refused with the same error. -/
theorem readRoot_rearranged [DecidableEq κ] {family : Family κ} {key : κ} {e e' : Element}
    (hfamily : IsBound family key) (hkeys : e.Everywhere Element.HasDistinctKeys)
    (hrearranged : Rearranged family (fun role => role = .value key) e e') :
    (readRoot family key e').outcome = (readRoot family key e).outcome := by
  have hroles : ∀ role : Role κ, role = .value key → role.IsBound family := by
    rintro _ rfl
    exact hfamily
  obtain ⟨hsame, _, hread⟩ := hrearranged.readAs_eq hroles hkeys
  have hname : e'.name = e.name := congrArg QName.name hsame
  rw [readRoot, readRoot, hname]
  apply outcome_of_readValue
  exact hread (.value key) rfl ("/" ++ e.name)

/-- A section with a note beside the section in it, which cannot be read. -/
def annotatedSection : Element :=
  sectionOf [⟨"label", none, "1"⟩, ⟨"label", some "urn:sections", "one"⟩]
    [innerOf [sectionOf [⟨"label", none, "2"⟩, ⟨"depth", none, "256"⟩] []],
      Element.empty "note" (some "urn:sections")]

/-- The same with its parts in another order. -/
def disorderedSection : Element :=
  sectionOf [⟨"label", some "urn:sections", "one"⟩, ⟨"label", none, "1"⟩]
    [Element.empty "note" (some "urn:sections"),
      innerOf [sectionOf [⟨"depth", none, "256"⟩, ⟨"label", none, "2"⟩] []]]

theorem rearranged_disorderedSection :
    Rearranged sections (fun role => role = .value ()) annotatedSection disorderedSection := by
  have hapart : ∀ index < (sections ()).fields.length, ∀ bound ∈ (sections ()).fields[index]?,
      considers sections () index bound.field annotatedSection.ns
        (Element.empty "note" (some "urn:sections")) = false := by decide
  have hswap : Rearranged sections (fun role => role = .value ()) annotatedSection
      (sectionOf annotatedSection.attributes ([] ++ Element.empty "note" (some "urn:sections") ::
        innerOf [sectionOf [⟨"label", none, "2"⟩, ⟨"depth", none, "256"⟩] []] :: [])) := by
    apply Rearranged.swap (by rfl)
    rintro _ rfl htogether
    cases htogether with
    | @field key index bound hbound _ hsecond =>
        have hnot := hapart index (List.getElem?_eq_some_iff.mp hbound).1 bound hbound
        exact Bool.false_ne_true (hnot.symm.trans hsecond)
  apply hswap.trans
  apply Rearranged.trans (.attributes (.swap _ _ []))
  apply @Rearranged.inside _ _ _ _ _ _ [_] _ (by rfl)
  apply @Rearranged.inside _ _ _ _ _ _ [] _ (by rfl)
  exact .attributes (.swap _ _ [])

theorem readRoot_rearranged_sections :
    IsBound sections () ∧ annotatedSection.Everywhere Element.HasDistinctKeys ∧
      Rearranged sections (fun role => role = .value ()) annotatedSection disorderedSection ∧
      annotatedSection ≠ disorderedSection ∧
      (readRoot sections () disorderedSection).outcome =
        (readRoot sections () annotatedSection).outcome := by
  have hkeys : annotatedSection.Everywhere Element.HasDistinctKeys := by decide
  exact ⟨wellBound_sections.isBound, hkeys, rearranged_disorderedSection, by decide,
    readRoot_rearranged wellBound_sections.isBound hkeys rearranged_disorderedSection⟩

end Epub.Binding
