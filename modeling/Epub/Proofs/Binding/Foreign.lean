/-
Markup that no field reads.  What is put into an element and belongs to no field there, at
any depth of a tree, has no influence on what the tree is read as; an attribute that no other
field asks for is seen by a field for leftover attributes, and by nothing else.
-/
import Epub.Proofs.Binding.Rearranged
import Epub.Proofs.Binding.Removal

namespace Epub.Binding

open Epub.Schema Epub.Xml

variable {κ : Type}

section Roles

variable (family : Family κ)

/-- Whether a child of an element in `parent` belongs to no field of a type without an
unwrapped list of variants, or is no item of the list around which the element stands. -/
def Role.IgnoresChild (parent : Option String) (child : Element) : Role κ → Prop
  | .value key => ∀ bound ∈ (family key).fields,
      bound.field.takesRest = false ∧ bound.field.tag.claims parent child = false
  | .wrapper field => ∃ type, field.kind = .list type ∧
      ¬child.Named field.tag.itemName (field.rule.effective parent)

/-- Whether no field for an attribute admits the attribute on an element in `own`. -/
def Role.RejectsAttribute (own : Option String) (attr : Attribute) : Role κ → Prop
  | .value key => ∀ bound ∈ (family key).fields, bound.field.placement = .attr →
      attributeMatches bound.field.tag.name bound.field.rule own attr = false
  | .wrapper _ => True

/-- Whether a field keeps the attributes that are left over. -/
def Role.KeepsLeftover : Role κ → Prop
  | .value key => ∃ bound ∈ (family key).fields, bound.field.placement = .overflow
  | .wrapper _ => False

/-- Whether a field reads the text. -/
def Role.ReadsText : Role κ → Prop
  | .value key => ∃ bound ∈ (family key).fields, bound.field.placement = .text
  | .wrapper _ => False

/-- Whether of two elements, read in the roles, the second is the first with something put
into it that no field reads. -/
inductive AddsForeign (roles : Role κ → Prop) : Element → Element → Prop where
  | child {e child : Element} {front back : List Element} (hchildren : e.children = front ++ back)
      (hforeign : ∀ role, roles role → role.IgnoresChild family e.ns child) :
      AddsForeign roles e { e with children := front ++ child :: back }
  | attr {e : Element} {attr : Attribute} {front back : List Attribute}
      (hattributes : e.attributes = front ++ back)
      (hforeign : ∀ role, roles role →
        role.RejectsAttribute family e.ns attr ∧ ¬role.KeepsLeftover family) :
      AddsForeign roles e { e with attributes := front ++ attr :: back }
  | declaration {e : Element} {declaration : NamespaceDecl} {front back : List NamespaceDecl}
      (hdeclarations : e.declarations = front ++ back) :
      AddsForeign roles e { e with declarations := front ++ declaration :: back }
  | text {e : Element} (text : Option String)
      (hforeign : ∀ role, roles role → ¬role.ReadsText family) :
      AddsForeign roles e { e with text }

/-- Whether of two elements, read in the roles, the second is the first with an attribute
put into it that can only be left over. -/
inductive AddsLeftover (roles : Role κ → Prop) : Element → Element → Prop where
  | attr {e : Element} {attr : Attribute} {front back : List Attribute}
      (hattributes : e.attributes = front ++ back)
      (hforeign : ∀ role, roles role → role.RejectsAttribute family e.ns attr) :
      AddsLeftover roles e { e with attributes := front ++ attr :: back }

/-- The roles in which a child is read on behalf of an element that is read in the roles. -/
def rolesInside (roles : Role κ → Prop) (e child : Element) (inner : Role κ) : Prop :=
  ∃ role, roles role ∧ Gives family role e inner child

/-- Whether of two elements, read in all of the roles, the second is the first with `inner'`
for `inner` at one place, here or inside, where `inner` is read in the inner roles. -/
inductive Exchanges (innerRoles : Role κ → Prop) (inner inner' : Element) :
    (Role κ → Prop) → Element → Element → Prop where
  | here : Exchanges innerRoles inner inner' innerRoles inner inner'
  | inside {roles : Role κ → Prop} {e child child' : Element} {front back : List Element}
      (hchildren : e.children = front ++ child :: back)
      (hinner : Exchanges innerRoles inner inner' (rolesInside family roles e child)
        child child') :
      Exchanges innerRoles inner inner' roles e { e with children := front ++ child' :: back }

end Roles

/-- Whether two records are the same but for related records, here or inside. -/
inductive Record.AlikeBut (R : Record κ → Record κ → Prop) : Record κ → Record κ → Prop where
  | here {record record' : Record κ} (hrecord : R record record') :
      Record.AlikeBut R record record'
  | inside {key : κ} {slots slots' : List (Option (FieldValue κ))}
      (hslots : List.Forall₂ (SlotAlike (Record.AlikeBut R)) slots slots') :
      Record.AlikeBut R (.mk key slots) (.mk key slots')

theorem Record.AlikeBut.refl (R : Record κ → Record κ → Prop) (record : Record κ) :
    Record.AlikeBut R record record := by
  obtain ⟨key, slots⟩ := record
  exact .inside (List.forall₂_same.mpr fun slot _ => .same slot)

/-- Whether two records are read off the two elements at one place, in one of the roles,
and hold the same in all fields that are not for leftover attributes. -/
structure DiffersInLeftover [DecidableEq κ] (family : Family κ) (roles : Role κ → Prop)
    (e e' : Element) (record record' : Record κ) : Prop where
  read : ∃ type path, roles (.value type) ∧
    (readElement family type path e).outcome = .ok record ∧
    (readElement family type path e').outcome = .ok record'
  same : ∀ (index : Nat) (bound : BoundField κ), (family record.type).fields[index]? = some bound →
    bound.field.placement ≠ .overflow → record'.slots[index]? = record.slots[index]?

/-- Whether an error says that a field of one of the roles requires leftover attributes at
`e`, where none is left over. -/
def LacksLeftover (family : Family κ) (roles : Role κ → Prop) (e : Element) (error : Error) :
    Prop :=
  ∃ type path, roles (.value type) ∧ unclaimedAttributes e (family type).tags = [] ∧
    ∃ bound ∈ (family type).fields, bound.field.placement = .overflow ∧
      bound.field.hasDefault = false ∧ error = .decode (missing bound.field.tag path)

/-- Whether in each of the roles all fields that are not for leftover attributes read the same
in two elements, the value as well as the error. -/
def ReadsSameButLeftover [DecidableEq κ] (family : Family κ) (roles : Role κ → Prop)
    (e e' : Element) : Prop :=
  ∀ type, roles (.value type) → ∀ (index : Nat) (bound : BoundField κ),
    (family type).fields[index]? = some bound → bound.field.placement ≠ .overflow → ∀ path,
      readField family type path e' index bound = readField family type path e index bound

section Insertion

variable [DecidableEq κ] {family : Family κ} {key : κ} {role : Role κ} {e e' : Element}
  {attr : Attribute}

/-- A field reads the same where it finds the same. -/
theorem readField_of_found {path : String} {index : Nat} {bound : BoundField κ} (hns : e'.ns = e.ns)
    (hattribute : bound.field.placement = .attr →
      findAttribute? e' bound.field.tag.name bound.field.rule =
        findAttribute? e bound.field.tag.name bound.field.rule)
    (htext : bound.field.placement = .text → e'.text = e.text)
    (hother : bound.field.placement = .overflow →
      unclaimedAttributes e' (family key).tags = unclaimedAttributes e (family key).tags)
    (hchildren : e'.children.filter (considers family key index bound.field e.ns) =
      e.children.filter (considers family key index bound.field e.ns)) :
    readField family key path e' index bound = readField family key path e index bound := by
  rcases placement_cases bound.field with hplace | hplace | hplace | ⟨name, hname⟩
  · simp only [readField, hplace, hattribute hplace]
  · simp only [readField, hplace, Element.ownText?, htext hplace]
  · simp only [readField, hplace, hother hplace]
  · rw [readField_of_childName? hname, readField_of_childName? hname, readChildren, readChildren,
      hns, hchildren]

theorem readAs_of_readField {path : String} (hfamily : IsBound family key)
    (hsame : ∀ index bound, (family key).fields[index]? = some bound →
      readField family key path e' index bound = readField family key path e index bound) :
    readAs family (.value key) path e' = readAs family (.value key) path e := by
  rw [readAs, readAs, readValue, readValue, readElement_of_readField hfamily hsame]

/-- A child that belongs to no field is not looked at. -/
theorem readAs_child {child : Element} {front back : List Element}
    (hfamily : role.IsBound family) (hchildren : e.children = front ++ back)
    (hforeign : role.IgnoresChild family e.ns child) (path : String) :
    readAs family role path { e with children := front ++ child :: back } =
      readAs family role path e := by
  have hfilter : ∀ keeps : Element → Bool, keeps child = false →
      (front ++ child :: back).filter keeps = e.children.filter keeps := by
    intro keeps hdropped
    rw [hchildren, List.filter_append, List.filter_append,
      List.filter_cons_of_neg (Bool.eq_false_iff.mp hdropped)]
  cases role with
  | wrapper field =>
      obtain ⟨type, hkind, hnamed⟩ := hforeign
      have hlists : listsItem field e.ns child = false := by
        simpa [listsItem, hkind] using hnamed
      simp only [readAs, hfilter _ hlists]
  | value key =>
      apply readAs_of_readField hfamily
      intro index bound hbound
      obtain ⟨hrest, hclaims⟩ := hforeign bound (List.mem_of_getElem? hbound)
      have hconsiders : considers family key index bound.field e.ns child = false := by
        rw [considers, hrest]
        exact hclaims
      exact readField_of_found rfl (fun _ => rfl) (fun _ => rfl) (fun _ => rfl)
        (hfilter _ hconsiders)

/-- An attribute that does not fit is not looked for. -/
theorem findAttribute?_insert {name : String} {rule : NamespaceRule} {front back : List Attribute}
    (hattributes : e.attributes = front ++ back)
    (hrejects : attributeMatches name rule e.ns attr = false) :
    findAttribute? { e with attributes := front ++ attr :: back } name rule =
      findAttribute? e name rule := by
  -- both read what they read among the attributes that fit
  have hfits : (front ++ attr :: back).filter (attributeMatches name rule e.ns) =
      e.attributes.filter (attributeMatches name rule e.ns) := by
    rw [hattributes, List.filter_append, List.filter_append,
      List.filter_cons_of_neg (Bool.eq_false_iff.mp hrejects)]
  have hmore := @findAttribute?_filter { e with attributes := front ++ attr :: back } name rule
    (attributeMatches name rule e.ns) (fun _ _ hfits => hfits)
  have hless := @findAttribute?_filter e name rule
    (attributeMatches name rule e.ns) (fun _ _ hfits => hfits)
  rw [← hmore, ← hless]
  exact congrArg (fun attributes => findAttribute? { e with attributes } name rule) hfits

/-- A field that is not for leftover attributes reads the same beside an attribute that no
field admits. -/
theorem readField_attribute {front back : List Attribute}
    (hattributes : e.attributes = front ++ back)
    (hforeign : (Role.value key).RejectsAttribute family e.ns attr) {index : Nat}
    {bound : BoundField κ} (hbound : (family key).fields[index]? = some bound)
    (hplace : bound.field.placement ≠ .overflow) (path : String) :
    readField family key path { e with attributes := front ++ attr :: back } index bound =
      readField family key path e index bound := by
  have hmem := List.mem_of_getElem? hbound
  exact readField_of_found rfl
    (fun hattr => findAttribute?_insert hattributes (hforeign bound hmem hattr))
    (fun _ => rfl) (fun hoverflow => absurd hoverflow hplace) rfl

theorem readsSameButLeftover_of_adds {roles : Role κ → Prop}
    (hadds : AddsLeftover family roles e e') : ReadsSameButLeftover family roles e e' := by
  obtain ⟨hattributes, hforeign⟩ := hadds
  intro type hrole index bound hbound hplace path
  exact readField_attribute hattributes (hforeign (.value type) hrole) hbound hplace path

/-- What is put into an element and belongs to no field is not looked at. -/
theorem readAs_foreign {roles : Role κ → Prop} (hadds : AddsForeign family roles e e')
    (hrole : roles role) (hfamily : role.IsBound family) (path : String) :
    readAs family role path e' = readAs family role path e := by
  cases hadds with
  | child hchildren hforeign => exact readAs_child hfamily hchildren (hforeign role hrole) path
  | attr hattributes hforeign =>
      obtain ⟨hrejects, hkeeps⟩ := hforeign role hrole
      cases role with
      | wrapper field => rfl
      | value key =>
          apply readAs_of_readField hfamily
          intro index bound hbound
          refine readField_attribute hattributes hrejects hbound (fun hplace => ?_) path
          exact hkeeps ⟨bound, List.mem_of_getElem? hbound, hplace⟩
  | declaration _ =>
      cases role with
      | wrapper field => rfl
      | value key =>
          apply readAs_of_readField hfamily
          intro index bound _
          exact readField_of_found rfl (fun _ => rfl) (fun _ => rfl) (fun _ => rfl) rfl
  | text text hforeign =>
      have hreads := hforeign role hrole
      cases role with
      | wrapper field => rfl
      | value key =>
          apply readAs_of_readField hfamily
          intro index bound hbound
          refine readField_of_found rfl (fun _ => rfl) (fun hplace => ?_) (fun _ => rfl) rfl
          exact absurd ⟨bound, List.mem_of_getElem? hbound, hplace⟩ hreads

/-- Where one element is put in the place of another that is read the same, so is what is
around it. -/
theorem Exchanges.readAs_eq {roles innerRoles : Role κ → Prop} {inner inner' : Element}
    (hexchanges : Exchanges family innerRoles inner inner' roles e e')
    (hfamily : ∀ role, roles role → role.IsBound family)
    (hsame : elementKey inner' = elementKey inner)
    (hread : ∀ role, innerRoles role → role.IsBound family → ∀ path,
      readAs family role path inner' = readAs family role path inner) :
    elementKey e' = elementKey e ∧
      ∀ role, roles role → ∀ path, readAs family role path e' = readAs family role path e := by
  induction hexchanges with
  | here => exact ⟨hsame, fun role hrole => hread role hrole (hfamily role hrole)⟩
  | inside hchildren _ ih =>
      obtain ⟨hchild, hinner⟩ := ih fun innerRole ⟨role, hrole, hgives⟩ =>
        (hfamily role hrole).inside hgives
      refine ⟨rfl, fun role hrole path => ?_⟩
      exact readAs_inside (hfamily role hrole) hchildren hchild
        (fun innerRole hgives => hinner innerRole ⟨role, hrole, hgives⟩) path

end Insertion

section Leftover

variable [DecidableEq κ] {family : Family κ} {key : κ} {role : Role κ} {e e' : Element}
  {R : Record κ → Record κ → Prop} {excused : Error → Prop}

/-- An element is read alike where the children of its fields are. -/
theorem readAs_agrees_of_children {children : List Element} (hfamily : IsBound family key)
    (hagree : ∀ index bound, (family key).fields[index]? = some bound → List.Forall₂
      (ReadsAgree (roleOf? family bound.field e.ns) (readAs family) (Record.AlikeBut R) excused)
      (e.children.filter (considers family key index bound.field e.ns))
      (children.filter (considers family key index bound.field e.ns))) (path : String) :
    Agree (List.Forall₂ (Record.AlikeBut R)) excused (readAs family (.value key) path e)
      (readAs family (.value key) path { e with children }) := by
  rw [readAs, readAs, readValue, readValue]
  refine Agree.map (R := Record.AlikeBut R) ?_ fun _ _ hrecord => .cons hrecord .nil
  refine readElement_agrees (S := SlotAlike (Record.AlikeBut R)) hfamily ?_
    fun _ _ hslots => .inside hslots
  intro index bound hbound
  rcases placement_cases bound.field with hplace | hplace | hplace | ⟨name, hname⟩
  · simp only [readField, hplace]
    exact .refl .same _
  · simp only [readField, hplace]
    exact .refl .same _
  · simp only [readField, hplace]
    exact .refl .same _
  · rw [readField_of_childName? hname, readField_of_childName? hname]
    exact readChildren_agrees (by rfl) (hagree index bound hbound) path

theorem readAs_agrees_inside {child child' : Element} {front back : List Element}
    (hfamily : role.IsBound family) (hchildren : e.children = front ++ child :: back)
    (hsame : elementKey child' = elementKey child)
    (hinner : ∀ inner, Gives family role e inner child → ∀ path,
      Agree (List.Forall₂ (Record.AlikeBut R)) excused (readAs family inner path child)
        (readAs family inner path child')) (path : String) :
    Agree (List.Forall₂ (Record.AlikeBut R)) excused (readAs family role path e)
      (readAs family role path { e with children := front ++ child' :: back }) := by
  have hchild : child ∈ e.children := by simp [hchildren]
  have hname : child'.name = child.name := congrArg QName.name hsame
  cases role with
  | wrapper field =>
      apply readEach_agrees
      rw [hchildren]
      apply forall₂_filter_replace (.refl (Record.AlikeBut.refl R)) (listsItem_congr hsame)
      intro hlists
      refine ⟨hname, memberType?_congr hsame, fun type htype path => ?_⟩
      exact hinner (.value type)
        (.item hchild (isItem_of_memberType? hfamily.1 hlists htype)) path
  | value key =>
      apply readAs_agrees_of_children hfamily
      intro index bound hbound
      rw [hchildren]
      apply forall₂_filter_replace (.refl (Record.AlikeBut.refl R)) (considers_congr hsame)
      intro hconsiders
      refine ⟨hname, roleOf?_congr hsame, fun inner hrole path => ?_⟩
      exact hinner inner (.field hbound (takes_of_considers hchild hconsiders hrole)) path

/-- Where one element is put in the place of another that is read alike, so is what is
around it. -/
theorem Exchanges.readAs_agrees {roles innerRoles : Role κ → Prop} {inner inner' : Element}
    (hexchanges : Exchanges family innerRoles inner inner' roles e e')
    (hfamily : ∀ role, roles role → role.IsBound family)
    (hsame : elementKey inner' = elementKey inner)
    (hread : ∀ role, innerRoles role → role.IsBound family → ∀ path,
      Agree (List.Forall₂ (Record.AlikeBut R)) excused (readAs family role path inner)
        (readAs family role path inner')) :
    elementKey e' = elementKey e ∧ ∀ role, roles role → ∀ path,
      Agree (List.Forall₂ (Record.AlikeBut R)) excused (readAs family role path e)
        (readAs family role path e') := by
  induction hexchanges with
  | here => exact ⟨hsame, fun role hrole => hread role hrole (hfamily role hrole)⟩
  | inside hchildren _ ih =>
      obtain ⟨hchild, hinner⟩ := ih fun innerRole ⟨role, hrole, hgives⟩ =>
        (hfamily role hrole).inside hgives
      refine ⟨rfl, fun role hrole path => ?_⟩
      exact readAs_agrees_inside (hfamily role hrole) hchildren hchild
        (fun innerRole hgives => hinner innerRole ⟨role, hrole, hgives⟩) path

omit [DecidableEq κ] in
/-- An attribute that no field admits is left over. -/
theorem mem_unclaimedAttributes {attr : Attribute} (hattr : attr ∈ e.attributes)
    (hforeign : (Role.value key).RejectsAttribute family e.ns attr) :
    attr ∈ unclaimedAttributes e (family key).tags := by
  obtain ⟨index, hindex⟩ := List.mem_iff_getElem?.mp hattr
  refine List.mem_map.mpr ⟨(attr, index), List.mem_filter.mpr
    ⟨List.mem_zipIdx_iff_getElem?.mpr hindex, decide_eq_true fun hclaimed => ?_⟩, rfl⟩
  obtain ⟨tag, htag, hplace, hreads⟩ := mem_claimedIndices.mp hclaimed
  obtain ⟨bound, hbound, rfl⟩ := List.mem_map.mp htag
  obtain ⟨other, hother, hfound⟩ := exists_of_attributeIndex? hreads
  obtain ⟨_, hfits, _⟩ := spec_of_findAttribute? hfound
  rw [hindex, Option.some.injEq] at hother
  have hrejects := hforeign bound hbound hplace
  rw [hother] at hrejects
  exact Bool.false_ne_true (hrejects.symm.trans hfits)

omit [DecidableEq κ] in
/-- What is left over stands under its name. -/
theorem isEmpty_of_mem {attr : Attribute} {attributes : List Attribute}
    (hattr : attr ∈ attributes) : (OtherAttributes.of attributes).isEmpty = false := by
  apply Bool.eq_false_iff.mpr
  intro hempty
  have hnil := List.map_eq_nil_iff.mp (SortedMap.eq_nil_of_isEmpty_ofList hempty)
  rw [hnil] at hattr
  contradiction

/-- With an attribute more that can only be left over, a field for leftover attributes finds
some; before, it may have been the reason why the element could not be read. -/
theorem readElement_agrees_of_leftover {roles : Role κ → Prop} {attr : Attribute}
    {front back : List Attribute} (hattributes : e.attributes = front ++ back)
    (hrole : roles (.value key)) (hfamily : IsBound family key)
    (hrejects : (Role.value key).RejectsAttribute family e.ns attr) (path : String) :
    Agree (fun _ _ => True) (LacksLeftover family roles e)
      (readElement family key path e).outcome
      (readElement family key path { e with attributes := front ++ attr :: back }).outcome := by
  refine readElement_agrees (S := fun _ _ => True) hfamily ?_ fun _ _ _ => trivial
  intro index bound hbound
  by_cases hplace : bound.field.placement = .overflow
  · have hleft : (OtherAttributes.of (unclaimedAttributes
        { e with attributes := front ++ attr :: back } (family key).tags)).isEmpty = false :=
      isEmpty_of_mem (mem_unclaimedAttributes (by simp) hrejects)
    simp only [readField, hplace, hleft]
    by_cases hempty :
        (OtherAttributes.of (unclaimedAttributes e (family key).tags)).isEmpty = true
    · rw [if_pos hempty, absent]
      by_cases hdefault : bound.field.hasDefault = true
      · rw [if_pos hdefault]
        exact .ok trivial
      · rw [if_neg hdefault]
        refine .excused ⟨key, path, hrole, ?_, bound, List.mem_of_getElem? hbound, hplace,
          Bool.eq_false_iff.mpr hdefault, rfl⟩ _
        exact List.map_eq_nil_iff.mp (SortedMap.eq_nil_of_isEmpty_ofList hempty)
    · rw [if_neg hempty]
      exact .ok trivial
  · rw [readField_attribute hattributes hrejects hbound hplace path]
    exact .refl (fun _ => trivial) _

theorem type_of_outcome (hfamily : IsBound family key) {path : String} {record : Record κ}
    (hread : (readElement family key path e).outcome = .ok record) : record.type = key := by
  obtain ⟨slots, _, rfl, _⟩ := exists_slots_of_readElement hfamily hread
  rfl

/-- An element is read alike with an attribute more that can only be left over. -/
theorem readAs_agrees_of_leftover {roles : Role κ → Prop}
    (hadds : AddsLeftover family roles e e') (hrole : roles role) (hfamily : role.IsBound family)
    (path : String) :
    Agree (List.Forall₂ (Record.AlikeBut (DiffersInLeftover family roles e e')))
      (LacksLeftover family roles e) (readAs family role path e)
      (readAs family role path e') := by
  obtain ⟨hattributes, hforeign⟩ := hadds
  rename_i attr front back
  cases role with
  | wrapper field => exact .refl (fun _ => List.forall₂_same.mpr fun record _ => .refl _ record) _
  | value key =>
      have hrejects := hforeign (.value key) hrole
      have hagree := readElement_agrees_of_leftover hattributes hrole hfamily hrejects path
      rw [readAs, readAs, readValue, readValue]
      generalize hfirst : (readElement family key path e).outcome = first at hagree ⊢
      generalize hsecond : (readElement family key path
        { e with attributes := front ++ attr :: back }).outcome = second at hagree ⊢
      cases hagree with
      | error fault => exact .error fault
      | excused hexcused second => exact .excused hexcused _
      | @ok record record' _ =>
          refine .ok (.cons (.here ⟨⟨key, path, hrole, hfirst, hsecond⟩, ?_⟩) .nil)
          intro index bound hbound hplace
          rw [type_of_outcome hfamily hfirst] at hbound
          obtain ⟨slot, hslot, hread⟩ := exists_slot_of_readElement hfamily hfirst hbound
          obtain ⟨slot', hslot', hread'⟩ := exists_slot_of_readElement hfamily hsecond hbound
          rw [readField_attribute hattributes hrejects hbound hplace, hread,
            Except.ok.injEq] at hread'
          rw [hslot, hslot', hread']

end Leftover

theorem elementKey_of_addsForeign {family : Family κ} {roles : Role κ → Prop} {e e' : Element}
    (hadds : AddsForeign family roles e e') : elementKey e' = elementKey e := by
  cases hadds <;> rfl

/-- Markup that belongs to no field has no influence.  A child, an attribute, a declaration
or a text that is put into an element and that no field there asks for, in any of the roles
in which the element is read, leaves what the tree is read as unchanged, the value as well as
the error.  An attribute that only a field for leftover attributes can take changes that
field, and no other: all others read the same, and so does the tree but for that field, unless
it could not be read for lack of leftover attributes. -/
theorem readRoot_foreign [DecidableEq κ] {family : Family κ} {key : κ} {roles : Role κ → Prop}
    {root root' e e' : Element} (hfamily : IsBound family key)
    (hexchanges : Exchanges family roles e e' (fun role => role = .value key) root root') :
    (AddsForeign family roles e e' →
      (readRoot family key root').outcome = (readRoot family key root).outcome) ∧
    (AddsLeftover family roles e e' →
      ReadsSameButLeftover family roles e e' ∧
      Agree (Record.AlikeBut (DiffersInLeftover family roles e e')) (LacksLeftover family roles e)
        (readRoot family key root).outcome (readRoot family key root').outcome) := by
  have hroles : ∀ role : Role κ, role = .value key → role.IsBound family := by
    rintro _ rfl
    exact hfamily
  constructor
  · intro hadds
    obtain ⟨hsame, hread⟩ := hexchanges.readAs_eq hroles (elementKey_of_addsForeign hadds)
      fun role hrole hbound => readAs_foreign hadds hrole hbound
    exact outcome_readRoot_of_readAs hsame (hread (.value key) rfl)
  · intro hadds
    refine ⟨readsSameButLeftover_of_adds hadds, ?_⟩
    have hkey : elementKey e' = elementKey e := by
      cases hadds
      rfl
    obtain ⟨hsame, hread⟩ := hexchanges.readAs_agrees hroles hkey
      fun role hrole hbound => readAs_agrees_of_leftover hadds hrole hbound
    have hname : root'.name = root.name := congrArg QName.name hsame
    have hagree := hread (.value key) rfl ("/" ++ root.name)
    rw [readRoot, readRoot, hname]
    exact hagree.of_map fun _ _ hrecords => (List.forall₂_cons.mp hrecords).1

/-- A section as which the second of the sections in a section is read. -/
def secondSection : Role Unit → Prop :=
  rolesInside sections
    (rolesInside sections (fun role => role = .value ()) (sectionAround labelledSection)
      (besides labelledSection))
    (besides labelledSection) labelledSection

theorem exchanges_sectionAround (inner : Element) :
    Exchanges sections secondSection labelledSection inner (fun role => role = .value ())
      (sectionAround labelledSection) (sectionAround inner) := by
  apply @Exchanges.inside _ _ _ _ _ _ _ _ _ [] [] rfl
  apply @Exchanges.inside _ _ _ _ _ _ _ _ _ [_] [] rfl
  exact .here

/-- It is read as a section, and as nothing else. -/
theorem eq_value_of_secondSection {role : Role Unit} (hrole : secondSection role) :
    role = .value () := by
  have hwrapped : ∀ index < (sections ()).fields.length, ∀ bound ∈ (sections ()).fields[index]?,
      considers sections () index bound.field (some "urn:sections") (besides labelledSection) =
        true → bound.field.placement = .wrappedList := by decide
  obtain ⟨outer, ⟨_, rfl, hgives⟩, hinner⟩ := hrole
  cases hgives with
  | field hbound htakes =>
      have hplace := hwrapped _ (List.getElem?_eq_some_iff.mp hbound).1 _ hbound htakes.considers
      have houter := htakes.roleOf?
      rw [roleOf?_of_wrapped hplace, Option.some.injEq] at houter
      subst houter
      cases hinner
      rfl

theorem readRoot_foreign_sectionAround :
    IsBound sections () ∧
    (∀ inner, Exchanges sections secondSection labelledSection inner
      (fun role => role = .value ()) (sectionAround labelledSection) (sectionAround inner)) ∧
    (readRoot sections () (sectionAround { labelledSection with
        children := [Element.empty "note" (some "urn:notes")] })).outcome =
      (readRoot sections () (sectionAround labelledSection)).outcome ∧
    ReadsSameButLeftover sections secondSection labelledSection
      { labelledSection with attributes := ⟨"class", none, "x"⟩ :: labelledSection.attributes } ∧
    Agree
      (Record.AlikeBut (DiffersInLeftover sections secondSection labelledSection
        { labelledSection with attributes := ⟨"class", none, "x"⟩ :: labelledSection.attributes }))
      (LacksLeftover sections secondSection labelledSection)
      (readRoot sections () (sectionAround labelledSection)).outcome
      (readRoot sections () (sectionAround { labelledSection with
        attributes := ⟨"class", none, "x"⟩ :: labelledSection.attributes })).outcome := by
  have hread := fun inner =>
    readRoot_foreign wellBound_sections.isBound (exchanges_sectionAround inner)
  refine ⟨wellBound_sections.isBound, exchanges_sectionAround, (hread _).1 ?_, (hread _).2 ?_⟩
  · apply @AddsForeign.child _ _ _ _ _ [] [] rfl
    intro role hrole
    rw [eq_value_of_secondSection hrole]
    change ∀ bound ∈ (sections ()).fields, _
    decide
  · apply @AddsLeftover.attr _ _ _ _ _ [] _ rfl
    intro role hrole
    rw [eq_value_of_secondSection hrole]
    change ∀ bound ∈ (sections ()).fields, _
    decide

end Epub.Binding
