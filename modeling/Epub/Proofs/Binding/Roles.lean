/-
Roles of children.  Whether a field considers a child, and as what it then reads it,
depends on the name of the child alone, and the children that a field reads are those that
it considers.
-/
import Epub.Proofs.Binding.Failing

namespace Epub.Binding

open Epub.Schema Epub.Xml

variable {κ : Type}

/-- Whether the field at `index` considers a child of an element in `parent`: the child
bears the name of what the field reads, or is left to a list of variants by all other
fields. -/
def considers (family : Family κ) (key : κ) (index : Nat) (field : FieldDecl κ)
    (parent : Option String) (child : Element) : Bool :=
  if field.takesRest then !claimedByOther (family key).tags (some index) parent child
  else field.tag.claims parent child

/-- Whether the element around a list has a child as an item.  In a list of variants every
child is one. -/
def listsItem (field : FieldDecl κ) (parent : Option String) (child : Element) : Bool :=
  match field.kind with
  | .list _ => decide (child.Named field.tag.itemName (field.rule.effective parent))
  | _ => true

/-- The type of a child that the field reads.  Variants are told by their names. -/
def memberType? (family : Family κ) (field : FieldDecl κ) (parent : Option String)
    (child : Element) : Option κ :=
  match field.kind with
  | .element type => some type
  | .list type => some type
  | .variants types =>
      types.find? fun type => (family type).descriptor.isVariant parent child
  | _ => none

/-- The role of a child that the field considers. -/
def roleOf? (family : Family κ) (field : FieldDecl κ) (parent : Option String)
    (child : Element) : Option (Role κ) :=
  if field.placement = .wrappedList then some (.wrapper field)
  else (memberType? family field parent child).map .value

/-- The types of what is read in a role. -/
def Role.types : Role κ → List κ
  | .value type => [type]
  | .wrapper field => field.kind.types

variable {family : Family κ} {key : κ} {index : Nat} {field : FieldDecl κ}
  {parent : Option String} {e child other : Element}

section Names

theorem named_congr (hsame : elementKey other = elementKey child) (name : String)
    (ns : Option String) : other.Named name ns ↔ child.Named name ns := by
  have hother := @named_iff_elementKey other ⟨name, ns⟩
  have hchild := @named_iff_elementKey child ⟨name, ns⟩
  rw [hother, hchild, hsame]

theorem decide_named_congr (hsame : elementKey other = elementKey child) (name : String)
    (ns : Option String) : decide (other.Named name ns) = decide (child.Named name ns) :=
  decide_eq_decide.mpr (named_congr hsame name ns)

theorem claimedByOther_congr (hsame : elementKey other = elementKey child) (tags : List Tag)
    (index : Option Nat) (parent : Option String) :
    claimedByOther tags index parent other = claimedByOther tags index parent child := by
  simp only [claimedByOther, Tag.claims, decide_named_congr hsame]

theorem considers_congr (hsame : elementKey other = elementKey child) :
    considers family key index field parent other =
      considers family key index field parent child := by
  simp only [considers, Tag.claims, decide_named_congr hsame, claimedByOther_congr hsame]

theorem listsItem_congr (hsame : elementKey other = elementKey child) :
    listsItem field parent other = listsItem field parent child := by
  simp only [listsItem, decide_named_congr hsame]

theorem memberType?_congr (hsame : elementKey other = elementKey child) :
    memberType? family field parent other = memberType? family field parent child := by
  simp only [memberType?, Descriptor.isVariant, decide_named_congr hsame]

theorem roleOf?_congr (hsame : elementKey other = elementKey child) :
    roleOf? family field parent other = roleOf? family field parent child := by
  simp only [roleOf?, memberType?_congr hsame]

end Names

section Items

theorem isItem_of_memberType? {type : κ} (hlist : field.kind.isList = true)
    (hlists : listsItem field parent child = true)
    (hmember : memberType? family field parent child = some type) :
    IsItem family field parent child type := by
  cases hkind : field.kind with
  | list item =>
      simp only [listsItem, hkind, decide_eq_true_eq] at hlists
      simp only [memberType?, hkind, Option.some.injEq] at hmember
      exact .named (hmember ▸ hkind) hlists
  | variants types =>
      simp only [memberType?, hkind] at hmember
      exact .variant hkind hmember
  | value => simp [hkind, FieldKind.isList] at hlist
  | element type => simp [hkind, FieldKind.isList] at hlist
  | overflow => simp [hkind, FieldKind.isList] at hlist

theorem IsItem.listsItem {type : κ} (hitem : IsItem family field parent child type) :
    listsItem field parent child = true := by
  cases hitem with
  | named hkind hnamed => simpa [Binding.listsItem, hkind] using hnamed
  | variant hkind _ => simp [Binding.listsItem, hkind]

theorem IsItem.memberType? {type : κ} (hitem : IsItem family field parent child type) :
    memberType? family field parent child = some type := by
  cases hitem with
  | named hkind _ => simp [Binding.memberType?, hkind]
  | variant hkind hfound => simpa [Binding.memberType?, hkind] using hfound

end Items

section Children

/-- A field considers a child by its name unless it takes the rest. -/
theorem considers_iff_named {name : String} (hrest : field.takesRest = false)
    (hname : field.tag.childName? = some name) :
    considers family key index field parent child = true ↔
      child.Named name (field.rule.effective parent) := by
  simp only [considers, hrest, Tag.claims, hname, Option.any_some, Bool.false_eq_true,
    ↓reduceIte, decide_eq_true_eq]
  rfl

theorem filter_considers {name : String} (hrest : field.takesRest = false)
    (hname : field.tag.childName? = some name) :
    e.children.filter (considers family key index field e.ns) =
      e.childrenNamed name (field.rule.effective e.ns) := by
  simp only [Element.childrenNamed]
  apply List.filter_congr
  intro child _
  rw [Bool.eq_iff_iff, considers_iff_named hrest hname, decide_eq_true_eq]

theorem considers_iff_free (hrest : field.takesRest = true) :
    considers family key index field parent child = true ↔
      claimedByOther (family key).tags (some index) parent child = false := by
  simp only [considers, hrest, ↓reduceIte, Bool.not_eq_true']

/-- A single child is told to be what the field holds. -/
theorem roleOf?_of_element {type : κ} (hkind : field.kind = .element type)
    (parent : Option String) (child : Element) :
    roleOf? family field parent child = some (.value type) := by
  have hplace : field.placement ≠ .wrappedList := by simp [FieldDecl.placement, hkind]
  simp [roleOf?, hplace, memberType?, hkind]

theorem roleOf?_of_wrapped (hplace : field.placement = .wrappedList) (parent : Option String)
    (child : Element) : roleOf? family field parent child = some (.wrapper field) := by
  simp [roleOf?, hplace]

theorem roleOf?_of_unwrapped (hplace : field.placement = .unwrappedList)
    (parent : Option String) (child : Element) :
    roleOf? family field parent child = (memberType? family field parent child).map .value := by
  simp [roleOf?, hplace]

/-- An unwrapped list considers the items that it lists and no other field has. -/
theorem considers_iff_item (hplace : field.placement = .unwrappedList) :
    considers family key index field parent child = true ↔
      (∀ types, field.kind = .variants types →
        claimedByOther (family key).tags (some index) parent child = false) ∧
      listsItem field parent child = true := by
  have hlist := (list_of_unwrapped hplace).1
  cases hkind : field.kind with
  | list type =>
      have hrest : field.takesRest = false := by simp [FieldDecl.takesRest, hkind]
      have hname : field.tag.childName? = some field.tag.itemName := by
        simp [Tag.childName?, FieldDecl.tag, hplace, Tag.itemName]
      rw [considers_iff_named hrest hname]
      simp [listsItem, hkind]
  | variants types =>
      rw [considers_iff_free (takesRest_of_unwrapped hplace hkind)]
      simp [listsItem, hkind]
  | value => simp [hkind, FieldKind.isList] at hlist
  | element type => simp [hkind, FieldKind.isList] at hlist
  | overflow => simp [hkind, FieldKind.isList] at hlist

theorem takesRest_of_wrapped (hplace : field.placement = .wrappedList) :
    field.takesRest = false := by
  have hwrapper := (list_of_wrapped hplace).2
  cases hkind : field.kind <;>
    simp [FieldDecl.takesRest, hkind, Option.isNone_eq_false_iff.mpr hwrapper]

/-- Only fields for children consider any. -/
theorem not_considers (hnone : field.tag.childName? = none) :
    considers family key index field parent child = false := by
  have hrest : field.takesRest = false := by
    cases hkind : field.kind with
    | variants types =>
        by_cases hwrapper : field.wrapper.isSome = true
        · simp [FieldDecl.takesRest, hkind, Option.isNone_eq_false_iff.mpr hwrapper]
        · simp [Tag.childName?, FieldDecl.tag, FieldDecl.placement, hkind, hwrapper] at hnone
    | value => simp [FieldDecl.takesRest, hkind]
    | element type => simp [FieldDecl.takesRest, hkind]
    | list type => simp [FieldDecl.takesRest, hkind]
    | overflow => simp [FieldDecl.takesRest, hkind]
  simp [considers, hrest, Tag.claims, hnone]

theorem exists_childName?_of_considers
    (hconsiders : considers family key index field parent child = true) :
    ∃ name, field.tag.childName? = some name := by
  apply Option.ne_none_iff_exists'.mp
  intro hnone
  rw [not_considers hnone] at hconsiders
  contradiction

/-- A child that a field considers, and of which it can tell the role, is one that it
reads. -/
theorem takes_of_considers {role : Role κ} (hchild : child ∈ e.children)
    (hconsiders : considers family key index field e.ns child = true)
    (hrole : roleOf? family field e.ns child = some role) :
    Takes family key index field e role child := by
  obtain ⟨name, hname⟩ := exists_childName?_of_considers hconsiders
  cases hplace : field.placement with
  | childElement =>
      obtain ⟨type, hkind⟩ := element_of_placement hplace
      have hrest : field.takesRest = false := by simp [FieldDecl.takesRest, hkind]
      have hname : field.tag.childName? = some field.tag.name := by
        simp [Tag.childName?, FieldDecl.tag, hplace]
      rw [roleOf?_of_element hkind, Option.some.injEq] at hrole
      subst hrole
      exact .element hkind hchild ((considers_iff_named hrest hname).mp hconsiders)
  | wrappedList =>
      have hname : field.tag.childName? = some field.tag.wrapperName := by
        simp [Tag.childName?, FieldDecl.tag, hplace, Tag.wrapperName]
      rw [roleOf?_of_wrapped hplace, Option.some.injEq] at hrole
      subst hrole
      exact .wrapper hplace hchild
        ((considers_iff_named (takesRest_of_wrapped hplace) hname).mp hconsiders)
  | unwrappedList =>
      rw [roleOf?_of_unwrapped hplace] at hrole
      obtain ⟨type, hmember, rfl⟩ := Option.map_eq_some_iff.mp hrole
      obtain ⟨hfree, hlists⟩ := (considers_iff_item hplace).mp hconsiders
      exact .item hplace hchild hfree
        (isItem_of_memberType? (list_of_unwrapped hplace).1 hlists hmember)
  | attr => simp [Tag.childName?, FieldDecl.tag, hplace] at hname
  | text => simp [Tag.childName?, FieldDecl.tag, hplace] at hname
  | overflow => simp [Tag.childName?, FieldDecl.tag, hplace] at hname

theorem Takes.considers {role : Role κ} (htakes : Takes family key index field e role child) :
    considers family key index field e.ns child = true := by
  cases htakes with
  | element hkind _ hnamed =>
      have hrest : field.takesRest = false := by simp [FieldDecl.takesRest, hkind]
      have hname : field.tag.childName? = some field.tag.name := by
        simp [Tag.childName?, FieldDecl.tag, FieldDecl.placement, hkind]
      exact (considers_iff_named hrest hname).mpr hnamed
  | wrapper hplace _ hnamed =>
      have hname : field.tag.childName? = some field.tag.wrapperName := by
        simp [Tag.childName?, FieldDecl.tag, hplace, Tag.wrapperName]
      exact (considers_iff_named (takesRest_of_wrapped hplace) hname).mpr hnamed
  | item hplace _ hfree hitem =>
      exact (considers_iff_item hplace).mpr ⟨hfree, hitem.listsItem⟩

theorem Takes.roleOf? {role : Role κ} (htakes : Takes family key index field e role child) :
    roleOf? family field e.ns child = some role := by
  cases htakes with
  | element hkind _ _ => exact roleOf?_of_element hkind _ _
  | wrapper hplace _ _ => exact roleOf?_of_wrapped hplace _ _
  | item hplace _ _ hitem => rw [roleOf?_of_unwrapped hplace, hitem.memberType?, Option.map_some]

/-- What a field reads in a role is of one of its types. -/
theorem Takes.mem_types {role : Role κ} (htakes : Takes family key index field e role child)
    {type : κ} (htype : type ∈ role.types) : type ∈ field.kind.types := by
  cases htakes with
  | element hkind _ _ => simpa [hkind, FieldKind.types, Role.types] using htype
  | wrapper _ _ _ => exact htype
  | item _ _ _ hitem => exact List.mem_singleton.mp htype ▸ hitem.type_mem

end Children

end Epub.Binding
