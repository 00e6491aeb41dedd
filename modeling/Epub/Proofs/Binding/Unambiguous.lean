/-
Unambiguous families: at every place where an element of a type may stand, each
part of the element belongs to one field only.
-/
import Epub.Proofs.Binding.Attribute
import Epub.Proofs.Binding.Outcome
import Epub.Proofs.Binding.Settled
import Epub.Proofs.Schema.Tag

namespace Epub

namespace Schema

variable {κ : Type}

/-- The types of the elements that a field of this kind holds. -/
def FieldKind.types : FieldKind κ → List κ
  | .element type => [type]
  | .list type => [type]
  | .variants types => types
  | _ => []

/-- Whether the field takes all children that no other field takes. -/
def FieldDecl.takesRest (field : FieldDecl κ) : Bool :=
  match field.kind with
  | .variants _ => field.wrapper.isNone
  | _ => false

end Schema

namespace Binding

open Epub.Schema Epub.Xml

variable {κ : Type}

/-- The resolved name of an item. -/
def ItemName.key (item : ItemName) : QName :=
  ⟨item.name, item.ns⟩

/-- What the elements are called that a field of an element in `ns` makes of its
members. -/
def memberName (family : Family κ) (field : FieldDecl κ) (ns : Option String) :
    κ → ItemName :=
  match field.kind with
  | .element _ => fun _ => ⟨field.tag.name, field.rule.effective ns, field.declarations⟩
  | _ =>
      if field.wrapper.isSome then itemNaming family field field.tag (field.rule.effective ns) []
      else itemNaming family field field.tag ns field.declarations

/-- The resolved names of these elements. -/
def memberKeys (family : Family κ) (field : FieldDecl κ) (ns : Option String) : List QName :=
  field.kind.types.map fun type => (memberName family field ns type).key

/-- The resolved names of the children that a field gives to an element in `ns`. -/
def childKeys (family : Family κ) (field : FieldDecl κ) (ns : Option String) : List QName :=
  match field.placement with
  | .childElement => memberKeys family field ns
  | .wrappedList => [⟨field.tag.wrapperName, field.rule.effective ns⟩]
  | .unwrappedList => memberKeys family field ns
  | _ => []

/-- Whether an attribute of an element in `ns` is one that the field reads. -/
def Reads (field : FieldDecl κ) (ns : Option String) (attr : Attribute) : Prop :=
  field.placement = .attr ∧ attributeMatches field.tag.name field.rule ns attr = true

instance (field : FieldDecl κ) (ns : Option String) (attr : Attribute) :
    Decidable (Reads field ns attr) :=
  inferInstanceAs (Decidable (_ ∧ _))

/-- Every part of an element in `ns` belongs to one field of its type. -/
structure UnambiguousAt (family : Family κ) (key : κ) (ns : Option String) : Prop where
  tags : ∃ tags, (family key).descriptor.tags = .ok tags
  faithful : ∀ bound ∈ (family key).fields, bound.Faithful
  attributes : (family key).fields.Pairwise fun first second =>
    ∀ attr, ¬(Reads first.field ns attr ∧ Reads second.field ns attr)
  children : ((family key).fields.flatMap fun bound => childKeys family bound.field ns).Nodup
  items : ∀ bound ∈ (family key).fields, bound.field.placement = .wrappedList →
    (memberKeys family bound.field ns).Nodup
  rest : (family key).fields.Pairwise fun first second =>
    ¬(first.field.takesRest = true ∧ second.field.takesRest = true)
  overflow : (family key).fields.Pairwise fun first second =>
    ¬(first.field.kind = .overflow ∧ second.field.kind = .overflow)

instance (bound : BoundField κ) [DecidableEq κ] : Decidable bound.Faithful :=
  inferInstanceAs (Decidable (_ = _))

/-- Fields of different names read different attributes. -/
theorem pairwise_reads_of_names {fields : List (BoundField κ)}
    (hnames : fields.Pairwise fun first second =>
      ¬(first.field.placement = .attr ∧ second.field.placement = .attr ∧
        first.field.tag.name = second.field.tag.name)) (ns : Option String) :
    fields.Pairwise fun first second =>
      ∀ attr, ¬(Reads first.field ns attr ∧ Reads second.field ns attr) := by
  refine hnames.imp fun hnot attr hboth => hnot ⟨hboth.1.1, hboth.2.1, ?_⟩
  have hfirst := attributeMatches_iff.mp hboth.1.2
  have hsecond := attributeMatches_iff.mp hboth.2.2
  exact hfirst.1.symm.trans hsecond.1

/-- The types and namespaces of the elements that may stand inside an element of
the type `key` in `ns`, at any depth, and of this element. -/
inductive Reaches (family : Family κ) (key : κ) (ns : Option String) :
    κ → Option String → Prop where
  | here : Reaches family key ns key ns
  | inside {type member : κ} {inner : Option String} {bound : BoundField κ}
      (hreaches : Reaches family key ns type inner) (hbound : bound ∈ (family type).fields)
      (hmember : member ∈ bound.field.kind.types) :
      Reaches family key ns member (memberName family bound.field inner member).ns

/-- No element that may stand inside, and not this one, is ambiguous. -/
def Unambiguous (family : Family κ) (key : κ) (ns : Option String) : Prop :=
  ∀ type inner, Reaches family key ns type inner → UnambiguousAt family type inner

theorem Reaches.trans {family : Family κ} {key type member : κ} {ns inner last : Option String}
    (hfirst : Reaches family key ns type inner)
    (hsecond : Reaches family type inner member last) : Reaches family key ns member last := by
  induction hsecond with
  | here => exact hfirst
  | inside _ hbound hmember ih => exact .inside ih hbound hmember

theorem Unambiguous.here {family : Family κ} {key : κ} {ns : Option String}
    (hfamily : Unambiguous family key ns) : UnambiguousAt family key ns :=
  hfamily key ns .here

theorem Unambiguous.inside {family : Family κ} {key member : κ} {ns : Option String}
    {bound : BoundField κ} (hfamily : Unambiguous family key ns)
    (hbound : bound ∈ (family key).fields) (hmember : member ∈ bound.field.kind.types) :
    Unambiguous family member (memberName family bound.field ns member).ns :=
  fun type inner hreaches =>
    hfamily type inner (Reaches.trans (.inside .here hbound hmember) hreaches)

/-- Where each type has its place, and the members of an element at its place stand at
theirs, all elements inside stand at the places of their types. -/
theorem Reaches.eq_place {family : Family κ} (place : κ → Option String)
    (hmembers : ∀ key, ∀ bound ∈ (family key).fields, ∀ member ∈ bound.field.kind.types,
      (memberName family bound.field (place key) member).ns = place member)
    {key type : κ} {inner : Option String}
    (hreaches : Reaches family key (place key) type inner) : inner = place type := by
  induction hreaches with
  | here => rfl
  | @inside type member inner bound _ hbound hmember ih =>
      rw [ih]
      exact hmembers type bound hbound member hmember

/-- Whether an attribute can be told from those of the fields: a field that would
read it has an unqualified attribute to read, and this one is qualified. -/
def IsApart (ns : Option String) (rows : List (BoundField κ × Option (FieldValue κ)))
    (attr : Attribute) : Prop :=
  ∀ row ∈ rows, Reads row.1.field ns attr →
    attr.ns ≠ none ∧ row.1.field.rule.forAttribute = none ∧ row.2 ≠ none

instance [DecidableEq κ] (ns : Option String)
    (rows : List (BoundField κ × Option (FieldValue κ))) (attr : Attribute) :
    Decidable (IsApart ns rows attr) :=
  inferInstanceAs (Decidable (∀ row ∈ rows, _ → _))

/-- Whether a settled record of an element in `ns` lacks nothing: a slot is empty
only if its field may be absent, and leftover attributes belong to no field. -/
inductive Record.Complete (family : Family κ) : Option String → Record κ → Prop where
  | mk {ns : Option String} {key : κ} {slots : List (Option (FieldValue κ))}
      (hdefault : ∀ row ∈ (family key).fields.zip slots,
        row.2 = none → row.1.field.hasDefault = true)
      (hother : ∀ row ∈ (family key).fields.zip slots, ∀ entry ∈ slotEntries row.2,
        IsApart ns ((family key).fields.zip slots) (entryAttribute entry))
      (hmembers : ∀ row ∈ (family key).fields.zip slots, ∀ member ∈ slotMembers row.2,
        Record.Complete family (memberName family row.1.field ns member.type).ns member) :
      Record.Complete family ns (.mk key slots)

end Binding

end Epub
