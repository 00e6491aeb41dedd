/-
The tables of the EPUB documents are unambiguous: an element of each type stands in
one namespace only, and there each of its parts belongs to one field.
-/
import Epub.Model.Table
import Epub.Proofs.Binding.Legible

namespace Epub.Model

open Epub.Binding Epub.Schema Epub.Xml

/-- The namespace in which the elements of a type stand in a document. -/
def ElementType.place : ElementType → Option String
  | .container => some containerNamespace
  | .rootfile => some containerNamespace
  | .containerLink => some containerNamespace
  | .identifier => some dcNamespace
  | .text _ => some dcNamespace
  | .language => some dcNamespace
  | .agent _ => some dcNamespace
  | .date => some dcNamespace
  | _ => some opfNamespace

/-- All types of elements. -/
def ElementType.all : List ElementType :=
  [.container, .rootfile, .containerLink, .package, .metadata, .identifier,
    .text .title, .text .coverage, .text .description, .text .format, .text .publisher,
    .text .relation, .text .rights, .text .source, .text .subject, .text .type, .language,
    .agent .creator, .agent .contributor, .date, .metaInfo, .link, .manifest, .item, .spine,
    .itemref, .guide, .reference, .bindings, .mediaType, .collection, .collectionLink]

theorem ElementType.mem_all (type : ElementType) : type ∈ all := by
  cases type with
  | text element => cases element <;> decide
  | agent element => cases element <;> decide
  | _ => decide

/-- The members of a field stand where the elements of their types stand. -/
theorem memberName_place : ∀ type ∈ ElementType.all, ∀ bound ∈ (family type).fields,
    ∀ member ∈ bound.field.kind.types,
      (memberName family bound.field type.place member).ns = member.place := by
  decide +kernel

theorem tags_isOk : ∀ type ∈ ElementType.all,
    (family type).descriptor.tags.toOption.isSome = true := by
  decide +kernel

/-- No two fields of a table share an attribute name, a text, or a kind of which
there can be one only. -/
theorem fields_apart : ∀ type ∈ ElementType.all,
    (family type).fields.Pairwise fun first second =>
      ¬(first.field.placement = .attr ∧ second.field.placement = .attr ∧
        first.field.tag.name = second.field.tag.name) ∧
      ¬(first.field.takesRest = true ∧ second.field.takesRest = true) ∧
      ¬(first.field.kind = .overflow ∧ second.field.kind = .overflow) := by
  decide +kernel

theorem children_apart : ∀ type ∈ ElementType.all,
    ((family type).fields.flatMap fun bound =>
      childKeys family bound.field type.place).Nodup ∧
    ∀ bound ∈ (family type).fields, bound.field.placement = .wrappedList →
      (memberKeys family bound.field type.place).Nodup := by
  decide +kernel

/-- Every field is taken as its kind asks. -/
theorem fields_faithful : ∀ type ∈ ElementType.all,
    ∀ bound ∈ (family type).fields, bound.Faithful := by
  decide +kernel

theorem unambiguousAt_place (type : ElementType) : UnambiguousAt family type type.place := by
  have hapart := fields_apart type type.mem_all
  obtain ⟨hchildren, hitems⟩ := children_apart type type.mem_all
  refine ⟨?_, fields_faithful type type.mem_all,
    pairwise_reads_of_names (hapart.imp fun h => h.1) _, hchildren, hitems,
    hapart.imp fun h => h.2.1, hapart.imp fun h => h.2.2⟩
  have hok := tags_isOk type type.mem_all
  cases htags : (family type).descriptor.tags with
  | ok tags => exact ⟨tags, rfl⟩
  | error fault => simp [htags, Except.toOption] at hok

/-- Every element that stands inside an element at its place stands at its own. -/
theorem place_of_reaches {key type : ElementType} {inner : Option String}
    (hreaches : Reaches family key key.place type inner) : inner = type.place :=
  hreaches.eq_place ElementType.place fun type => memberName_place type type.mem_all

/-- The tables leave no part of an element in doubt. -/
theorem unambiguous_place (key : ElementType) : Unambiguous family key key.place := by
  intro type inner hreaches
  rw [place_of_reaches hreaches]
  exact unambiguousAt_place type

theorem names_proper : ∀ type ∈ ElementType.all, ∀ bound ∈ (family type).fields,
    (bound.field.placement = .attr →
      QName.IsAttributeName ⟨bound.field.tag.name, bound.field.rule.forAttribute⟩) ∧
    (bound.field.placement = .wrappedList →
      ItemName.IsProper ⟨bound.field.tag.wrapperName, bound.field.rule.effective type.place,
        bound.field.declarations⟩) ∧
    ∀ member ∈ bound.field.kind.types,
      (memberName family bound.field type.place member).IsProper := by
  decide +kernel

/-- No element holds a text beside children. -/
theorem text_alone : ∀ type ∈ ElementType.all, ∀ bound ∈ (family type).fields,
    bound.field.isText = true → ∀ other ∈ (family type).fields,
      childKeys family other.field type.place = [] := by
  decide +kernel

/-- The names and declarations of the tables can be written. -/
theorem legible_place (key : ElementType) : Legible family key key.place := by
  intro type inner hreaches
  rw [place_of_reaches hreaches]
  have hnames := names_proper type type.mem_all
  exact ⟨fun bound hbound => (hnames bound hbound).1, fun bound hbound => (hnames bound hbound).2.1,
    fun bound hbound => (hnames bound hbound).2.2, text_alone type type.mem_all⟩

end Epub.Model
