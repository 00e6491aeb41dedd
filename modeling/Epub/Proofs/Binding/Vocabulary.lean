/-
Vocabularies: which elements may stand in a document, and which attributes on them.  What
is written for a record keeps to a vocabulary exactly when the record does.
-/
import Epub.Proofs.Binding.Outline

namespace Epub.Binding

open Epub.Schema Epub.Xml

variable {κ : Type}

/-- Elements by their names, and the attributes of each element by theirs. -/
structure Vocabulary where
  hasElement : QName → Bool
  hasAttribute : QName → QName → Bool

namespace Vocabulary

/-- Whether an element and its attributes belong to the vocabulary. -/
def Knows (vocabulary : Vocabulary) (e : Element) : Prop :=
  vocabulary.hasElement (elementKey e) = true ∧
    ∀ attr ∈ e.attributes, vocabulary.hasAttribute (elementKey e) attr.key = true

/-- Whether a record that is written under a name, and every record inside it, uses nothing
but elements and attributes of the vocabulary. -/
inductive Admits (vocabulary : Vocabulary) (family : Family κ) : QName → Record κ → Prop where
  | mk {name : QName} {type : κ} {slots : List (Option (FieldValue κ))}
      (helement : vocabulary.hasElement name = true)
      (hattributes : ∀ row ∈ (family type).fields.zip slots, ∀ key ∈ row.1.keys row.2,
        vocabulary.hasAttribute name key = true)
      (hwrappers : ∀ row ∈ (family type).fields.zip slots,
        row.1.field.placement = .wrappedList → row.1.skips row.2 = false →
          vocabulary.hasElement
            ⟨row.1.field.tag.wrapperName, row.1.field.rule.effective name.ns⟩ = true)
      (hmembers : ∀ row ∈ (family type).fields.zip slots, ∀ member ∈ slotMembers row.2,
        Admits vocabulary family (memberName family row.1.field name.ns member.type).key member) :
      Admits vocabulary family name (.mk type slots)

variable {vocabulary : Vocabulary} {family : Family κ} {name : QName}

/-- An element belongs to the vocabulary if its name and the keys of its rows do. -/
theorem knows_iff {record : Record κ} {rows : List (Row κ)} {e : Element}
    (houtlined : Outlined family name record rows e) :
    vocabulary.Knows e ↔ vocabulary.hasElement name = true ∧
      ∀ row ∈ (family record.type).fields.zip record.slots, ∀ key ∈ row.1.keys row.2,
        vocabulary.hasAttribute name key = true := by
  rw [Knows, houtlined.name]
  refine and_congr_right fun _ => ⟨?_, ?_⟩
  · rintro hknown pair hpair key hkey
    obtain ⟨row, hrow, hbound, hslot⟩ := houtlined.exists_row hpair
    rw [← hbound, ← hslot] at hkey
    obtain ⟨attr, hattr, rfl⟩ := List.mem_map.mp ((houtlined.keys key).mpr ⟨row, hrow, hkey⟩)
    exact hknown attr hattr
  · rintro hkeys attr hattr
    obtain ⟨row, hrow, hkey⟩ := (houtlined.keys attr.key).mp (List.mem_map_of_mem hattr)
    exact hkeys _ (houtlined.mem_zip hrow) attr.key hkey

/-- What is written keeps to the vocabulary exactly when the record does.  The induction is
on the record; each of its members is written somewhere inside. -/
theorem everywhere_knows_iff {record : Record κ} (htyped : record.WellTyped family)
    (hfamily : WellBound family record.type) {declarations : List NamespaceDecl} {e : Element}
    (hwrite : writeElement family record name.name name.ns declarations = .ok e) :
    e.Everywhere vocabulary.Knows ↔ vocabulary.Admits family name record := by
  have hinner := htyped
  induction htyped generalizing name declarations e with
  | @mk key slots hslots hmembers ih =>
      obtain ⟨rows, houtlined⟩ := exists_outlined hinner hfamily hwrite
      have hmember : ∀ row ∈ rows, ∀ member ∈ slotMembers row.slot, ∀ child,
          WritesChild family (memberName family row.bound.field name.ns) member child →
            (child.Everywhere vocabulary.Knows ↔ vocabulary.Admits family
              (memberName family row.bound.field name.ns member.type).key member) := by
        intro row hrow member hmember child hchild
        have hzip := houtlined.mem_zip hrow
        have hslot := (List.of_mem_zip hzip).2
        have htype := (List.forall₂_zip hslots hzip).type_mem hmember
        have hwrites : writeElement family member
            (memberName family row.bound.field name.ns member.type).key.name
            (memberName family row.bound.field name.ns member.type).key.ns
            (memberName family row.bound.field name.ns member.type).declarations = .ok child :=
          hchild
        exact ih row.slot hslot member hmember (hfamily.inside (List.of_mem_zip hzip).1 htype)
          hwrites (hmembers row.slot hslot member hmember)
      constructor
      · intro heverywhere
        obtain ⟨helement, hattributes⟩ := (knows_iff houtlined).mp heverywhere.here
        have hpart : ∀ row ∈ rows, ∀ child ∈ row.part.children,
            child.Everywhere vocabulary.Knows := by
          intro row hrow child hchild
          refine heverywhere.inside ?_
          rw [houtlined.children]
          exact List.mem_flatMap.mpr ⟨row, hrow, hchild⟩
        refine .mk helement hattributes ?_ ?_
        · intro pair hpair hplace hskips
          obtain ⟨row, hrow, hbound, hslot⟩ := houtlined.exists_row hpair
          rw [← hbound] at hplace ⊢
          rw [← hbound, ← hslot] at hskips
          obtain ⟨items, hwrapper⟩ := (houtlined.wrote row hrow).exists_wrapper hplace hskips
          have hknown := (hpart row hrow _ hwrapper).here.1
          simpa [wrapperElement, elementKey, Element.empty] using hknown
        · intro pair hpair member hmem
          obtain ⟨row, hrow, hbound, hslot⟩ := houtlined.exists_row hpair
          rw [← hslot] at hmem
          rw [← hbound]
          obtain ⟨child, hwrites, hchild | ⟨wrapper, hwrapper, hchild⟩⟩ :=
            (houtlined.wrote row hrow).exists_child hmem
          · exact (hmember row hrow member hmem child hwrites).mp (hpart row hrow child hchild)
          · exact (hmember row hrow member hmem child hwrites).mp
              ((hpart row hrow wrapper hwrapper).inside hchild)
      · intro hadmits
        cases hadmits with
        | mk helement hattributes hwrappers hmembers =>
            refine ⟨(knows_iff houtlined).mpr ⟨helement, hattributes⟩, fun child hchild => ?_⟩
            rw [houtlined.children] at hchild
            obtain ⟨row, hrow, hpart⟩ := List.mem_flatMap.mp hchild
            have hzip := houtlined.mem_zip hrow
            refine (houtlined.wrote row hrow).everywhere ?_ ?_ child hpart
            · intro items hplace hskips
              have hwrapper := hwrappers _ hzip hplace hskips
              refine ⟨?_, ?_⟩
              · simpa [wrapperElement, elementKey, Element.empty] using hwrapper
              · simp [wrapperElement, Element.empty]
            · intro member hmem child hwrites
              exact (hmember row hrow member hmem child hwrites).mpr
                (hmembers _ hzip member hmem)

end Vocabulary

end Epub.Binding
