/-
Writing and reading undo each other.  A complete record of an unambiguous family
can be written, and what is written is read as the record, settled.
-/
import Epub.Proofs.Binding.Reading

namespace Epub.Binding

open Epub.Schema Epub.Xml

variable {κ : Type}

/-- The members of a complete record are complete where they stand. -/
theorem Record.Complete.member {family : Family κ} {ns : Option String} {key : κ}
    {slots : List (Option (FieldValue κ))}
    (hcomplete : ((Record.mk key slots).settle family).Complete family ns)
    {pair : BoundField κ × Option (FieldValue κ)} (hpair : pair ∈ (family key).fields.zip slots)
    {member : Record κ} (hmember : member ∈ slotMembers pair.2) :
    (member.settle family).Complete family (memberName family pair.1.field ns member.type).ns := by
  rw [Record.settle] at hcomplete
  cases hcomplete with
  | mk _ _ hmembers =>
      rw [zip_settleSlots] at hmembers
      have hsettled := hmembers _ (List.mem_map_of_mem hpair) (member.settle family)
        (settle_mem_slotMembers hmember)
      rwa [settle_type] at hsettled

theorem assembled_assemble (rows : List (Row κ)) (name : String) (ns : Option String)
    (declarations : List NamespaceDecl) :
    Assembled ns rows (assemble ((Element.empty name ns).declareAll declarations)
      (rows.map Row.part)) := by
  constructor
  · simp [assemble, Element.empty]
  · simp [assemble, Element.empty, List.flatMap_map]
  · simp [assemble, Element.empty, List.flatMap_map]
  · simp only [assemble, Element.declareAll_text, Element.empty, List.filterMap_map, Option.or_none]
    rfl

/-- An element put together from the parts of a record is read as that record. -/
theorem readElement_of_laid [DecidableEq κ] {family : Family κ} {ns : Option String} {key : κ}
    {rows : List (Row κ)} {e : Element} (hfamily : UnambiguousAt family key ns)
    (hfields : rows.map Row.bound = (family key).fields) (hlaid : Laid family ns rows)
    (he : Assembled ns rows e)
    (hrestores : ∀ row ∈ rows, ∀ member ∈ slotMembers row.slot, ∀ child,
      WritesChild family (memberName family row.bound.field ns) member child →
        Restores family (memberName family row.bound.field ns) member child)
    (path : String) :
    (readElement family key path e).outcome =
      .ok ((Record.mk key (rows.map Row.slot)).settle family) := by
  have hkeys : KeysFit family ns rows := by
    intro row hrow child hchild
    exact elementKey_mem_of_wrote (hlaid.carries row hrow) (hlaid.wrote row hrow)
      (fun member hmember child hwrites => (hrestores row hrow member hmember child hwrites).1)
      hchild
  obtain ⟨tags, htags⟩ := hfamily.tags
  have htagged : tags = rows.map fun row => row.bound.field.tag := by
    rw [Descriptor.eq_of_tags htags, BoundType.descriptor, ← hfields]
    simp only [List.map_map]
    rfl
  have hzip : (family key).fields.zip tags =
      rows.map fun row => (row.bound, row.bound.field.tag) := by
    rw [htagged, ← hfields, List.zip_map']
  refine readElement_eq_ok_iff.mpr ⟨tags, _, htags, ?_, rfl⟩
  rw [hzip, ← hfields, settleSlots_eq_map, htagged]
  apply forall₂_zipIdx
  rintro front row back rfl
  exact readSlot_of_row hlaid he hkeys (hrestores row (by simp)) path

/-- A complete record can be written at its place, and is read back settled. -/
theorem exists_writeElement [DecidableEq κ] {family : Family κ} {record : Record κ}
    (htyped : record.WellTyped family) {ns : Option String}
    (hfamily : Unambiguous family record.type ns)
    (hcomplete : (record.settle family).Complete family ns) (name : String)
    (declarations : List NamespaceDecl) :
    ∃ e, writeElement family record name ns declarations = .ok e ∧ e.name = name ∧ e.ns = ns ∧
      ∀ path, (readElement family record.type path e).outcome = .ok (record.settle family) := by
  induction htyped generalizing ns name declarations with
  | @mk key slots hslots _ ih =>
      have hhere : UnambiguousAt family key ns := hfamily.here
      have hmember : ∀ pair ∈ (family key).fields.zip slots, ∀ member ∈ slotMembers pair.2,
          ∃ child, WritesChild family (memberName family pair.1.field ns) member child ∧
            Restores family (memberName family pair.1.field ns) member child := by
        intro pair hpair member hmember
        have hcarries := (List.forall₂_zip hslots) hpair
        obtain ⟨child, hwrites, hname, hns, hread⟩ :=
          ih pair.2 (List.of_mem_zip hpair).2 member hmember
            (hfamily.inside (List.of_mem_zip hpair).1 (hcarries.type_mem hmember))
            (hcomplete.member hpair hmember)
            (memberName family pair.1.field ns member.type).name
            (memberName family pair.1.field ns member.type).declarations
        refine ⟨child, hwrites, ?_, hread⟩
        rw [elementKey, hname, hns]
        rfl
      obtain ⟨rows, hfields, hrowslots, hlaid, hwritten⟩ := exists_laid hhere hslots
        hcomplete fun pair hpair member hmem =>
          (hmember pair hpair member hmem).imp fun _ hchild => hchild.1
      have hassembled := assembled_assemble rows name ns declarations
      refine ⟨_, hwritten name declarations, by simp [assemble, Element.empty], hassembled.ns,
        fun path => ?_⟩
      have hread := readElement_of_laid hhere hfields hlaid hassembled (fun row hrow => ?_)
        path
      · rw [hrowslots] at hread
        exact hread
      · have hpair : (row.bound, row.slot) ∈ (family key).fields.zip slots := by
          rw [← hfields, ← hrowslots, List.zip_map']
          exact List.mem_map_of_mem hrow
        intro member hmem child hwrites
        obtain ⟨other, hother, hrestores⟩ := hmember _ hpair member hmem
        have hsame : child = other := by
          have heq := hwrites.symm.trans hother
          exact Except.ok.inj heq
        rw [hsame]
        exact hrestores

/-- The members of a complete record can be written, each under its name. -/
theorem exists_writesChild [DecidableEq κ] {family : Family κ} {ns : Option String} {key : κ}
    {slots : List (Option (FieldValue κ))} (htyped : (Record.mk key slots).WellTyped family)
    (hfamily : Unambiguous family key ns)
    (hcomplete : ((Record.mk key slots).settle family).Complete family ns)
    {pair : BoundField κ × Option (FieldValue κ)} (hpair : pair ∈ (family key).fields.zip slots)
    {member : Record κ} (hmember : member ∈ slotMembers pair.2) :
    ∃ child, WritesChild family (memberName family pair.1.field ns) member child ∧
      elementKey child = (memberName family pair.1.field ns member.type).key := by
  cases htyped with
  | mk hslots hmembers =>
      have hcarries := List.forall₂_zip hslots hpair
      obtain ⟨child, hwrites, hname, hns, _⟩ := exists_writeElement
        (hmembers pair.2 (List.of_mem_zip hpair).2 member hmember)
        (hfamily.inside (List.of_mem_zip hpair).1 (hcarries.type_mem hmember))
        (hcomplete.member hpair hmember) (memberName family pair.1.field ns member.type).name
        (memberName family pair.1.field ns member.type).declarations
      refine ⟨child, hwrites, ?_⟩
      rw [elementKey, hname, hns]
      rfl

theorem admitsRoot_effective (rule : NamespaceRule) :
    rule.admitsRoot (rule.effective none) = true := by
  cases rule <;> simp [NamespaceRule.admitsRoot, NamespaceRule.effective]

/-- The document of a complete record is accepted, and read back settled. -/
theorem exists_writeDocument [DecidableEq κ] {family : Family κ} {record : Record κ}
    (htyped : record.WellTyped family)
    (hfamily : Unambiguous family record.type ((family record.type).rule.effective none))
    (hcomplete : (record.settle family).Complete family
      ((family record.type).rule.effective none)) :
    ∃ document : Document, (writeDocument family record).outcome = .ok document ∧
      writeElement family record (family record.type).name
        ((family record.type).rule.effective none) (family record.type).declarations =
          .ok document.root ∧
      (readDocument family record.type document).outcome = .ok (record.settle family) := by
  obtain ⟨root, hwrite, hname, hns, hread⟩ :=
    exists_writeElement htyped hfamily hcomplete (family record.type).name
      (family record.type).declarations
  have haccepted : root.name = (family record.type).name ∧
      (family record.type).rule.admitsRoot root.ns = true := by
    rw [hname, hns]
    exact ⟨rfl, admitsRoot_effective _⟩
  refine ⟨⟨root⟩, ?_, hwrite, ?_⟩
  · simp [writeDocument, hwrite, Except.mapError, Except.map, ok_bind]
  · simp [readDocument, haccepted, readRoot, hread, ok_bind]

/-- Reading undoes writing.  In a family that is unambiguous wherever its elements may
stand, every well-typed record with a value for each required field and with leftover
attributes apart from those of its fields can be written as an element of any name; the
element is read as the record, and so is the document where the record is its root.  The
record comes back settled: a slot at its default is as good as an empty one. -/
theorem readElement_writeElement_settle [DecidableEq κ] (family : Family κ)
    (record : Record κ) (ns : Option String) (htyped : record.WellTyped family)
    (hfamily : Unambiguous family record.type ns)
    (hcomplete : (record.settle family).Complete family ns) :
    (∀ name declarations, ∃ e, writeElement family record name ns declarations = .ok e ∧
      ∀ path, (readElement family record.type path e).outcome = .ok (record.settle family)) ∧
    (ns = (family record.type).rule.effective none →
      ∃ document : Document, (writeDocument family record).outcome = .ok document ∧
        (readDocument family record.type document).outcome = .ok (record.settle family)) := by
  constructor
  · intro name declarations
    obtain ⟨e, hwrite, _, _, hread⟩ :=
      exists_writeElement htyped hfamily hcomplete name declarations
    exact ⟨e, hwrite, hread⟩
  · rintro rfl
    obtain ⟨document, hwrite, _, hread⟩ := exists_writeDocument htyped hfamily hcomplete
    exact ⟨document, hwrite, hread⟩

/-- Sections of a text, one inside the other: a number that is left out when it is zero,
attributes of any other name, and the sections inside. -/
def sections : Family Unit := fun _ =>
  { name := "section"
    rule := .fixed "urn:sections"
    fields :=
      [.text (FieldDecl.value "label"),
        .unlessDefault (.value (.integer ⟨false, 8⟩) (FieldDecl.value "depth").optional),
        .overflow (FieldDecl.overflow "other"),
        .list () (((FieldDecl.list "inner" ()).wrapped "inner").itemsNamed "section").optional]
    declarations := [] }

/-- A section in a document, with these attributes and children. -/
def sectionOf (attributes : List Attribute) (children : List Element) : Element :=
  { Element.empty "section" (some "urn:sections") with attributes, children }

/-- The element around the sections inside a section. -/
def innerOf (children : List Element) : Element :=
  { Element.empty "inner" (some "urn:sections") with children }

/-- A section without sections in it. -/
def innerSection : Record Unit :=
  .mk () [some (.scalar (.string "1")), some (.scalar (.integer 7)),
    some (.overflow SortedMap.empty), some (.list [])]

/-- A section around it, with an attribute that is called `label` too, in a namespace of
its own. -/
def outerSection : Record Unit :=
  .mk () [some (.scalar (.string "")), some (.scalar (.integer 0)),
    some (.overflow (SortedMap.ofList [(⟨"label", some "urn:other"⟩, "<&>")])),
    some (.list [innerSection])]

theorem unambiguous_sections : Unambiguous sections () (some "urn:sections") := by
  have hmembers : ∀ key, ∀ bound ∈ (sections key).fields, ∀ member ∈ bound.field.kind.types,
      (memberName sections bound.field (some "urn:sections") member).ns =
        some "urn:sections" := by
    rintro ⟨⟩
    decide
  rintro ⟨⟩ inner hreaches
  rw [hreaches.eq_place (fun _ => some "urn:sections") hmembers]
  exact ⟨⟨_, rfl⟩, by decide, pairwise_reads_of_names (by decide) _, by decide, by decide,
    by decide, by decide⟩

theorem wellTyped_sections :
    innerSection.WellTyped sections ∧ outerSection.WellTyped sections := by
  have hinner : innerSection.WellTyped sections := by
    refine .mk (.cons trivial (.cons ?_ (.cons trivial (.cons ?_ .nil)))) ?_
    · exact ⟨by decide, by decide⟩
    · exact (by simp : ∀ record ∈ [], Record.type record = ())
    · simp [slotMembers]
  refine ⟨hinner, .mk (.cons trivial (.cons ?_ (.cons trivial (.cons ?_ .nil)))) ?_⟩
  · exact ⟨by decide, by decide⟩
  · exact (by simp : ∀ record ∈ [innerSection], record.type = ())
  · simp [slotMembers, hinner]

theorem complete_outerSection :
    (outerSection.settle sections).Complete sections (some "urn:sections") := by
  have hinner : (innerSection.settle sections).Complete sections (some "urn:sections") := by
    have hnone : ∀ row ∈ (sections ()).fields.zip (innerSection.settle sections).slots,
        slotMembers row.2 = [] := by decide
    refine .mk (by decide) (by decide) fun row hrow member hmember => ?_
    rw [hnone row hrow] at hmember
    contradiction
  have honly : ∀ row ∈ (sections ()).fields.zip (outerSection.settle sections).slots,
      ∀ member ∈ slotMembers row.2, member = innerSection.settle sections ∧
        (memberName sections row.1.field (some "urn:sections") member.type).ns =
          some "urn:sections" := by decide +kernel
  refine .mk (by decide) (by decide +kernel) fun row hrow member hmember => ?_
  obtain ⟨rfl, hns⟩ := honly row hrow member hmember
  rw [hns]
  exact hinner

theorem readElement_writeElement_sections :
    outerSection.WellTyped sections ∧ Unambiguous sections () (some "urn:sections") ∧
      (outerSection.settle sections).Complete sections (some "urn:sections") ∧
      ∃ document : Document, (writeDocument sections outerSection).outcome = .ok document ∧
        (readDocument sections () document).outcome = .ok (outerSection.settle sections) :=
  ⟨wellTyped_sections.2, unambiguous_sections, complete_outerSection,
    (readElement_writeElement_settle sections outerSection _ wellTyped_sections.2
      unambiguous_sections complete_outerSection).2 rfl⟩

end Epub.Binding
