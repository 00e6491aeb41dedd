/-
Documents encoded again.  An accepted document may hold what no model keeps; the document
written of its model holds the same model, and nothing else.
-/
import Epub.Model.Document
import Epub.Proofs.Binding.Decoded
import Epub.Proofs.Binding.Written
import Epub.Proofs.Model.Faithful

namespace Epub.Model

open Epub.Binding Epub.Schema Epub.Xml

theorem sparing_fields : ∀ type ∈ ElementType.all, ∀ bound ∈ (family type).fields,
    (bound.omitsDefault = true → bound.field.hasDefault = true) ∧
    (bound.field.kind = .overflow → ∀ other ∈ (family type).fields,
      other.field.placement = .attr → other.omitsDefault = false) := by
  decide +kernel

/-- The tables leave out only what may be absent. -/
theorem isSparing_family (key : ElementType) : IsSparing family key :=
  ⟨fun bound hbound => (sparing_fields key key.mem_all bound hbound).1,
    fun bound hbound => (sparing_fields key key.mem_all bound hbound).2⟩

section Documents

variable {α : Type} {key : ElementType} {uri : String} {toRecord : α → ElementRecord}
  {ofRecord : ElementRecord → α}

/-- The record of an accepted document is sound. -/
theorem isSound_of_readDocument (hrule : (family key).rule = .fixed uri)
    (hplace : key.place = some uri) {document : Document} {record : ElementRecord}
    (hkeys : document.root.Everywhere fun e => (e.attributes.map Attribute.key).Nodup)
    (hread : (Binding.readDocument family key document).outcome = .ok record) :
    IsSound key record := by
  simp only [Binding.readDocument, Traced.outcome_bind, Traced.outcome_note, ok_bind] at hread
  split at hread
  · rename_i haccepted
    have hns : document.root.ns = key.place := by
      have hadmits := haccepted.2
      rw [hrule] at hadmits
      simpa [hplace, NamespaceRule.admitsRoot] using hadmits
    have hfamily := unambiguous_place key
    rw [← hns] at hfamily
    obtain ⟨htype, htyped, hcomplete⟩ :=
      complete_of_readElement isSparing_family hfamily hkeys hread
    exact ⟨htype, htyped, hns ▸ hcomplete⟩
  · contradiction

/-- So is the record of the model that is read off it. -/
theorem isSound_toRecord (hrepresents : Represents key toRecord ofRecord)
    (hrule : (family key).rule = .fixed uri) (hplace : key.place = some uri)
    {document : Document} {a : α}
    (hkeys : document.root.Everywhere fun e => (e.attributes.map Attribute.key).Nodup)
    (hread : (ofRecord <$> Binding.readDocument family key document).outcome = .ok a) :
    IsSound key (toRecord a) := by
  rw [Traced.outcome_map, map_eq_ok] at hread
  obtain ⟨record, hrecord, rfl⟩ := hread
  have hsound := isSound_of_readDocument hrule hplace hkeys hrecord
  refine ⟨hrepresents.type _, hrepresents.wellTyped _, ?_⟩
  rw [hrepresents.settle_toRecord record hsound]
  exact hsound.complete

/-- A model is read from the document that is written of it exactly when its record is
sound. -/
theorem exists_document_iff_isSound (hrepresents : Represents key toRecord ofRecord)
    (hrule : (family key).rule = .fixed uri) (hplace : key.place = some uri) {a : α} :
    (∃ again, (writeDocument family (toRecord a)).outcome = .ok again ∧
      (ofRecord <$> Binding.readDocument family key again).outcome = .ok a) ↔
      IsSound key (toRecord a) := by
  constructor
  · rintro ⟨again, hwrite, hread⟩
    exact isSound_toRecord hrepresents hrule hplace (hasDistinctKeys_of_writeDocument hwrite)
      hread
  · intro hsound
    obtain ⟨again, hwrite, _, hread⟩ := hrepresents.exists_document hrule hplace hsound.complete
    exact ⟨again, hwrite, hread⟩

/-- What is read from an accepted document can be written, and read from what is written. -/
theorem exists_document_of_readDocument (hrepresents : Represents key toRecord ofRecord)
    (hrule : (family key).rule = .fixed uri) (hplace : key.place = some uri)
    {document : Document} {a : α}
    (hkeys : document.root.Everywhere fun e => (e.attributes.map Attribute.key).Nodup)
    (hread : (ofRecord <$> Binding.readDocument family key document).outcome = .ok a) :
    ∃ again, (writeDocument family (toRecord a)).outcome = .ok again ∧
      (ofRecord <$> Binding.readDocument family key again).outcome = .ok a :=
  (exists_document_iff_isSound hrepresents hrule hplace).mpr
    (isSound_toRecord hrepresents hrule hplace hkeys hread)

end Documents

/-- Encoding an accepted document again is idempotent: whatever a document holds besides,
its model can be written, the document written holds the model, and what is read from that
document is written as that document. -/
theorem toDocument_ofDocument (document : Document)
    (hkeys : document.root.Everywhere fun e => (e.attributes.map Attribute.key).Nodup) :
    (∀ package, (Package.ofDocument document).outcome = .ok package →
      ∃ again, package.toDocument.outcome = .ok again ∧
        (Package.ofDocument again).outcome = .ok package ∧
        ∀ reread, (Package.ofDocument again).outcome = .ok reread →
          reread.toDocument.outcome = .ok again) ∧
    ∀ container, (Container.ofDocument document).outcome = .ok container →
      ∃ again, container.toDocument.outcome = .ok again ∧
        (Container.ofDocument again).outcome = .ok container ∧
        ∀ reread, (Container.ofDocument again).outcome = .ok reread →
          reread.toDocument.outcome = .ok again := by
  constructor
  · intro package hread
    obtain ⟨again, hwrite, hagain⟩ :=
      exists_document_of_readDocument Package.represents rfl rfl hkeys hread
    refine ⟨again, hwrite, hagain, fun reread hreread => ?_⟩
    rwa [Except.ok.inj (hreread.symm.trans hagain)]
  · intro container hread
    obtain ⟨again, hwrite, hagain⟩ :=
      exists_document_of_readDocument Container.represents rfl rfl hkeys hread
    refine ⟨again, hwrite, hagain, fun reread hreread => ?_⟩
    rwa [Except.ok.inj (hreread.symm.trans hagain)]

/-- A package document in disorder: the spine first, foreign elements and attributes in
between, versions in two namespaces, and an `id` of `meta` that is qualified only. -/
def disordered : Document :=
  ⟨⟨"package", some opfNamespace,
    [⟨"version", some opfNamespace, "2.0"⟩, ⟨"version", none, "3.0"⟩, ⟨"x", some "urn:x", ""⟩,
      ⟨"unique-identifier", some opfNamespace, "uid"⟩],
    [⟨"spine", some opfNamespace, [], [⟨"itemref", some opfNamespace,
        [⟨"idref", none, "a"⟩, ⟨"linear", none, "yes"⟩], [], none, []⟩], none, []⟩,
      ⟨"foreign", some "urn:x", [], [], some "text", []⟩,
      ⟨"metadata", some opfNamespace, [], [
        ⟨"meta", some opfNamespace, [⟨"id", some opfNamespace, "m"⟩, ⟨"id", none, "n"⟩,
          ⟨"seq", some "urn:x", " 1 "⟩], [], none, []⟩,
        ⟨"title", some dcNamespace, [⟨"id", some dcNamespace, "t"⟩], [], some " A & B ", []⟩],
        none, []⟩,
      ⟨"manifest", some opfNamespace, [], [⟨"item", some opfNamespace,
        [⟨"id", none, "a"⟩, ⟨"href", none, "a.xhtml"⟩, ⟨"media-type", none, "text/html"⟩],
        [], some "text", []⟩], none, []⟩],
    some "text", [⟨"", opfNamespace⟩]⟩⟩

/-- The package in it.  Attributes in no namespace go first, and only `meta` keeps what no
field reads. -/
def disorderedPackage : Package where
  version := "3.0"
  uniqueIdentifier := "uid"
  prefixes := none
  lang := none
  dir := none
  id := none
  metadata := ⟨[
    .metaInfo { (default : Meta) with
      id := some "n"
      other := OtherAttributes.of [⟨"id", some opfNamespace, "m"⟩, ⟨"seq", some "urn:x", " 1 "⟩] },
    .text .title { TextEntry.of " A & B " with id := some "t" }]⟩
  manifest := ⟨none, [{ (default : ManifestItem) with
    id := "a", href := "a.xhtml", mediaType := "text/html" }]⟩
  spine := ⟨none, none, none, [⟨"a", .yes, none, none⟩]⟩
  guide := none
  bindings := none
  collections := []

/-- The document that the package is written as: in the order of its fields, and without what
was in between. -/
def reordered : Document :=
  ⟨⟨"package", some opfNamespace,
    [⟨"version", none, "3.0"⟩, ⟨"unique-identifier", none, "uid"⟩],
    [⟨"metadata", some opfNamespace, [], [
        ⟨"meta", some opfNamespace, [⟨"id", none, "n"⟩, ⟨"id", some opfNamespace, "m"⟩,
          ⟨"seq", some "urn:x", " 1 "⟩], [], none, []⟩,
        ⟨"title", some dcNamespace, [⟨"id", none, "t"⟩], [], some " A & B ", []⟩],
        none, metadataPrefixes⟩,
      ⟨"manifest", some opfNamespace, [], [⟨"item", some opfNamespace,
        [⟨"id", none, "a"⟩, ⟨"href", none, "a.xhtml"⟩, ⟨"media-type", none, "text/html"⟩],
        [], none, []⟩], none, []⟩,
      ⟨"spine", some opfNamespace, [], [⟨"itemref", some opfNamespace,
        [⟨"idref", none, "a"⟩], [], none, []⟩], none, []⟩],
    none, []⟩⟩

/-- A container document with an element besides, and links that there are none of. -/
def padded : Document :=
  ⟨⟨"container", some containerNamespace,
    [⟨"version", some containerNamespace, "1.0"⟩, ⟨"version", none, ""⟩],
    [⟨"links", some containerNamespace, [], [], none, []⟩, ⟨"links", none, [], [], none, []⟩,
      ⟨"rootfiles", some containerNamespace, [], [⟨"rootfile", some containerNamespace,
        [⟨"media-type", none, "b"⟩, ⟨"full-path", none, "<a>"⟩], [], some "text", []⟩],
        none, []⟩],
    none, []⟩⟩

/-- The container in it. -/
def paddedContainer : Container :=
  ⟨"", [⟨"<a>", "b"⟩], []⟩

theorem toDocument_ofDocument_disordered :
    (disordered.root.Everywhere fun e => (e.attributes.map Attribute.key).Nodup) ∧
    (padded.root.Everywhere fun e => (e.attributes.map Attribute.key).Nodup) ∧
    (Package.ofDocument disordered).outcome = .ok disorderedPackage ∧
    disorderedPackage.toDocument.outcome = .ok reordered ∧
    (Package.ofDocument reordered).outcome = .ok disorderedPackage ∧
    (Container.ofDocument padded).outcome = .ok paddedContainer ∧
    ∃ again, paddedContainer.toDocument.outcome = .ok again ∧
      (Container.ofDocument again).outcome = .ok paddedContainer := by
  have hdisordered : disordered.root.Everywhere fun e =>
      (e.attributes.map Attribute.key).Nodup := by decide
  have hpadded : padded.root.Everywhere fun e =>
      (e.attributes.map Attribute.key).Nodup := by decide
  have hpackage : (Package.ofDocument disordered).outcome = .ok disorderedPackage := by
    decide +kernel
  have hreordered : disorderedPackage.toDocument.outcome = .ok reordered := by decide +kernel
  have hcontainer : (Container.ofDocument padded).outcome = .ok paddedContainer := by
    decide +kernel
  obtain ⟨document, hwrite, hreread, _⟩ :=
    (toDocument_ofDocument disordered hdisordered).1 disorderedPackage hpackage
  obtain rfl : document = reordered := Except.ok.inj (hwrite.symm.trans hreordered)
  obtain ⟨again, hagain, hcontained, _⟩ :=
    (toDocument_ofDocument padded hpadded).2 paddedContainer hcontainer
  exact ⟨hdisordered, hpadded, hpackage, hreordered, hreread, hcontainer, again, hagain,
    hcontained⟩

end Epub.Model
