/-
Saved models.  The document of a container or of a writable package is put into bytes,
whatever the layout, and the bytes are read as what was saved.
-/
import Epub.Model.Document
import Epub.Proofs.Binding.Content
import Epub.Proofs.Model.Writable
import Epub.Proofs.Xml.Document

namespace Epub.Model

open Epub.Binding Epub.Schema Epub.Xml

/-- A model whose record can be stored can be saved, and loaded from what is saved. -/
theorem Represents.exists_bytes {α : Type} {key : ElementType} {toRecord : α → ElementRecord}
    {ofRecord : ElementRecord → α} (hrepresents : Represents key toRecord ofRecord)
    {uri : String} (hrule : (family key).rule = .fixed uri) (hplace : key.place = some uri)
    (hname : ItemName.IsProper ⟨(family key).name, key.place, (family key).declarations⟩)
    {a : α} (hstorable : IsStorable (toRecord a)) (layout : Layout) :
    ∃ bytes, (writeRecord (toRecord a) layout).outcome = .ok bytes ∧
      (ofRecord <$> readRecord key bytes).outcome = .ok a := by
  have hcomplete := hstorable.complete
  rw [hrepresents.type] at hcomplete
  obtain ⟨document, hwrite, helement, hread⟩ :=
    hrepresents.exists_document hrule hplace hcomplete
  have hlegible : document.root.Everywhere Element.IsLegible := by
    have hwritten := everywhere_of_writeElement hstorable.legible (hrepresents.wellTyped a)
      ⟨(family key).name, key.place, (family key).declarations⟩
    rw [hrepresents.type] at hwritten
    exact hwritten (unambiguous_place key) (legible_place key) hcomplete hname helement
  obtain ⟨read, hbytes, hsame⟩ := Document.exists_readDocument layout
    (hlegible.mono fun _ h => h.1) (hlegible.mono fun _ h => h.2)
  have hcontent : read.root.content = document.root.content := by
    rw [← Element.content_undeclared read.root, hsame, Element.content_content]
  refine ⟨document.toBytes layout, ?_, ?_⟩
  · rw [writeRecord, Traced.outcome_bind, hwrite, ok_bind, Traced.outcome_pure]
  · rw [readRecord, Traced.outcome_map, Traced.outcome_bind, hbytes, Except.mapError,
      Traced.outcome_lift, ok_bind, outcome_readDocument_congr family key hcontent,
      ← Traced.outcome_map]
    exact hread

/-- Any container can be saved under every layout, and loaded again: no string needs care
in an attribute, and a list that may not be missing is there when it is empty. -/
theorem Container.exists_toBytes_ofBytes (container : Container) (layout : Layout) :
    ∃ bytes, (container.toBytes layout).outcome = .ok bytes ∧
      (Container.ofBytes bytes).outcome = .ok container :=
  Container.represents.exists_bytes rfl rfl (by decide) container.isStorable layout

/-- Saving and loading a package loses nothing, under every layout. -/
theorem Package.ofBytes_toBytes (package : Package) (hwritable : package.IsWritable)
    (layout : Layout) :
    ∃ bytes, (package.toBytes layout).outcome = .ok bytes ∧
      (Package.ofBytes bytes).outcome = .ok package :=
  Package.represents.exists_bytes rfl rfl (by decide) (Package.isStorable hwritable) layout

/-- A `meta` with an `id`, another one in the namespace of the element, and attributes of
foreign namespaces. -/
def crowdedMeta : Meta :=
  { (default : Meta) with
    id := some ""
    other := SortedMap.ofList
      [(⟨"id", some opfNamespace⟩, "<id>"), (⟨"space", some xmlNamespace⟩, "preserve"),
        (⟨"lang", none⟩, "\t"), (⟨"id", some "urn:x"⟩, "&amp;")] }

/-- A package with a collection inside a collection, and strings that need care. -/
def crowded : Package :=
  { version := " 3.0\n"
    uniqueIdentifier := ""
    prefixes := some "a: 'b' \"c\""
    lang := some ""
    dir := some .rtl
    id := none
    metadata := ⟨[.identifier ⟨none, some "]]>", " 1 "⟩, .text .title (TextEntry.of "<!-- & -->"),
      .text .rights (TextEntry.of ""), .metaInfo crowdedMeta]⟩
    manifest := ⟨some "m", [default]⟩
    spine := ⟨none, none, some .rtl, [⟨"", .yes, none, none⟩, ⟨"a", .no, none, some " "⟩]⟩
    guide := some ⟨[⟨"cover", none, "#"⟩]⟩
    bindings := some ⟨[⟨"", "\t"⟩]⟩
    collections := [{ (default : Collection) with
      collections := [{ (default : Collection) with
        role := "inner"
        metadata := some ⟨[.language (Language.of "en"), .metaInfo crowdedMeta]⟩ }] }] }

theorem isWritable_crowded : crowded.IsWritable := by
  refine ⟨by decide, by decide, ?_, ?_, by decide, ?_⟩
  · rintro guide ⟨⟩
    decide
  · rintro bindings ⟨⟩
    decide
  · intro outer houter
    rw [List.mem_singleton.mp houter]
    refine .intro (by decide) fun inner hinner => ?_
    rw [List.mem_singleton.mp hinner]
    exact .intro (by decide) fun _ hnone => absurd hnone List.not_mem_nil

theorem Package.ofBytes_toBytes_crowded :
    crowded.IsWritable ∧ ∃ bytes, (crowded.toBytes ⟨some 3, true⟩).outcome = .ok bytes ∧
      (Package.ofBytes bytes).outcome = .ok crowded :=
  ⟨isWritable_crowded, Package.ofBytes_toBytes crowded isWritable_crowded _⟩

end Epub.Model
