/-
Packages fitted to EPUB 2.  Nothing that only EPUB 3 knows is in their documents.  All other
metadata is, in the order of the package, and only without its base direction.
-/
import Epub.Proofs.Model.Retained
import Epub.Proofs.Model.Vocabulary

namespace Epub.Model

open Epub.Binding Epub.Schema Epub.Xml

/-- The names of the elements that only EPUB 3 knows. -/
def epub3Elements : List String :=
  ["collection", "bindings", "link"]

/-- The attributes that only EPUB 3 knows, each with the element on which it may stand; the
base direction, which may stand on many, is not among them. -/
def epub3Attributes : List (String × String) :=
  [("package", "prefix"), ("spine", "page-progression-direction"), ("item", "properties"),
    ("item", "media-overlay"), ("itemref", "properties"), ("meta", "property"),
    ("meta", "refines")]

/-- Whether an element and its attributes are known to EPUB 2. -/
def IsEpub2 (e : Element) : Prop :=
  e.name ∉ epub3Elements ∧
    ∀ attr ∈ e.attributes, attr.name ≠ "dir" ∧ (e.name, attr.name) ∉ epub3Attributes

/-- The elements and attributes that EPUB 2 knows. -/
def withoutEpub3 : Vocabulary where
  hasElement key := key.name ∉ epub3Elements
  hasAttribute key attr := attr.name ≠ "dir" ∧ (key.name, attr.name) ∉ epub3Attributes

theorem knows_withoutEpub3 : withoutEpub3.Knows = IsEpub2 := by
  funext e
  simp [Vocabulary.Knows, withoutEpub3, IsEpub2, elementKey, Attribute.key]

/-- The names of the attributes that `meta` has fields for. -/
def Meta.attributeNames : List String :=
  ((fieldsOf .metaInfo).filter (·.field.placement = .attr)).map (·.field.tag.name)

/-- Whether no leftover attribute bears one of these names, be it in another namespace. -/
def Meta.IsUnshadowed (info : Meta) : Prop :=
  ∀ key ∈ info.other.keys, key.name ∉ Meta.attributeNames

instance (info : Meta) : Decidable info.IsUnshadowed :=
  inferInstanceAs (Decidable (∀ key ∈ info.other.keys, _))

/-- Whether only EPUB 3 knows entries of this form. -/
def MetadataEntry.isEpub3 : MetadataEntry → Bool
  | .link _ => true
  | .metaInfo info => info.property.isSome || info.refines.isSome
  | _ => false

/-- The record without what its field of this name holds. -/
def without (name : String) (record : ElementRecord) : ElementRecord :=
  .mk record.type (List.zipWith
    (fun bound slot => if bound.field.name = name then none else slot)
    (fieldsOf record.type) record.slots)

section Entries

/-- Losing the base direction is to have nothing in the field of that name. -/
theorem MetadataEntry.toRecord_withoutDirection (entry : MetadataEntry) :
    entry.withoutDirection.toRecord = without "dir" entry.toRecord := by
  cases entry with
  | text element text => cases element <;> rfl
  | _ => rfl

theorem MetadataEntry.isEpub2_eq (entry : MetadataEntry) : entry.isEpub2 = !entry.isEpub3 := by
  cases entry with
  | metaInfo info => simp [isEpub2, isEpub3, Meta.isProperty]
  | _ => rfl

/-- The entries that EPUB 2 knows are kept, each without its direction. -/
theorem Metadata.toRecord_entries_retainFor (metadata : Metadata) :
    (metadata.retainFor .v2).entries.map MetadataEntry.toRecord =
      (metadata.entries.filter (!·.isEpub3)).map fun entry => without "dir" entry.toRecord := by
  have hfilter : metadata.entries.filter MetadataEntry.isEpub2 =
      metadata.entries.filter (!·.isEpub3) :=
    List.filter_congr fun entry _ => entry.isEpub2_eq
  rw [Metadata.retainFor, hfilter, List.map_map]
  exact List.map_congr_left fun entry _ => entry.toRecord_withoutDirection

end Entries

section Records

theorem covers_epub2 :
    Covers withoutEpub3 [.identifier, .language, .date, .guide, .reference] :=
  ⟨by decide +kernel, by decide +kernel, fun hmeta => absurd hmeta (by decide)⟩

/-- A `meta` of EPUB 2 without its direction keeps to EPUB 2 if its leftover attributes do. -/
theorem Meta.keepsTo_withoutEpub3 {info : Meta} (hproperty : info.property = none)
    (hrefines : info.refines = none) (hother : info.IsUnshadowed) :
    KeepsTo withoutEpub3 { info with dir := none }.toRecord := by
  have hforeign : foreign withoutEpub3 .metaInfo = [1, 2, 7] := by decide +kernel
  refine keepsTo_of_slots (Meta.represents.wellTyped _) (Meta.represents.type _) (by decide)
    (by decide) hforeign ?_ ?_ ?_
  · simp [Meta.toRecord, Record.slots, hproperty, hrefines, Slot.direction?]
  · intro slot hslot entry hentry
    have hleft : entry ∈ info.other.entries := by
      rw [← flatMap_slotEntries { info with dir := none }]
      exact List.mem_flatMap.mpr ⟨slot, hslot, hentry⟩
    have hfresh : entry.1.name ∉ Meta.attributeNames :=
      hother entry.1 (List.mem_map_of_mem hleft)
    have hdeclared : ∀ name ∈ ["dir", "property", "refines"], name ∈ Meta.attributeNames := by
      decide
    have hnames : ∀ name ∈ ["dir", "property", "refines"], entry.1.name ≠ name :=
      fun name hname heq => hfresh (heq ▸ hdeclared name hname)
    simpa [withoutEpub3, epub3Attributes, ElementType.key, ElementType.name] using hnames
  · simp [Meta.toRecord, Record.slots]

theorem TextEntry.keepsTo_withoutEpub3 (element : TextElement) (text : TextEntry) :
    KeepsTo withoutEpub3 (TextEntry.toRecord element { text with dir := none }) := by
  have hexcludes : Excludes withoutEpub3 (.text element) [2] := by
    cases element <;> decide +kernel
  rw [(TextEntry.represents element).keepsTo_iff hexcludes]
  simp [TextEntry.toRecord, Record.slots, Slot.direction?]

theorem Agent.keepsTo_withoutEpub3 (element : AgentElement) (agent : Agent) :
    KeepsTo withoutEpub3 (Agent.toRecord element { agent with dir := none }) := by
  have hexcludes : Excludes withoutEpub3 (.agent element) [2] := by
    cases element <;> decide +kernel
  rw [(Agent.represents element).keepsTo_iff hexcludes]
  simp [Agent.toRecord, Record.slots, Slot.direction?]

theorem MetadataEntry.keepsTo_withoutEpub3 {entry : MetadataEntry} (hepub2 : entry.isEpub3 = false)
    (hother : ∀ info, entry = .metaInfo info → info.IsUnshadowed) :
    KeepsTo withoutEpub3 entry.withoutDirection.toRecord := by
  cases entry with
  | identifier entry => exact covers_epub2.keepsTo_toRecord Identifier.represents (by decide) entry
  | text element text => exact text.keepsTo_withoutEpub3 element
  | language entry => exact covers_epub2.keepsTo_toRecord Language.represents (by decide) entry
  | agent element agent => exact agent.keepsTo_withoutEpub3 element
  | date entry => exact covers_epub2.keepsTo_toRecord Date.represents (by decide) entry
  | metaInfo info =>
      obtain ⟨hproperty, hrefines⟩ : info.property = none ∧ info.refines = none := by
        simpa [isEpub3] using hepub2
      exact Meta.keepsTo_withoutEpub3 hproperty hrefines (hother info rfl)
  | link => contradiction

theorem ManifestItem.keepsTo_withoutEpub3 (item : ManifestItem) :
    KeepsTo withoutEpub3 (item.retainFor .v2).toRecord := by
  have hexcludes : Excludes withoutEpub3 .item [4, 5] := by decide +kernel
  rw [ManifestItem.represents.keepsTo_iff hexcludes]
  simp [ManifestItem.retainFor, ManifestItem.toRecord, Record.slots]

theorem Itemref.keepsTo_withoutEpub3 (itemref : Itemref) :
    KeepsTo withoutEpub3 (itemref.retainFor .v2).toRecord := by
  have hexcludes : Excludes withoutEpub3 .itemref [3] := by decide +kernel
  rw [Itemref.represents.keepsTo_iff hexcludes]
  simp [Itemref.retainFor, Itemref.toRecord, Record.slots]

theorem Spine.keepsTo_withoutEpub3 (spine : Spine) :
    KeepsTo withoutEpub3 (spine.retainFor .v2).toRecord := by
  have hforeign : foreign withoutEpub3 .spine = [2] := by decide +kernel
  refine (Spine.keepsTo_iff (by decide) hforeign ?_).mpr ?_
  · simp [Spine.retainFor, Spine.toRecord, Record.slots]
  · exact List.forall_mem_map.mpr fun itemref _ => itemref.keepsTo_withoutEpub3

/-- Whatever a package holds that EPUB 2 does not know is cleared. -/
theorem Package.keepsTo_withoutEpub3 {package : Package}
    (hother : ∀ info ∈ package.metadata.metas, info.IsUnshadowed) :
    KeepsTo withoutEpub3 (package.retainFor .v2).toRecord := by
  have hforeign : foreign withoutEpub3 .package = [2, 4] := by decide +kernel
  refine (Package.keepsTo_iff (by decide) hforeign ?_).mpr ⟨?_, ?_, ?_, ?_, nofun, nofun⟩
  · simp [Package.retainFor, Package.toRecord, Record.slots, Slot.string?, Slot.direction?]
  · rw [Metadata.keepsTo_iff (by decide)]
    refine List.forall_mem_map.mpr fun entry hentry => ?_
    obtain ⟨hmem, hkept⟩ := List.mem_filter.mp hentry
    rw [entry.isEpub2_eq, Bool.not_eq_true'] at hkept
    refine MetadataEntry.keepsTo_withoutEpub3 hkept ?_
    rintro info rfl
    exact hother info (Metadata.mem_metas.mpr hmem)
  · rw [Manifest.keepsTo_iff (by decide) (by decide +kernel)]
    exact List.forall_mem_map.mpr fun item _ => item.keepsTo_withoutEpub3
  · exact package.spine.keepsTo_withoutEpub3
  · exact fun guide _ => covers_epub2.keepsTo_toRecord Guide.represents (by decide) guide

end Records

section Documents

/-- Whether an element is what is written of a record under the name of its type. -/
def IsWrittenAs (record : ElementRecord) (e : Element) : Prop :=
  writeElement family record record.type.name record.type.place [] = .ok e

/-- Inside the element, the entries are written in turn. -/
theorem Metadata.forall₂_children {metadata : Metadata} {declarations : List NamespaceDecl}
    {e : Element} (hwrite : writeElement family metadata.toRecord ElementType.metadata.key.name
      ElementType.metadata.key.ns declarations = .ok e) :
    elementKey e = ElementType.metadata.key ∧
      List.Forall₂ IsWrittenAs (metadata.entries.map MetadataEntry.toRecord) e.children := by
  obtain ⟨rows, houtlined⟩ := exists_outlined (Metadata.represents.wellTyped metadata)
    (wellBound_family _) hwrite
  refine ⟨houtlined.name, ?_⟩
  -- the element has one field, that of the entries
  obtain ⟨row, rfl⟩ : ∃ row, rows = [row] := by
    rw [← List.length_eq_one_iff, ← List.length_map Row.bound, houtlined.bounds]
    rfl
  have hbound := List.singleton_inj.mp houtlined.bounds
  have hslot := List.singleton_inj.mp houtlined.slots
  have hwrote := houtlined.wrote row List.mem_cons_self
  rw [hbound, hslot] at hwrote
  have hitems := List.forall₂_map_left_iff.mp (hwrote.forall₂_items rfl)
  rw [houtlined.children, List.flatMap_singleton, List.forall₂_map_left_iff]
  refine hitems.imp fun entry child hchild => ?_
  cases entry <;> exact hchild

/-- The root has an element for the metadata. -/
theorem Package.exists_metadata {package : Package} {document : Document}
    (hwrite : package.toDocument.outcome = .ok document) :
    ∃ metadata ∈ document.root.children, elementKey metadata = ElementType.metadata.key ∧
      List.Forall₂ IsWrittenAs (package.metadata.entries.map MetadataEntry.toRecord)
        metadata.children := by
  have hroot : writeElement family package.toRecord ElementType.package.key.name
      ElementType.package.key.ns [] = .ok document.root := writeElement_of_writeDocument hwrite
  obtain ⟨rows, houtlined⟩ := exists_outlined (Package.represents.wellTyped package)
    (wellBound_family _) hroot
  have hpair : (BoundField.element .metadata metadataField, Slot.element package.metadata.toRecord) ∈
      (fieldsOf .package).zip package.toRecord.slots := List.mem_iff_getElem?.mpr ⟨6, rfl⟩
  obtain ⟨row, hrow, hbound, hslot⟩ := houtlined.exists_row hpair
  have hwrote := houtlined.wrote row hrow
  rw [hbound, hslot] at hwrote
  obtain ⟨child, hchild, hpart⟩ := hwrote.exists_element
  refine ⟨child, ?_, Metadata.forall₂_children hchild⟩
  rw [houtlined.children]
  exact List.mem_flatMap.mpr ⟨row, hrow, hpart ▸ List.mem_singleton_self child⟩

/-- A package fitted to EPUB 2 can be written, and in its document is nothing that only EPUB 3
knows, unless a `meta` of the package has a leftover attribute that is called like one of its
fields.  All other entries of the metadata are kept, in the order of the package, and only
lose their direction; these are the children of the element for the metadata. -/
theorem Package.fitted_epub2 (package : Package)
    (hother : ∀ info ∈ package.metadata.metas, info.IsUnshadowed) :
    (package.retainFor .v2).metadata.entries.map MetadataEntry.toRecord =
        ((package.metadata.entries.filter (!·.isEpub3)).map fun entry =>
          without "dir" entry.toRecord) ∧
    ∃ document, (package.retainFor .v2).toDocument.outcome = .ok document ∧
      document.root.Everywhere IsEpub2 ∧
      ∃ metadata ∈ document.root.children, elementKey metadata = ElementType.metadata.key ∧
        List.Forall₂ (fun entry child => IsWrittenAs (without "dir" entry.toRecord) child)
          (package.metadata.entries.filter (!·.isEpub3)) metadata.children := by
  have hentries := package.metadata.toRecord_entries_retainFor
  rw [← metadata_retainFor] at hentries
  obtain ⟨document, hwrite⟩ := Package.represents.exists_written (package.retainFor .v2)
  obtain ⟨metadata, hmetadata, hkey, hchildren⟩ := Package.exists_metadata hwrite
  refine ⟨hentries, document, hwrite, ?_, metadata, hmetadata, hkey, ?_⟩
  · rw [← knows_withoutEpub3, Package.everywhere_knows_iff hwrite]
    exact Package.keepsTo_withoutEpub3 hother
  · rw [hentries, List.forall₂_map_left_iff] at hchildren
    exact hchildren

/-- A package with all that EPUB 3 alone knows, and a `meta` of EPUB 2. -/
def hybrid : Package :=
  { Package.create .v30 "uid" with
    prefixes := some "a: urn:a"
    dir := some .ltr
    metadata := ⟨[.text .title { TextEntry.of "Title" with dir := some .rtl },
      .metaInfo (Meta.ofProperty "dcterms:modified" "2020"), .link (Link.of "record" "r.xml"),
      .metaInfo { Meta.ofName "cover" "a" with
        dir := some .ltr, other := SortedMap.ofList [(⟨"origin", none⟩, "scan")] }]⟩
    manifest := ⟨none, [⟨"a", "a.xhtml", "text/html", none, some "nav", some "b", none⟩]⟩
    spine := ⟨none, none, some .rtl, [⟨"a", .yes, none, some "page-spread-left"⟩]⟩
    bindings := some ⟨[⟨"text/plain", "a"⟩]⟩
    collections := [⟨"series", none, none, none, none, [], [⟨"a.xhtml", none, none, none⟩]⟩] }

theorem Package.fitted_epub2_hybrid :
    (∀ info ∈ hybrid.metadata.metas, info.IsUnshadowed) ∧
    ∃ document, (hybrid.retainFor .v2).toDocument.outcome = .ok document ∧
      document.root.Everywhere IsEpub2 ∧
      ∃ metadata ∈ document.root.children, elementKey metadata = ElementType.metadata.key ∧
        List.Forall₂ IsWrittenAs
          [(TextEntry.of "Title").toRecord .title,
            { Meta.ofName "cover" "a" with
              other := SortedMap.ofList [(⟨"origin", none⟩, "scan")] }.toRecord]
          metadata.children := by
  have hother : ∀ info ∈ hybrid.metadata.metas, info.IsUnshadowed := by decide
  obtain ⟨_, document, hwrite, hknown, metadata, hmetadata, hkey, hchildren⟩ :=
    Package.fitted_epub2 hybrid hother
  exact ⟨hother, document, hwrite, hknown, metadata, hmetadata, hkey,
    List.forall₂_map_left_iff.mpr hchildren⟩

end Documents

end Epub.Model
