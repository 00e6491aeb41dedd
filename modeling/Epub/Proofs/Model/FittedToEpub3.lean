/-
Packages fitted to EPUB 3.  What only EPUB 2 knows is not in their documents, but for the
attributes of Dublin Core elements in collections: the metadata of a collection is written
as it is.
-/
import Epub.Proofs.Model.Retained
import Epub.Proofs.Model.Vocabulary

namespace Epub.Model

open Epub.Binding Epub.Schema Epub.Xml

/-- The attributes that Dublin Core elements have in EPUB 2 only, as an entry holds them. -/
def MetadataEntry.opfAttributes : MetadataEntry → List (Option String)
  | .identifier entry => [entry.scheme]
  | .agent _ entry => [entry.role, entry.fileAs]
  | .date entry => [entry.event]
  | _ => []

/-- Whether none of them is there. -/
def Metadata.HasNoOpfAttributes (metadata : Metadata) : Prop :=
  ∀ entry ∈ metadata.entries, ∀ value ∈ entry.opfAttributes, value = none

instance (metadata : Metadata) : Decidable metadata.HasNoOpfAttributes :=
  inferInstanceAs (Decidable (∀ entry ∈ metadata.entries, ∀ value ∈ entry.opfAttributes, _))

/-- Whether the metadata of a collection has a property, and that of every collection in it. -/
inductive Collection.Everywhere (P : Metadata → Prop) : Collection → Prop where
  | intro {collection : Collection} (hhere : ∀ metadata ∈ collection.metadata, P metadata)
      (hbelow : ∀ inner ∈ collection.collections, Everywhere P inner) : Everywhere P collection

/-- All elements and attributes but the style of a fallback and, in EPUB 3.1, guide and
bindings. -/
def withoutEpub2 (version : Version) : Vocabulary where
  hasElement key := !(version = .v31 && (key.name = "guide" || key.name = "bindings"))
  hasAttribute key attr := !(key.name = "item" && attr.name = "fallback-style")

/-- All elements and attributes but those attributes of Dublin Core elements that are in the
namespace of package documents. -/
def withoutOpf : Vocabulary where
  hasElement _ := true
  hasAttribute key attr := !(key.ns = some dcNamespace && attr.ns = some opfNamespace)

section Items

/-- The types of elements on which, and inside of which, nothing has to be cleared. -/
def untouchedTypes (version : Version) : List ElementType :=
  ElementType.all.filter fun type =>
    type ∉ [.container, .package, .manifest, .item] &&
      (withoutEpub2 version).hasElement type.key

theorem covers_untouched (version : Version) :
    Covers (withoutEpub2 version) (untouchedTypes version) := by
  refine ⟨?_, ?_, fun _ _ => by simp [withoutEpub2, ElementType.key, ElementType.name]⟩
  · cases version <;> decide +kernel
  · cases version <;> decide +kernel

variable {version : Version}

theorem ManifestItem.keepsTo_retainFor (hversion : version ≠ .v2) (item : ManifestItem) :
    KeepsTo (withoutEpub2 version) (item.retainFor version).toRecord := by
  have hexcludes : Excludes (withoutEpub2 version) .item [6] := by
    cases version <;> decide +kernel
  rw [ManifestItem.represents.keepsTo_iff hexcludes]
  cases version with
  | v2 => contradiction
  | v30 | v31 => simp [ManifestItem.retainFor, ManifestItem.toRecord, Record.slots, Slot.string?]

/-- Guide, bindings and the style of a fallback are cleared wherever they may stand. -/
theorem Package.keepsTo_withoutEpub2 (hversion : version ≠ .v2) (package : Package) :
    KeepsTo (withoutEpub2 version) (package.retainFor version).toRecord := by
  have hcovers := covers_untouched version
  have hpackage : (withoutEpub2 version).hasElement ElementType.package.key = true := by
    cases version <;> rfl
  have hmanifest : (withoutEpub2 version).hasElement ElementType.manifest.key = true := by
    cases version <;> rfl
  have hforeign : foreign (withoutEpub2 version) .package = [] := by cases version <;> rfl
  have hnone : foreign (withoutEpub2 version) .manifest = [] := by cases version <;> rfl
  -- the manifest is all that has to be looked into; a guide or bindings may be left in EPUB 3.0
  refine (Package.keepsTo_iff hpackage hforeign (by simp)).mpr ⟨?_, ?_, ?_, ?_, ?_, ?_⟩
  · exact hcovers.keepsTo_toRecord Metadata.represents (by cases version <;> decide) _
  · rw [Manifest.keepsTo_iff hmanifest hnone]
    have hitems : (package.retainFor version).manifest.items =
        package.manifest.items.map (·.retainFor version) := by cases version <;> rfl
    rw [hitems]
    exact List.forall_mem_map.mpr fun item _ => item.keepsTo_retainFor hversion
  · exact hcovers.keepsTo_toRecord Spine.represents (by cases version <;> decide) _
  · intro guide hguide
    cases version with
    | v2 => contradiction
    | v30 => exact hcovers.keepsTo_toRecord Guide.represents (by decide) _
    | v31 => contradiction
  · intro bindings hbindings
    cases version with
    | v2 => contradiction
    | v30 => exact hcovers.keepsTo_toRecord Bindings.represents (by decide) _
    | v31 => contradiction
  · intro collection _
    exact hcovers.keepsTo_toRecord Collection.represents (by cases version <;> decide) _

end Items

section Attributes

/-- The types of elements on which, and inside of which, there are no attributes of package
documents in their namespace. -/
def unqualifiedTypes : List ElementType :=
  ElementType.all.filter fun type =>
    type ∉ [.container, .package, .metadata, .identifier, .agent .creator, .agent .contributor,
      .date, .collection]

theorem covers_unqualified : Covers withoutOpf unqualifiedTypes :=
  ⟨by decide +kernel, by decide +kernel, fun _ _ => rfl⟩

/-- An entry keeps to this exactly when these attributes are not there. -/
theorem MetadataEntry.keepsTo_withoutOpf_iff (entry : MetadataEntry) :
    KeepsTo withoutOpf entry.toRecord ↔ ∀ value ∈ entry.opfAttributes, value = none := by
  cases entry with
  | identifier entry =>
      have hexcludes : Excludes withoutOpf .identifier [1] := by decide +kernel
      refine (Identifier.represents.keepsTo_iff hexcludes entry).trans ?_
      simp [Identifier.toRecord, Record.slots, opfAttributes]
  | agent element entry =>
      have hexcludes : Excludes withoutOpf (.agent element) [3, 4] := by
        cases element <;> decide +kernel
      refine ((Agent.represents element).keepsTo_iff hexcludes entry).trans ?_
      simp [Agent.toRecord, Record.slots, opfAttributes]
  | date entry =>
      have hexcludes : Excludes withoutOpf .date [1] := by decide +kernel
      refine (Date.represents.keepsTo_iff hexcludes entry).trans ?_
      simp [Date.toRecord, Record.slots, opfAttributes]
  | text element entry =>
      have hmem : .text element ∈ unqualifiedTypes := by cases element <;> decide
      exact iff_of_true (covers_unqualified.keepsTo_toRecord (TextEntry.represents element) hmem _)
        (by simp [opfAttributes])
  | language _ =>
      exact iff_of_true (covers_unqualified.keepsTo_toRecord Language.represents (by decide) _)
        (by simp [opfAttributes])
  | metaInfo _ =>
      exact iff_of_true (covers_unqualified.keepsTo_toRecord Meta.represents (by decide) _)
        (by simp [opfAttributes])
  | link _ =>
      exact iff_of_true (covers_unqualified.keepsTo_toRecord Link.represents (by decide) _)
        (by simp [opfAttributes])

theorem Metadata.keepsTo_withoutOpf_iff (metadata : Metadata) :
    KeepsTo withoutOpf metadata.toRecord ↔ metadata.HasNoOpfAttributes := by
  rw [Metadata.keepsTo_iff rfl, HasNoOpfAttributes]
  exact forall₂_congr fun entry _ => entry.keepsTo_withoutOpf_iff

theorem Metadata.hasNoOpfAttributes_retainFor {version : Version} (hversion : version ≠ .v2)
    (metadata : Metadata) : (metadata.retainFor version).HasNoOpfAttributes := by
  have hcleared : ∀ entry ∈ metadata.entries.map MetadataEntry.withoutOpfAttributes,
      ∀ value ∈ entry.opfAttributes, value = none := by
    refine List.forall_mem_map.mpr fun entry _ => ?_
    cases entry <;> simp [MetadataEntry.withoutOpfAttributes, MetadataEntry.opfAttributes]
  cases version with
  | v2 => contradiction
  | v30 | v31 => exact hcleared

/-- A collection keeps to this exactly when the metadata at every depth of it does. -/
theorem Collection.keepsTo_withoutOpf_iff (collection : Collection) :
    KeepsTo withoutOpf collection.toRecord ↔
      collection.Everywhere Metadata.HasNoOpfAttributes := by
  induction collection using Collection.inductionOn with
  | hstep collection ih =>
      have hlinks : ∀ link ∈ collection.links, KeepsTo withoutOpf link.toRecord :=
        fun link _ => covers_unqualified.keepsTo_toRecord CollectionLink.represents (by decide) _
      rw [Collection.keepsTo_iff rfl (by decide +kernel)]
      constructor
      · rintro ⟨hmetadata, hinner, _⟩
        refine ⟨fun metadata hmem => ?_, fun inner hmem => (ih inner hmem).mp (hinner inner hmem)⟩
        exact metadata.keepsTo_withoutOpf_iff.mp (hmetadata metadata hmem)
      · rintro ⟨hhere, hbelow⟩
        refine ⟨fun metadata hmem => ?_, fun inner hmem => (ih inner hmem).mpr (hbelow inner hmem),
          hlinks⟩
        exact metadata.keepsTo_withoutOpf_iff.mpr (hhere metadata hmem)

/-- The metadata of the package is cleared; that of the collections decides. -/
theorem Package.keepsTo_withoutOpf_iff {version : Version} (hversion : version ≠ .v2)
    (package : Package) :
    KeepsTo withoutOpf (package.retainFor version).toRecord ↔
      ∀ collection ∈ package.collections, collection.Everywhere Metadata.HasNoOpfAttributes := by
  have hcollections : (package.retainFor version).collections = package.collections := by
    cases version with
    | v2 => contradiction
    | v30 | v31 => rfl
  have hmetadata : KeepsTo withoutOpf (package.retainFor version).metadata.toRecord := by
    rw [Metadata.keepsTo_withoutOpf_iff, metadata_retainFor]
    exact Metadata.hasNoOpfAttributes_retainFor hversion package.metadata
  have hforeign : foreign withoutOpf .package = [] := by decide +kernel
  rw [Package.keepsTo_iff rfl hforeign (by simp), hcollections]
  refine Iff.trans ⟨fun hall => hall.2.2.2.2.2, fun hall => ⟨hmetadata, ?_, ?_, ?_, ?_, hall⟩⟩
    (forall₂_congr fun collection _ => collection.keepsTo_withoutOpf_iff)
  · exact covers_unqualified.keepsTo_toRecord Manifest.represents (by decide) _
  · exact covers_unqualified.keepsTo_toRecord Spine.represents (by decide) _
  · exact fun _ _ => covers_unqualified.keepsTo_toRecord Guide.represents (by decide) _
  · exact fun _ _ => covers_unqualified.keepsTo_toRecord Bindings.represents (by decide) _

end Attributes

section Documents

variable {e : Element}

/-- Whether an element is no Dublin Core element, or has no attribute of package documents. -/
def HasNoOpfAttributes (e : Element) : Prop :=
  e.ns = some dcNamespace → ∀ attr ∈ e.attributes, attr.ns ≠ some opfNamespace

instance : DecidablePred HasNoOpfAttributes := fun e =>
  inferInstanceAs (Decidable (e.ns = some dcNamespace → _))

theorem knows_withoutOpf : withoutOpf.Knows = HasNoOpfAttributes := by
  funext e
  simp only [Vocabulary.Knows, withoutOpf, HasNoOpfAttributes, elementKey, Attribute.key]
  by_cases hdc : e.ns = some dcNamespace <;> simp [hdc]

theorem knows_withoutEpub2 {version : Version} (hknows : (withoutEpub2 version).Knows e) :
    (e.name = "item" → ∀ attr ∈ e.attributes, attr.name ≠ "fallback-style") ∧
      (version = .v31 → e.name ≠ "guide" ∧ e.name ≠ "bindings") := by
  obtain ⟨helement, hattributes⟩ := hknows
  refine ⟨fun hitem attr hattr => ?_, ?_⟩
  · simpa [withoutEpub2, elementKey, Attribute.key, hitem] using hattributes attr hattr
  · rintro rfl
    simpa [withoutEpub2, elementKey] using helement

/-- A package fitted to EPUB 3 can be written.  In its document no item has the style of a
fallback, and in that of EPUB 3.1 there are neither a guide nor bindings.  The Dublin Core
elements have no attributes of package documents exactly when those in the collections of the
package had none. -/
theorem Package.fitted_epub3_iff_collections (package : Package) (version : Version)
    (hversion : version ≠ .v2) :
    ∃ document, (package.retainFor version).toDocument.outcome = .ok document ∧
      (document.root.Everywhere fun e =>
        e.name = "item" → ∀ attr ∈ e.attributes, attr.name ≠ "fallback-style") ∧
      (version = .v31 → document.root.Everywhere fun e =>
        e.name ≠ "guide" ∧ e.name ≠ "bindings") ∧
      (document.root.Everywhere HasNoOpfAttributes ↔
        ∀ collection ∈ package.collections,
          collection.Everywhere Metadata.HasNoOpfAttributes) := by
  obtain ⟨document, hwrite⟩ := Package.represents.exists_written (package.retainFor version)
  have hknows : document.root.Everywhere (withoutEpub2 version).Knows :=
    (Package.everywhere_knows_iff hwrite).mpr (package.keepsTo_withoutEpub2 hversion)
  refine ⟨document, hwrite, ?_, fun hlast => ?_, ?_⟩
  · exact hknows.mono fun e he => (knows_withoutEpub2 he).1
  · exact hknows.mono fun e he => (knows_withoutEpub2 he).2 hlast
  · rw [← knows_withoutOpf, Package.everywhere_knows_iff hwrite]
    exact package.keepsTo_withoutOpf_iff hversion

/-- A package with things that EPUB 3.1 does not know.  The creator in its inner collection may
have a role. -/
def anthology (role : Option String) : Package :=
  { Package.create .v30 "uid" with
    metadata := ⟨[.agent .creator { Agent.of "Ann" with role := some "aut" }]⟩
    manifest := ⟨none, [⟨"a", "a.xhtml", "text/html", none, none, none, some "a-style"⟩]⟩
    guide := some ⟨[⟨"cover", none, "a.xhtml"⟩]⟩
    bindings := some ⟨[⟨"text/plain", "a"⟩]⟩
    collections := [⟨"series", none, none, none, none,
      [⟨"issue", none, none, none, some ⟨[.agent .creator { Agent.of "Ann" with role }]⟩,
        [], []⟩], []⟩] }

theorem Package.fitted_epub3_anthology :
    Version.v31 ≠ .v2 ∧
    ∃ document, ((anthology none).retainFor .v31).toDocument.outcome = .ok document ∧
      (document.root.Everywhere fun e =>
        e.name = "item" → ∀ attr ∈ e.attributes, attr.name ≠ "fallback-style") ∧
      (document.root.Everywhere fun e => e.name ≠ "guide" ∧ e.name ≠ "bindings") ∧
      document.root.Everywhere HasNoOpfAttributes := by
  obtain ⟨document, hwrite, hitems, hlast, hiff⟩ :=
    Package.fitted_epub3_iff_collections (anthology none) .v31 (by decide)
  have hinner : ∀ collection ∈ (anthology none).collections,
      collection.Everywhere Metadata.HasNoOpfAttributes := by
    refine List.forall_mem_singleton.mpr ⟨nofun, List.forall_mem_singleton.mpr ⟨?_, nofun⟩⟩
    rintro metadata hmetadata
    obtain rfl := Option.some.inj hmetadata
    decide
  exact ⟨by decide, document, hwrite, hitems, hlast rfl, hiff.mpr hinner⟩

/-- With a role, the attribute is still in the document. -/
theorem Package.not_fitted_epub3_anthology :
    Version.v30 ≠ .v2 ∧
    ∃ document, ((anthology (some "aut")).retainFor .v30).toDocument.outcome = .ok document ∧
      ¬document.root.Everywhere HasNoOpfAttributes := by
  have hleft : ((anthology (some "aut")).retainFor .v30).toDocument.outcome.toOption.any
      fun document => ¬document.root.Everywhere HasNoOpfAttributes := by decide +kernel
  obtain ⟨document, hwrite, hdocument⟩ := exists_ok_of_any hleft
  exact ⟨by decide, document, hwrite, of_decide_eq_true hdocument⟩

end Documents

end Epub.Model
