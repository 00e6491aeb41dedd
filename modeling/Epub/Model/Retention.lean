/-
Fitting packages to an edition.  What an edition does not define is cleared
before the package is written; everything else stays as it is.
-/
import Epub.Model.Package

namespace Epub.Model

/-- Remove the base direction, which EPUB 2 does not know. -/
def MetadataEntry.withoutDirection : MetadataEntry → MetadataEntry
  | .text element entry => .text element { entry with dir := none }
  | .agent element entry => .agent element { entry with dir := none }
  | .metaInfo entry => .metaInfo { entry with dir := none }
  | entry => entry

/-- Remove the attributes of Dublin Core elements that only EPUB 2 knows. -/
def MetadataEntry.withoutOpfAttributes : MetadataEntry → MetadataEntry
  | .identifier entry => .identifier { entry with scheme := none }
  | .agent element entry => .agent element { entry with role := none, fileAs := none }
  | .date entry => .date { entry with event := none }
  | entry => entry

/-- Whether EPUB 2 knows entries of this form. -/
def MetadataEntry.isEpub2 : MetadataEntry → Bool
  | .metaInfo entry => !entry.isProperty && entry.refines.isNone
  | .link _ => false
  | _ => true

/-- Keep what the edition defines. -/
def Metadata.retainFor (metadata : Metadata) (version : Version) : Metadata :=
  match version with
  | .v2 =>
      let kept := metadata.entries.filter MetadataEntry.isEpub2
      ⟨kept.map MetadataEntry.withoutDirection⟩
  | _ => ⟨metadata.entries.map MetadataEntry.withoutOpfAttributes⟩

/-- Keep what the edition defines. -/
def ManifestItem.retainFor (item : ManifestItem) (version : Version) : ManifestItem :=
  match version with
  | .v2 => { item with properties := none, mediaOverlay := none }
  | _ => { item with fallbackStyle := none }

/-- Keep what the edition defines. -/
def Itemref.retainFor (itemref : Itemref) (version : Version) : Itemref :=
  match version with
  | .v2 => { itemref with properties := none }
  | _ => itemref

/-- Keep what the edition defines. -/
def Spine.retainFor (spine : Spine) (version : Version) : Spine :=
  { spine with
    pageProgression := if version = .v2 then none else spine.pageProgression
    itemrefs := spine.itemrefs.map (·.retainFor version) }

/-- Keep what the edition defines.  Collections are left as they are, except in
EPUB 2, which has none. -/
def Package.retainFor (package : Package) (version : Version) : Package :=
  let manifest :=
    { package.manifest with items := package.manifest.items.map (·.retainFor version) }
  let spine := package.spine.retainFor version
  let metadata := package.metadata.retainFor version
  match version with
  | .v2 =>
      { package with
        prefixes := none, dir := none, bindings := none, collections := []
        manifest, spine, metadata }
  | .v30 => { package with manifest, spine, metadata }
  | .v31 => { package with guide := none, bindings := none, manifest, spine, metadata }

end Epub.Model
