/-
Package documents: the resources of a publication, their reading order, and
the metadata.
-/
import Epub.Model.Metadata
import Epub.Model.Version
import Epub.Text.Blank

namespace Epub.Model

/-- The media type of package documents. -/
def packageMediaType : String := "application/oebps-package+xml"

/-- A resource of the publication. -/
structure ManifestItem where
  id : String
  /-- Relative to the package document. -/
  href : String
  mediaType : String
  fallback : Option String
  /-- Property tokens such as `nav`, separated by white space. -/
  properties : Option String
  mediaOverlay : Option String
  /-- Known to EPUB 2 only. -/
  fallbackStyle : Option String
deriving DecidableEq, Repr, Inhabited

/-- All resources of the publication. -/
structure Manifest where
  id : Option String
  items : List ManifestItem
deriving DecidableEq, Repr, Inhabited

/-- An entry of the reading order. -/
structure Itemref where
  idref : String
  linear : Linear
  id : Option String
  properties : Option String
deriving DecidableEq, Repr, Inhabited

/-- The reading order. -/
structure Spine where
  id : Option String
  /-- The id of the table of contents in EPUB 2. -/
  toc : Option String
  pageProgression : Option PageProgression
  itemrefs : List Itemref
deriving DecidableEq, Repr, Inhabited

/-- A guide entry. -/
structure Reference where
  /-- What is referred to, such as `cover`. -/
  kind : String
  title : Option String
  href : String
deriving DecidableEq, Repr, Inhabited

/-- The guide of EPUB 2. -/
structure Guide where
  references : List Reference
deriving DecidableEq, Repr, Inhabited

/-- The handler of a media type. -/
structure MediaType where
  mediaType : String
  /-- The id of the handler in the manifest. -/
  handler : String
deriving DecidableEq, Repr, Inhabited

/-- The bindings of EPUB 3.0. -/
structure Bindings where
  mediaTypes : List MediaType
deriving DecidableEq, Repr, Inhabited

/-- A member of a collection. -/
structure CollectionLink where
  href : String
  rel : Option String
  mediaType : Option String
  properties : Option String
deriving DecidableEq, Repr, Inhabited

/-- A collection of resources, which may hold further collections. -/
structure Collection where
  role : String
  id : Option String
  lang : Option String
  dir : Option Direction
  metadata : Option Metadata
  collections : List Collection
  links : List CollectionLink
deriving Repr, Inhabited

mutual

/-- Equality of collections is decidable. -/
def Collection.decEq : (left right : Collection) → Decidable (left = right)
  | ⟨role, id, lang, dir, metadata, collections, links⟩,
    ⟨role', id', lang', dir', metadata', collections', links'⟩ =>
      if hown : (role, id, lang) = (role', id', lang') ∧
          (dir, metadata, links) = (dir', metadata', links') then
        match Collection.decEqList collections collections' with
        | isTrue hinner => isTrue (by
            simp only [Prod.mk.injEq] at hown
            simp [hown, hinner])
        | isFalse hinner => isFalse (by
            intro heq
            simp only [Collection.mk.injEq] at heq
            exact hinner heq.2.2.2.2.2.1)
      else isFalse (by
        intro heq
        simp only [Collection.mk.injEq] at heq
        simp [heq] at hown)

/-- Equality of lists of collections is decidable. -/
def Collection.decEqList : (left right : List Collection) → Decidable (left = right)
  | [], [] => isTrue rfl
  | [], _ :: _ => isFalse (by simp)
  | _ :: _, [] => isFalse (by simp)
  | head :: tail, head' :: tail' =>
      match Collection.decEq head head', Collection.decEqList tail tail' with
      | isTrue hhead, isTrue htail => isTrue (by rw [hhead, htail])
      | isFalse hhead, _ => isFalse (by simp [hhead])
      | _, isFalse htail => isFalse (by simp [htail])

end

instance : DecidableEq Collection := Collection.decEq

/-- A package document. -/
structure Package where
  /-- The edition as written, such as `3.0`. -/
  version : String
  /-- The id of the identifier that identifies the publication. -/
  uniqueIdentifier : String
  /-- Prefix mappings, as written. -/
  prefixes : Option String
  lang : Option String
  dir : Option Direction
  id : Option String
  metadata : Metadata
  manifest : Manifest
  spine : Spine
  guide : Option Guide
  bindings : Option Bindings
  collections : List Collection
deriving DecidableEq, Repr, Inhabited

/-- Whether the properties of the item list this one. -/
def ManifestItem.hasProperty (item : ManifestItem) (property : String) : Bool :=
  item.properties.any fun properties => (Text.tokens properties).contains property

namespace Package

/-- A package with nothing in it. -/
def create (version : Version) (uniqueIdentifier : String) : Package :=
  { (default : Package) with version := version.text, uniqueIdentifier }

/-- The edition, when it is one that is known. -/
def edition? (package : Package) : Option Version :=
  Version.parse? package.version

/-- The first manifest item with this id. -/
def item? (package : Package) (id : String) : Option ManifestItem :=
  package.manifest.items.find? (·.id = id)

/-- The manifest items in reading order.  Entries that lead nowhere are
skipped. -/
def spineItems (package : Package) : List ManifestItem :=
  package.spine.itemrefs.filterMap fun itemref => package.item? itemref.idref

/-- The entries of the reading order that lead nowhere. -/
def danglingItemrefs (package : Package) : List Itemref :=
  package.spine.itemrefs.filter fun itemref => (package.item? itemref.idref).isNone

/-- The cover: the item with that property, else the item that a `meta` element
of that name points at. -/
def coverItem? (package : Package) : Option ManifestItem :=
  (package.manifest.items.find? (·.hasProperty "cover-image")).or
    ((package.metadata.namedContent? "cover").bind package.item?)

/-- The identifier of the publication. -/
def uniqueIdentifierValue? (package : Package) : Option String :=
  (package.metadata.identifierById? package.uniqueIdentifier).map Identifier.value

end Package

end Epub.Model
