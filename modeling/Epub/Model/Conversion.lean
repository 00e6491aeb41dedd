/-
Models and records.  A model is turned into a record of its type and back; the
slots stand in the order of the type's table.
-/
import Epub.Model.Container
import Epub.Model.Table

namespace Epub.Model

open Epub.Binding Epub.Schema

/-- A record of an element. -/
abbrev ElementRecord : Type := Record ElementType

/-- A slot of a record of an element. -/
abbrev Slot : Type := Option (FieldValue ElementType)

/-- The slot of a string. -/
def Slot.string (s : String) : Slot :=
  some (.scalar (.string s))

/-- The slot of a string that may be absent. -/
def Slot.string? (s : Option String) : Slot :=
  s.bind Slot.string

/-- The slot of a keyword. -/
def Slot.keyword (word : String) : Slot :=
  some (.scalar (.keyword word))

/-- The slot of a base direction that may be absent. -/
def Slot.direction? (direction : Option Direction) : Slot :=
  direction.bind fun direction => Slot.keyword direction.word

/-- The slot of a nested element. -/
def Slot.element (record : ElementRecord) : Slot :=
  some (.element record)

/-- The slot of a list. -/
def Slot.list (records : List ElementRecord) : Slot :=
  some (.list records)

/-- The string at `index`, empty if there is none. -/
def textAt (record : ElementRecord) (index : Nat) : String :=
  (record.text? index).getD ""

/-- The base direction at `index`. -/
def directionAt? (record : ElementRecord) (index : Nat) : Option Direction :=
  (record.text? index).bind Direction.ofWord?

namespace TextEntry

def toRecord (element : TextElement) (text : TextEntry) : ElementRecord :=
  .mk (.text element)
    [Slot.string? text.id, Slot.string? text.lang, Slot.direction? text.dir,
      Slot.string text.value]

def ofRecord (record : ElementRecord) : TextEntry :=
  { id := record.text? 0
    lang := record.text? 1
    dir := directionAt? record 2
    value := textAt record 3 }

end TextEntry

namespace Agent

def toRecord (element : AgentElement) (agent : Agent) : ElementRecord :=
  .mk (.agent element)
    [Slot.string? agent.id, Slot.string? agent.lang, Slot.direction? agent.dir,
      Slot.string? agent.role, Slot.string? agent.fileAs, Slot.string agent.value]

def ofRecord (record : ElementRecord) : Agent :=
  { id := record.text? 0
    lang := record.text? 1
    dir := directionAt? record 2
    role := record.text? 3
    fileAs := record.text? 4
    value := textAt record 5 }

end Agent

namespace Identifier

def toRecord (identifier : Identifier) : ElementRecord :=
  .mk .identifier
    [Slot.string? identifier.id, Slot.string? identifier.scheme,
      Slot.string identifier.value]

def ofRecord (record : ElementRecord) : Identifier :=
  ⟨record.text? 0, record.text? 1, textAt record 2⟩

end Identifier

namespace Language

def toRecord (language : Language) : ElementRecord :=
  .mk .language [Slot.string? language.id, Slot.string language.value]

def ofRecord (record : ElementRecord) : Language :=
  ⟨record.text? 0, textAt record 1⟩

end Language

namespace Date

def toRecord (date : Date) : ElementRecord :=
  .mk .date [Slot.string? date.id, Slot.string? date.event, Slot.string date.value]

def ofRecord (record : ElementRecord) : Date :=
  ⟨record.text? 0, record.text? 1, textAt record 2⟩

end Date

namespace Meta

def toRecord (info : Meta) : ElementRecord :=
  .mk .metaInfo
    [Slot.string? info.id, Slot.string? info.property, Slot.string? info.refines,
      Slot.string? info.scheme, Slot.string? info.name, Slot.string? info.content,
      Slot.string? info.lang, Slot.direction? info.dir, some (.overflow info.other),
      Slot.string info.value]

def ofRecord (record : ElementRecord) : Meta :=
  { id := record.text? 0
    property := record.text? 1
    refines := record.text? 2
    scheme := record.text? 3
    name := record.text? 4
    content := record.text? 5
    lang := record.text? 6
    dir := directionAt? record 7
    other := record.other 8
    value := textAt record 9 }

end Meta

namespace Link

def toRecord (link : Link) : ElementRecord :=
  .mk .link
    [Slot.string link.href, Slot.string link.rel, Slot.string? link.id,
      Slot.string? link.refines, Slot.string? link.mediaType,
      Slot.string? link.properties, Slot.string? link.hreflang]

def ofRecord (record : ElementRecord) : Link :=
  { href := textAt record 0
    rel := textAt record 1
    id := record.text? 2
    refines := record.text? 3
    mediaType := record.text? 4
    properties := record.text? 5
    hreflang := record.text? 6 }

end Link

namespace MetadataEntry

def toRecord : MetadataEntry → ElementRecord
  | .identifier entry => entry.toRecord
  | .text element entry => entry.toRecord element
  | .language entry => entry.toRecord
  | .agent element entry => entry.toRecord element
  | .date entry => entry.toRecord
  | .metaInfo entry => entry.toRecord
  | .link entry => entry.toRecord

/-- The entry that a record stands for, if its type is that of an entry. -/
def ofRecord? (record : ElementRecord) : Option MetadataEntry :=
  match record.type with
  | .identifier => some (.identifier (.ofRecord record))
  | .text element => some (.text element (.ofRecord record))
  | .language => some (.language (.ofRecord record))
  | .agent element => some (.agent element (.ofRecord record))
  | .date => some (.date (.ofRecord record))
  | .metaInfo => some (.metaInfo (.ofRecord record))
  | .link => some (.link (.ofRecord record))
  | _ => none

end MetadataEntry

namespace Metadata

def toRecord (metadata : Metadata) : ElementRecord :=
  .mk .metadata [Slot.list (metadata.entries.map MetadataEntry.toRecord)]

def ofRecord (record : ElementRecord) : Metadata :=
  ⟨(record.members 0).filterMap MetadataEntry.ofRecord?⟩

end Metadata

namespace ManifestItem

def toRecord (item : ManifestItem) : ElementRecord :=
  .mk .item
    [Slot.string item.id, Slot.string item.href, Slot.string item.mediaType,
      Slot.string? item.fallback, Slot.string? item.properties,
      Slot.string? item.mediaOverlay, Slot.string? item.fallbackStyle]

def ofRecord (record : ElementRecord) : ManifestItem :=
  { id := textAt record 0
    href := textAt record 1
    mediaType := textAt record 2
    fallback := record.text? 3
    properties := record.text? 4
    mediaOverlay := record.text? 5
    fallbackStyle := record.text? 6 }

end ManifestItem

namespace Manifest

def toRecord (manifest : Manifest) : ElementRecord :=
  .mk .manifest
    [Slot.string? manifest.id, Slot.list (manifest.items.map ManifestItem.toRecord)]

def ofRecord (record : ElementRecord) : Manifest :=
  ⟨record.text? 0, (record.members 1).map ManifestItem.ofRecord⟩

end Manifest

namespace Itemref

def toRecord (itemref : Itemref) : ElementRecord :=
  .mk .itemref
    [Slot.string itemref.idref, Slot.keyword itemref.linear.word,
      Slot.string? itemref.id, Slot.string? itemref.properties]

def ofRecord (record : ElementRecord) : Itemref :=
  { idref := textAt record 0
    linear := ((record.text? 1).bind Linear.ofWord?).getD .yes
    id := record.text? 2
    properties := record.text? 3 }

end Itemref

namespace Spine

def toRecord (spine : Spine) : ElementRecord :=
  .mk .spine
    [Slot.string? spine.id, Slot.string? spine.toc,
      spine.pageProgression.bind fun progression => Slot.keyword progression.word,
      Slot.list (spine.itemrefs.map Itemref.toRecord)]

def ofRecord (record : ElementRecord) : Spine :=
  { id := record.text? 0
    toc := record.text? 1
    pageProgression := (record.text? 2).bind PageProgression.ofWord?
    itemrefs := (record.members 3).map Itemref.ofRecord }

end Spine

namespace Reference

def toRecord (reference : Reference) : ElementRecord :=
  .mk .reference
    [Slot.string reference.kind, Slot.string? reference.title,
      Slot.string reference.href]

def ofRecord (record : ElementRecord) : Reference :=
  ⟨textAt record 0, record.text? 1, textAt record 2⟩

end Reference

namespace Guide

def toRecord (guide : Guide) : ElementRecord :=
  .mk .guide [Slot.list (guide.references.map Reference.toRecord)]

def ofRecord (record : ElementRecord) : Guide :=
  ⟨(record.members 0).map Reference.ofRecord⟩

end Guide

namespace MediaType

def toRecord (mediaType : MediaType) : ElementRecord :=
  .mk .mediaType [Slot.string mediaType.mediaType, Slot.string mediaType.handler]

def ofRecord (record : ElementRecord) : MediaType :=
  ⟨textAt record 0, textAt record 1⟩

end MediaType

namespace Bindings

def toRecord (bindings : Bindings) : ElementRecord :=
  .mk .bindings [Slot.list (bindings.mediaTypes.map MediaType.toRecord)]

def ofRecord (record : ElementRecord) : Bindings :=
  ⟨(record.members 0).map MediaType.ofRecord⟩

end Bindings

namespace CollectionLink

def toRecord (link : CollectionLink) : ElementRecord :=
  .mk .collectionLink
    [Slot.string link.href, Slot.string? link.rel, Slot.string? link.mediaType,
      Slot.string? link.properties]

def ofRecord (record : ElementRecord) : CollectionLink :=
  ⟨textAt record 0, record.text? 1, record.text? 2, record.text? 3⟩

end CollectionLink

namespace Collection

mutual

def toRecord : Collection → ElementRecord
  | ⟨role, id, lang, dir, metadata, collections, links⟩ =>
      .mk .collection
        [Slot.string role, Slot.string? id, Slot.string? lang, Slot.direction? dir,
          metadata.bind fun metadata => Slot.element metadata.toRecord,
          Slot.list (toRecords collections),
          Slot.list (links.map CollectionLink.toRecord)]

/-- The records of collections. -/
def toRecords : List Collection → List ElementRecord
  | [] => []
  | collection :: rest => collection.toRecord :: toRecords rest

end

def ofRecord (record : ElementRecord) : Collection :=
  { role := textAt record 0
    id := record.text? 1
    lang := record.text? 2
    dir := directionAt? record 3
    metadata := (record.element? 4).map Metadata.ofRecord
    collections := (record.members 5).attach.map fun ⟨inner, _⟩ => ofRecord inner
    links := (record.members 6).map CollectionLink.ofRecord }
termination_by sizeOf record
decreasing_by exact Record.sizeOf_member_lt ‹_ ∈ record.members 5›

end Collection

namespace Package

def toRecord (package : Package) : ElementRecord :=
  .mk .package
    [Slot.string package.version, Slot.string package.uniqueIdentifier,
      Slot.string? package.prefixes, Slot.string? package.lang,
      Slot.direction? package.dir, Slot.string? package.id,
      Slot.element package.metadata.toRecord, Slot.element package.manifest.toRecord,
      Slot.element package.spine.toRecord,
      package.guide.bind fun guide => Slot.element guide.toRecord,
      package.bindings.bind fun bindings => Slot.element bindings.toRecord,
      Slot.list (Collection.toRecords package.collections)]

def ofRecord (record : ElementRecord) : Package :=
  { version := textAt record 0
    uniqueIdentifier := textAt record 1
    prefixes := record.text? 2
    lang := record.text? 3
    dir := directionAt? record 4
    id := record.text? 5
    metadata := ((record.element? 6).map Metadata.ofRecord).getD default
    manifest := ((record.element? 7).map Manifest.ofRecord).getD default
    spine := ((record.element? 8).map Spine.ofRecord).getD default
    guide := (record.element? 9).map Guide.ofRecord
    bindings := (record.element? 10).map Bindings.ofRecord
    collections := (record.members 11).map Collection.ofRecord }

end Package

namespace Rootfile

def toRecord (rootfile : Rootfile) : ElementRecord :=
  .mk .rootfile [Slot.string rootfile.fullPath, Slot.string rootfile.mediaType]

def ofRecord (record : ElementRecord) : Rootfile :=
  ⟨textAt record 0, textAt record 1⟩

end Rootfile

namespace ContainerLink

def toRecord (link : ContainerLink) : ElementRecord :=
  .mk .containerLink
    [Slot.string link.href, Slot.string link.rel, Slot.string? link.mediaType]

def ofRecord (record : ElementRecord) : ContainerLink :=
  ⟨textAt record 0, textAt record 1, record.text? 2⟩

end ContainerLink

namespace Container

def toRecord (container : Container) : ElementRecord :=
  .mk .container
    [Slot.string container.version,
      Slot.list (container.rootfiles.map Rootfile.toRecord),
      Slot.list (container.links.map ContainerLink.toRecord)]

def ofRecord (record : ElementRecord) : Container :=
  { version := (record.text? 0).getD (default : Container).version
    rootfiles := (record.members 1).map Rootfile.ofRecord
    links := (record.members 2).map ContainerLink.ofRecord }

end Container

end Epub.Model
