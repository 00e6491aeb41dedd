/-
The tables of the EPUB documents: for each type of element its name, and for
each of its fields the place in the document and as what it is taken.
-/
import Epub.Binding.Family
import Epub.Model.Metadata

namespace Epub.Model

open Epub.Binding Epub.Schema Epub.Xml

/-- The types of elements. -/
inductive ElementType where
  | container
  | rootfile
  | containerLink
  | package
  | metadata
  | identifier
  | text (element : TextElement)
  | language
  | agent (element : AgentElement)
  | date
  | metaInfo
  | link
  | manifest
  | item
  | spine
  | itemref
  | guide
  | reference
  | bindings
  | mediaType
  | collection
  | collectionLink
deriving DecidableEq, Repr

/-- The types of the children of the `metadata` element. -/
def entryTypes : List ElementType :=
  [.identifier, .text .title, .language, .agent .contributor, .text .coverage,
    .agent .creator, .date, .text .description, .text .format, .text .publisher,
    .text .relation, .text .rights, .text .source, .text .subject, .text .type,
    .metaInfo, .link]

/-- The prefixes declared on the `metadata` element. -/
def metadataPrefixes : List NamespaceDecl :=
  [⟨"dc", dcNamespace⟩, ⟨"opf", opfNamespace⟩]

/-- An optional attribute. -/
def optionalString (name : String) : BoundField ElementType :=
  .text (FieldDecl.value name).nullable

/-- An optional attribute in a namespace of its own. -/
def qualifiedString (name uri : String) : BoundField ElementType :=
  .text ((FieldDecl.value name).inNamespace uri).nullable

/-- The language of the content. -/
def languageField : BoundField ElementType :=
  qualifiedString "lang" xmlNamespace

/-- The base direction of the content. -/
def directionField : BoundField ElementType :=
  .value (.keyword Direction.keywords) (FieldDecl.value "dir").nullable

/-- A text that may be absent. -/
def optionalText : BoundField ElementType :=
  .text (FieldDecl.text "value").optional

/-- A required attribute. -/
def requiredString (name : String) : BoundField ElementType :=
  .text (FieldDecl.value name)

/-- A required attribute of another name in documents. -/
def requiredAs (name xmlName : String) : BoundField ElementType :=
  .text ((FieldDecl.value name).renamed xmlName)

/-- An optional attribute of another name in documents. -/
def optionalAs (name xmlName : String) : BoundField ElementType :=
  .text ((FieldDecl.value name).renamed xmlName).nullable

/-- A list inside an element of its name. -/
def wrappedList (name : String) (type : ElementType) (item : String) :
    FieldDecl ElementType :=
  ((FieldDecl.list name type).wrapped name).itemsNamed item

/-- A `metadata` element. -/
def metadataField : FieldDecl ElementType :=
  (FieldDecl.element "metadata" .metadata).declaring metadataPrefixes

/-- The name under which a person or an organisation is sorted. -/
def fileAsField : FieldDecl ElementType :=
  ((FieldDecl.value "file_as").renamed "file-as").inNamespace opfNamespace

/-- The direction in which the pages follow each other. -/
def pageProgressionField : BoundField ElementType :=
  .value (.keyword PageProgression.keywords)
    ((FieldDecl.value "page_progression").renamed "page-progression-direction").nullable

/-- Whether a spine entry is part of the default reading order; `yes` is not
written. -/
def linearField : BoundField ElementType :=
  .unlessDefault
    (.value (.keyword Linear.keywords) (FieldDecl.value "linear").optional)

/-- The fields of a type of element, in the order in which they are read and
written. -/
def fieldsOf : ElementType → List (BoundField ElementType)
  | .container =>
      [requiredString "version",
        .list .rootfile (wrappedList "rootfiles" .rootfile "rootfile"),
        .list .containerLink (wrappedList "links" .containerLink "link").optional]
  | .rootfile =>
      [requiredAs "full_path" "full-path", requiredAs "media_type" "media-type"]
  | .containerLink =>
      [requiredString "href", requiredString "rel", optionalAs "media_type" "mediaType"]
  | .package =>
      [requiredString "version", requiredAs "unique_identifier" "unique-identifier",
        optionalString "prefix", languageField, directionField, optionalString "id",
        .element .metadata metadataField,
        .element .manifest (FieldDecl.element "manifest" .manifest),
        .element .spine (FieldDecl.element "spine" .spine),
        .element .guide (FieldDecl.element "guide" .guide).nullable,
        .element .bindings (FieldDecl.element "bindings" .bindings).nullable,
        .list .collection (FieldDecl.list "collection" .collection).optional]
  | .metadata => [.variants entryTypes (FieldDecl.variants "entries" entryTypes).optional]
  | .identifier =>
      [optionalString "id", qualifiedString "scheme" opfNamespace,
        .text (FieldDecl.text "value")]
  | .text element =>
      [optionalString "id", languageField, directionField,
        if element = .title then .text (FieldDecl.text "value") else optionalText]
  | .language => [optionalString "id", .text (FieldDecl.text "value")]
  | .agent _ =>
      [optionalString "id", languageField, directionField,
        qualifiedString "role" opfNamespace, .text fileAsField.nullable, optionalText]
  | .date => [optionalString "id", qualifiedString "event" opfNamespace, optionalText]
  | .metaInfo =>
      [optionalString "id", optionalString "property", optionalString "refines",
        optionalString "scheme", optionalString "name", optionalString "content",
        languageField, directionField, .overflow (FieldDecl.overflow "other"),
        optionalText.unlessDefault]
  | .link =>
      [requiredString "href", requiredString "rel", optionalString "id",
        optionalString "refines", optionalAs "media_type" "media-type",
        optionalString "properties", optionalString "hreflang"]
  | .manifest => [optionalString "id", .list .item (FieldDecl.list "item" .item)]
  | .item =>
      [requiredString "id", requiredString "href", requiredAs "media_type" "media-type",
        optionalString "fallback", optionalString "properties",
        optionalAs "media_overlay" "media-overlay",
        optionalAs "fallback_style" "fallback-style"]
  | .spine =>
      [optionalString "id", optionalString "toc",
        pageProgressionField, .list .itemref (FieldDecl.list "itemref" .itemref)]
  | .itemref =>
      [requiredString "idref", linearField, optionalString "id",
        optionalString "properties"]
  | .guide => [.list .reference (FieldDecl.list "reference" .reference)]
  | .reference =>
      [requiredAs "kind" "type", optionalString "title", requiredString "href"]
  | .bindings =>
      [.list .mediaType ((FieldDecl.list "media_types" .mediaType).itemsNamed "mediaType")]
  | .mediaType =>
      [requiredAs "media_type" "media-type", requiredString "handler"]
  | .collection =>
      [requiredString "role", optionalString "id", languageField, directionField,
        .element .metadata metadataField.nullable,
        .list .collection (FieldDecl.list "collection" .collection).optional,
        .list .collectionLink (FieldDecl.list "link" .collectionLink).optional]
  | .collectionLink =>
      [requiredString "href", optionalString "rel",
        optionalAs "media_type" "media-type", optionalString "properties"]

/-- The name of the elements of a type. -/
def ElementType.name : ElementType → String
  | .container => "container"
  | .rootfile => "rootfile"
  | .containerLink => "link"
  | .package => "package"
  | .metadata => "metadata"
  | .identifier => "identifier"
  | .text element => element.name
  | .language => "language"
  | .agent element => element.name
  | .date => "date"
  | .metaInfo => "meta"
  | .link => "link"
  | .manifest => "manifest"
  | .item => "item"
  | .spine => "spine"
  | .itemref => "itemref"
  | .guide => "guide"
  | .reference => "reference"
  | .bindings => "bindings"
  | .mediaType => "mediaType"
  | .collection => "collection"
  | .collectionLink => "link"

/-- The namespace of the elements of a type. -/
def ElementType.rule : ElementType → NamespaceRule
  | .container => .fixed containerNamespace
  | .package => .fixed opfNamespace
  | .identifier => .fixed dcNamespace
  | .text _ => .fixed dcNamespace
  | .language => .fixed dcNamespace
  | .agent _ => .fixed dcNamespace
  | .date => .fixed dcNamespace
  | .metaInfo => .fixed opfNamespace
  | .link => .fixed opfNamespace
  | _ => .inherited

/-- The types of elements with their tables. -/
def family : Family ElementType := fun type =>
  ⟨type.name, type.rule, fieldsOf type, []⟩

end Epub.Model
