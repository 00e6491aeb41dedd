/-
Publication metadata: Dublin Core elements together with the `meta` and `link`
elements of package documents.  Entries keep the order of the document, so a
refinement stays beside what it refines.
-/
import Epub.Binding.Record
import Epub.Model.Keyword

namespace Epub.Model

open Epub.Binding

/-- The Dublin Core elements that hold a text in some language. -/
inductive TextElement where
  | title
  | coverage
  | description
  | format
  | publisher
  | relation
  | rights
  | source
  | subject
  | type
deriving DecidableEq, Repr

def TextElement.name : TextElement → String
  | .title => "title"
  | .coverage => "coverage"
  | .description => "description"
  | .format => "format"
  | .publisher => "publisher"
  | .relation => "relation"
  | .rights => "rights"
  | .source => "source"
  | .subject => "subject"
  | .type => "type"

/-- The Dublin Core elements that name a person or an organisation. -/
inductive AgentElement where
  | creator
  | contributor
deriving DecidableEq, Repr

def AgentElement.name : AgentElement → String
  | .creator => "creator"
  | .contributor => "contributor"

/-- A text in some language. -/
structure TextEntry where
  id : Option String
  lang : Option String
  dir : Option Direction
  value : String
deriving DecidableEq, Repr, Inhabited

/-- A person or an organisation.  Role and sort key are attributes of EPUB 2. -/
structure Agent where
  id : Option String
  lang : Option String
  dir : Option Direction
  /-- A relator code such as `aut`. -/
  role : Option String
  fileAs : Option String
  value : String
deriving DecidableEq, Repr, Inhabited

/-- An identifier of the publication. -/
structure Identifier where
  id : Option String
  /-- The scheme in EPUB 2, such as `ISBN`. -/
  scheme : Option String
  value : String
deriving DecidableEq, Repr, Inhabited

/-- A language tag. -/
structure Language where
  id : Option String
  value : String
deriving DecidableEq, Repr, Inhabited

/-- A date, in EPUB 2 with the event that it dates. -/
structure Date where
  id : Option String
  event : Option String
  value : String
deriving DecidableEq, Repr, Inhabited

/-- A `meta` element of either edition.  EPUB 3 has a property with a text and
may refine another element; EPUB 2 has a name with a content. -/
structure Meta where
  id : Option String
  property : Option String
  refines : Option String
  scheme : Option String
  name : Option String
  content : Option String
  lang : Option String
  dir : Option Direction
  /-- The attributes that are none of the above. -/
  other : OtherAttributes
  value : String
deriving DecidableEq, Repr, Inhabited

/-- A link to a resource about the publication. -/
structure Link where
  href : String
  rel : String
  id : Option String
  refines : Option String
  mediaType : Option String
  properties : Option String
  hreflang : Option String
deriving DecidableEq, Repr, Inhabited

/-- One child of the `metadata` element. -/
inductive MetadataEntry where
  | identifier (identifier : Identifier)
  | text (element : TextElement) (text : TextEntry)
  | language (language : Language)
  | agent (element : AgentElement) (agent : Agent)
  | date (date : Date)
  | metaInfo (info : Meta)
  | link (link : Link)
deriving DecidableEq, Repr

/-- The `metadata` element of a package or a collection. -/
structure Metadata where
  entries : List MetadataEntry
deriving DecidableEq, Repr, Inhabited

/-- A text without attributes. -/
def TextEntry.of (value : String) : TextEntry :=
  { (default : TextEntry) with value }

/-- An agent without attributes. -/
def Agent.of (value : String) : Agent :=
  { (default : Agent) with value }

/-- An identifier without a scheme. -/
def Identifier.of (value : String) (id : Option String) : Identifier :=
  ⟨id, none, value⟩

/-- A language tag without attributes. -/
def Language.of (value : String) : Language :=
  ⟨none, value⟩

namespace Meta

/-- A property with its value. -/
def ofProperty (property value : String) : Meta :=
  { (default : Meta) with property := some property, value }

/-- A name with its content. -/
def ofName (name content : String) : Meta :=
  { (default : Meta) with name := some name, content := some content }

/-- Refine the element with this id. -/
def refining (info : Meta) (id : String) : Meta :=
  { info with refines := some ("#" ++ id) }

/-- Whether the element is of the EPUB 3 form. -/
def isProperty (info : Meta) : Bool :=
  info.property.isSome

end Meta

/-- A link of a relation to a resource. -/
def Link.of (rel href : String) : Link :=
  { (default : Link) with href, rel }

namespace Metadata

/-- Append an entry. -/
def push (metadata : Metadata) (entry : MetadataEntry) : Metadata :=
  ⟨metadata.entries ++ [entry]⟩

/-- The texts of one element, in document order. -/
def texts (metadata : Metadata) (element : TextElement) : List TextEntry :=
  metadata.entries.filterMap fun entry =>
    match entry with
    | .text element' text => if element' = element then some text else none
    | _ => none

def titles (metadata : Metadata) : List TextEntry :=
  metadata.texts .title

def identifiers (metadata : Metadata) : List Identifier :=
  metadata.entries.filterMap fun entry =>
    match entry with
    | .identifier identifier => some identifier
    | _ => none

def creators (metadata : Metadata) : List Agent :=
  metadata.entries.filterMap fun entry =>
    match entry with
    | .agent .creator agent => some agent
    | _ => none

def languages (metadata : Metadata) : List Language :=
  metadata.entries.filterMap fun entry =>
    match entry with
    | .language language => some language
    | _ => none

def metas (metadata : Metadata) : List Meta :=
  metadata.entries.filterMap fun entry =>
    match entry with
    | .metaInfo info => some info
    | _ => none

/-- The first identifier with this id. -/
def identifierById? (metadata : Metadata) (id : String) : Option Identifier :=
  metadata.identifiers.find? (·.id = some id)

/-- The value of the first property of this name that refines nothing. -/
def propertyValue? (metadata : Metadata) (property : String) : Option String :=
  (metadata.metas.find? fun info =>
    info.refines.isNone && info.property = some property).map Meta.value

/-- The content of the first `meta` element with this name. -/
def namedContent? (metadata : Metadata) (name : String) : Option String :=
  (metadata.metas.find? (·.name = some name)).bind Meta.content

/-- The `meta` elements that refine the element with this id. -/
def refinements (metadata : Metadata) (id : String) : List Meta :=
  metadata.metas.filter (·.refines = some ("#" ++ id))

end Metadata

end Epub.Model
