/-
Descriptors: the tables that say which fields a type has and what each of them
is in a document.  Types refer to each other by keys, so a table may lead back
to itself.
-/
import Epub.Text.Literal
import Epub.Xml.Element

namespace Epub.Schema

open Epub.Text Epub.Xml

/-- Where a tag takes its namespace from.  Taking that of the element around it
and having none are different things. -/
inductive NamespaceRule where
  | inherited
  | unqualified
  | fixed (uri : String)
deriving DecidableEq, Repr, Inhabited

namespace NamespaceRule

/-- The namespace of an element placed inside an element of `parent`. -/
def effective (rule : NamespaceRule) (parent : Option String) : Option String :=
  match rule with
  | .inherited => parent
  | .unqualified => none
  | .fixed uri => some uri

/-- The namespace an attribute is written in.  An inherited namespace is
spelled by leaving the attribute unqualified. -/
def forAttribute (rule : NamespaceRule) : Option String :=
  match rule with
  | .fixed uri => some uri
  | _ => none

/-- The namespaces in which an attribute is read on an element of `own`. -/
def admits (rule : NamespaceRule) (own ns : Option String) : Bool :=
  match rule with
  | .inherited => ns = none || ns = own
  | .unqualified => ns = none
  | .fixed uri => ns = some uri

/-- Whether a root element of this namespace is accepted.  A root has no
element around it, so an inherited namespace may be any. -/
def admitsRoot (rule : NamespaceRule) (ns : Option String) : Bool :=
  match rule with
  | .inherited => true
  | .unqualified => ns = none
  | .fixed uri => ns = some uri

def describe : NamespaceRule → String
  | .inherited => "Inherit"
  | .unqualified => "Unqualified"
  | .fixed uri => "Uri(" ++ Literal.describe uri ++ ")"

end NamespaceRule

/-- What a field holds. -/
inductive FieldKind (κ : Type) where
  /-- A scalar, in an attribute or in the text of the element. -/
  | value
  /-- One nested element. -/
  | element (type : κ)
  /-- Elements of one type. -/
  | list (type : κ)
  /-- Elements of several types, told apart by their names. -/
  | variants (types : List κ)
  /-- The attributes that no other field takes. -/
  | overflow
deriving DecidableEq, Repr, Inhabited

/-- One field of a type. -/
structure FieldDecl (κ : Type) where
  /-- The name in declarations, and in documents unless `xmlName` is given. -/
  name : String
  kind : FieldKind κ
  /-- The field may be absent. -/
  hasDefault : Bool
  /-- Absence stands for "no value". -/
  isNullable : Bool
  xmlName : Option String
  rule : NamespaceRule
  /-- The field is the text of its element. -/
  isText : Bool
  /-- The element around the items of a list. -/
  wrapper : Option String
  /-- The name of the items of a list. -/
  itemsName : Option String
  /-- Prefixes declared on the element that the field makes. -/
  declarations : List NamespaceDecl
deriving DecidableEq, Repr, Inhabited

namespace FieldDecl

variable {κ : Type}

/-- A required field with nothing special about it. -/
def plain (name : String) (kind : FieldKind κ) : FieldDecl κ :=
  ⟨name, kind, false, false, none, .inherited, false, none, none, []⟩

/-- A scalar in an attribute. -/
def value (name : String) : FieldDecl κ :=
  plain name .value

/-- A scalar in the text of the element. -/
def text (name : String) : FieldDecl κ :=
  { plain name .value with isText := true }

def element (name : String) (type : κ) : FieldDecl κ :=
  plain name (.element type)

def list (name : String) (type : κ) : FieldDecl κ :=
  plain name (.list type)

def variants (name : String) (types : List κ) : FieldDecl κ :=
  plain name (.variants types)

/-- The leftover attributes; there may be none. -/
def overflow (name : String) : FieldDecl κ :=
  { plain name .overflow with hasDefault := true }

/-- The field may be absent and then has its default. -/
def optional (field : FieldDecl κ) : FieldDecl κ :=
  { field with hasDefault := true }

/-- The field may be absent and then has no value. -/
def nullable (field : FieldDecl κ) : FieldDecl κ :=
  { field with hasDefault := true, isNullable := true }

/-- Give the field another name in documents. -/
def renamed (field : FieldDecl κ) (name : String) : FieldDecl κ :=
  { field with xmlName := some name }

def inNamespace (field : FieldDecl κ) (uri : String) : FieldDecl κ :=
  { field with rule := .fixed uri }

def unqualified (field : FieldDecl κ) : FieldDecl κ :=
  { field with rule := .unqualified }

/-- Put all items inside one element. -/
def wrapped (field : FieldDecl κ) (wrapper : String) : FieldDecl κ :=
  { field with wrapper := some wrapper }

def itemsNamed (field : FieldDecl κ) (name : String) : FieldDecl κ :=
  { field with itemsName := some name }

/-- Mark the field as text, whatever it holds. -/
def asText (field : FieldDecl κ) : FieldDecl κ :=
  { field with isText := true }

def declaring (field : FieldDecl κ) (declarations : List NamespaceDecl) :
    FieldDecl κ :=
  { field with declarations }

end FieldDecl

/-- The table of a type.  Name and namespace are those of a root element and of
a variant; elsewhere the field decides. -/
structure Descriptor (κ : Type) where
  name : String
  rule : NamespaceRule
  fields : List (FieldDecl κ)
  /-- Prefixes declared on a root element or a variant. -/
  declarations : List NamespaceDecl
deriving DecidableEq, Repr, Inhabited

namespace Descriptor

variable {κ : Type}

/-- The position of the first field with this declared name. -/
def fieldIndex? (descriptor : Descriptor κ) (name : String) : Option Nat :=
  descriptor.fields.findIdx? (·.name = name)

/-- Whether the children of this name and namespace, under an element of
`parent`, are values of the type when it is one of several variants. -/
def isVariant (descriptor : Descriptor κ) (parent : Option String)
    (child : Element) : Bool :=
  decide (child.Named descriptor.name (descriptor.rule.effective parent))

/-- One line about the table, without the types it refers to. -/
def describe (descriptor : Descriptor κ) : String :=
  "Descriptor \x7b name: " ++ Literal.describe descriptor.name ++
    ", namespace: " ++ descriptor.rule.describe ++
    ", fields: " ++ Literal.describeList (descriptor.fields.map FieldDecl.name) ++
    " \x7d"

end Descriptor

end Epub.Schema
