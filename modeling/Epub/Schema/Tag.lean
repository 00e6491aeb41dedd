/-
Tags: where each field of a type lives in a document.  Resolving a tag refuses
the tables that make no sense, and the first refusal in declared order counts.
-/
import Epub.Schema.Descriptor

namespace Epub.Schema

open Epub.Xml

/-- Where a field lives, seen from its element. -/
inductive Placement where
  | attr
  | text
  | childElement
  | wrappedList
  | unwrappedList
  | overflow
deriving DecidableEq, Repr, Inhabited

/-- Mistakes in a table, each with the name of the type it describes. -/
inductive SchemaFault where
  | duplicateText (type first second : String)
  | textOnNonValue (type field : String)
  | wrapperOnNonList (type field : String)
  | kindMismatch (type field expected : String)
  | noSuchField (type : String) (index : Nat)
deriving DecidableEq, Repr

def SchemaFault.message : SchemaFault → String
  | .duplicateText type first second =>
      s!"type `{type}` declares more than one text field (`{first}` and `{second}`)"
  | .textOnNonValue type field =>
      s!"field `{type}.{field}` is marked as text but is not a value field"
  | .wrapperOnNonList type field =>
      s!"field `{type}.{field}` declares a wrapper but is not a list"
  | .kindMismatch type field expected =>
      s!"field `{type}.{field}` was read as {expected} but is declared otherwise"
  | .noSuchField type index => s!"field index {index} is out of range for `{type}`"

/-- The resolved place of a field. -/
structure Tag where
  name : String
  rule : NamespaceRule
  placement : Placement
  wrapper : Option String
  itemsName : Option String
  declarations : List NamespaceDecl
  /-- Absence is an error. -/
  required : Bool
  nullable : Bool
deriving DecidableEq, Repr, Inhabited

namespace Tag

/-- The name of one item of a list. -/
def itemName (tag : Tag) : String :=
  tag.itemsName.getD tag.name

/-- The name of the element around the items of a list. -/
def wrapperName (tag : Tag) : String :=
  tag.wrapper.getD tag.name

/-- The name reported when the field is missing. -/
def missingName (tag : Tag) : String :=
  match tag.placement with
  | .wrappedList => tag.wrapperName
  | .unwrappedList => tag.itemName
  | _ => tag.name

/-- The name of the children that the field takes, if it takes any. -/
def childName? (tag : Tag) : Option String :=
  match tag.placement with
  | .childElement => some tag.name
  | .wrappedList => some tag.wrapperName
  | .unwrappedList => some tag.itemName
  | _ => none

/-- Whether the field takes `child` of an element in `parent`. -/
def claims (tag : Tag) (parent : Option String) (child : Element) : Bool :=
  tag.childName?.any fun name => decide (child.Named name (tag.rule.effective parent))

end Tag

variable {κ : Type}

def FieldKind.isList : FieldKind κ → Bool
  | .list _ => true
  | .variants _ => true
  | _ => false

def FieldKind.isValue : FieldKind κ → Bool
  | .value => true
  | _ => false

/-- Where a field lives by its kind and its marks. -/
def FieldDecl.placement (field : FieldDecl κ) : Placement :=
  match field.kind with
  | .value => if field.isText then .text else .attr
  | .element _ => .childElement
  | .list _ => if field.wrapper.isSome then .wrappedList else .unwrappedList
  | .variants _ => if field.wrapper.isSome then .wrappedList else .unwrappedList
  | .overflow => .overflow

/-- The tag of a field whose marks are in order. -/
def FieldDecl.tag (field : FieldDecl κ) : Tag :=
  { name := field.xmlName.getD field.name
    rule := field.rule
    placement := field.placement
    wrapper := field.wrapper
    itemsName := field.itemsName
    declarations := field.declarations
    required := !field.hasDefault
    nullable := field.isNullable }

namespace Descriptor

/-- The first text field other than the one at `index`, with its position. -/
def otherText? (descriptor : Descriptor κ) (index : Nat) :
    Option (FieldDecl κ × Nat) :=
  descriptor.fields.zipIdx.find? fun (field, i) => field.isText && i ≠ index

/-- Check the marks of a field that stands at `index`. -/
def check (descriptor : Descriptor κ) (index : Nat) (field : FieldDecl κ) :
    Except SchemaFault Unit := do
  if field.isText then
    if !field.kind.isValue then
      throw (.textOnNonValue descriptor.name field.name)
    if let some (other, i) := descriptor.otherText? index then
      if i < index then throw (.duplicateText descriptor.name other.name field.name)
      else throw (.duplicateText descriptor.name field.name other.name)
  if field.wrapper.isSome && !field.kind.isList then
    throw (.wrapperOnNonList descriptor.name field.name)

/-- Resolve the tag of the field at `index`. -/
def tag (descriptor : Descriptor κ) (index : Nat) : Except SchemaFault Tag :=
  match descriptor.fields[index]? with
  | none => .error (.noSuchField descriptor.name index)
  | some field => do
      descriptor.check index field
      return field.tag

/-- Resolve the tags of all fields, in declared order. -/
def tags (descriptor : Descriptor κ) : Except SchemaFault (List Tag) :=
  (List.range descriptor.fields.length).mapM descriptor.tag

end Descriptor

end Epub.Schema
