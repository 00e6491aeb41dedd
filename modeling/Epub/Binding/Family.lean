/-
Families of bound types.  A type is bound to its table by saying, field by
field, as what it takes what is found in a document and how it writes what it
holds.  Types name each other by keys, so a family may be recursive.
-/
import Epub.Binding.Record
import Epub.Schema.Tag

namespace Epub.Binding

open Epub.Schema Epub.Xml

/-- As what a field takes what is found for it. -/
inductive Accessor (κ : Type) where
  | value (type : ScalarType)
  /-- The text as it stands. -/
  | raw
  /-- The name of the tag, whatever is found. -/
  | name
  | element (type : κ)
  | list (type : κ)
  /-- A list of the types named here. -/
  | variants (types : List κ)
  | overflow
deriving DecidableEq, Repr

/-- A field bound to its type. -/
structure BoundField (κ : Type) where
  field : FieldDecl κ
  /-- The type of the scalar, when the field holds one. -/
  scalar : ScalarType
  accessor : Accessor κ
  /-- A scalar at its default is not written. -/
  omitsDefault : Bool
deriving DecidableEq, Repr

/-- The accessor that fits the kind of a field. -/
def Accessor.ofKind {κ : Type} (scalar : ScalarType) : FieldKind κ → Accessor κ
  | .value => .value scalar
  | .element type => .element type
  | .list type => .list type
  | .variants types => .variants types
  | .overflow => .overflow

namespace BoundField

variable {κ : Type}

/-- A field that is taken as a value of the type. -/
def value (type : ScalarType) (field : FieldDecl κ) : BoundField κ :=
  ⟨field, type, .value type, false⟩

/-- A field that is taken as a string. -/
def text (field : FieldDecl κ) : BoundField κ :=
  value .string field

/-- A field that is taken as one element of the type. -/
def element (type : κ) (field : FieldDecl κ) : BoundField κ :=
  ⟨field, .string, .element type, false⟩

/-- A field that is taken as a list of elements of the type. -/
def list (type : κ) (field : FieldDecl κ) : BoundField κ :=
  ⟨field, .string, .list type, false⟩

/-- A field that is taken as a list of elements of the types. -/
def variants (types : List κ) (field : FieldDecl κ) : BoundField κ :=
  ⟨field, .string, .variants types, false⟩

/-- A field that is taken as the leftover attributes. -/
def overflow (field : FieldDecl κ) : BoundField κ :=
  ⟨field, .string, .overflow, false⟩

/-- Do not write the field when its scalar is at the default. -/
def unlessDefault (bound : BoundField κ) : BoundField κ :=
  { bound with omitsDefault := true }

/-- The field is bound as its kind asks. -/
def Faithful (bound : BoundField κ) : Prop :=
  bound.accessor = Accessor.ofKind bound.scalar bound.field.kind

/-- What the field writes of a scalar, if anything. -/
def written? (bound : BoundField κ) (value : Scalar) : Option Scalar :=
  if bound.omitsDefault && value.isDefault bound.scalar then none else some value

end BoundField

/-- A type bound to its table. -/
structure BoundType (κ : Type) where
  name : String
  rule : NamespaceRule
  fields : List (BoundField κ)
  declarations : List NamespaceDecl
deriving DecidableEq, Repr

/-- The table of a bound type. -/
def BoundType.descriptor {κ : Type} (type : BoundType κ) : Descriptor κ :=
  { name := type.name
    rule := type.rule
    fields := type.fields.map BoundField.field
    declarations := type.declarations }

/-- Bound types by their keys. -/
abbrev Family (κ : Type) : Type := κ → BoundType κ

end Epub.Binding
