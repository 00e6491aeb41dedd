/-
Writing values as elements.  A slot at its default leaves nothing behind, and
every other one leaves what its tag says: an attribute, the text, children, or
leftover attributes that no other field has written.
-/
import Epub.Binding.Family
import Epub.Trace

namespace Epub.Binding

open Epub.Schema Epub.Xml

variable {κ : Type}

/-- Write the leftover attributes that the element does not have yet. -/
def addOther (e : Element) (other : OtherAttributes) : Element :=
  other.entries.foldl
    (fun e (key, value) =>
      if (e.get? key).isSome then e else e.setAttribute key value) e

/-- Name, namespace and declarations of an element that a list item becomes. -/
structure ItemName where
  name : String
  ns : Option String
  declarations : List NamespaceDecl

/-- What a list item under an element of `parent` is called: a variant by its
own type, any other item by its field. -/
def itemNaming (family : Family κ) (field : FieldDecl κ) (tag : Tag)
    (parent : Option String) (declarations : List NamespaceDecl) (type : κ) :
    ItemName :=
  match field.kind with
  | .variants _ =>
      let variant := family type
      ⟨variant.name, variant.rule.effective parent, variant.declarations⟩
  | _ => ⟨tag.itemName, tag.rule.effective parent, declarations⟩

mutual

/-- Write a record into an element that has its name already. -/
def writeInto (family : Family κ) (e : Element) :
    Record κ → Except SchemaFault Element
  | .mk key slots => do
      let type := family key
      let tags ← type.descriptor.tags
      writeSlots family type.name e.ns (type.fields.zip tags) e slots

/-- Write slots in turn into an element in `ns`. -/
def writeSlots (family : Family κ) (typeName : String) (ns : Option String) :
    List (BoundField κ × Tag) → Element → List (Option (FieldValue κ)) →
      Except SchemaFault Element
  | [], e, _ => .ok e
  | _ :: _, e, [] => .ok e
  | (bound, tag) :: fields, e, slot :: slots => do
      let e ← writeSlot family typeName ns bound tag e slot
      writeSlots family typeName ns fields e slots

/-- Write one slot. -/
def writeSlot (family : Family κ) (typeName : String) (ns : Option String)
    (bound : BoundField κ) (tag : Tag) (e : Element) :
    Option (FieldValue κ) → Except SchemaFault Element
  | none => .ok e
  | some value => writeValue family typeName ns bound tag e value

/-- Write what a field holds. -/
def writeValue (family : Family κ) (typeName : String) (ns : Option String)
    (bound : BoundField κ) (tag : Tag) (e : Element) :
    FieldValue κ → Except SchemaFault Element
  | .scalar value =>
      match bound.written? value with
      | none => .ok e
      | some value =>
          match tag.placement with
          | .attr =>
              .ok (e.setAttribute ⟨tag.name, tag.rule.forAttribute⟩ value.text)
          | .text => .ok { e with text := some value.text }
          | _ => .error (.kindMismatch typeName bound.field.name "a value")
  | .element record =>
      match tag.placement with
      | .childElement => do
          let child := Element.empty tag.name (tag.rule.effective ns)
          let child := child.declareAll tag.declarations
          return e.addChild (← writeInto family child record)
      | _ => .error (.kindMismatch typeName bound.field.name "an element")
  | .list records =>
      match tag.placement with
      | .wrappedList =>
          if records.isEmpty && !tag.required then .ok e
          else do
            let inner := tag.rule.effective ns
            let wrapper := Element.empty tag.wrapperName inner
            let wrapper := wrapper.declareAll tag.declarations
            let naming := itemNaming family bound.field tag inner []
            return e.addChild (← writeItems family naming wrapper records)
      | .unwrappedList =>
          let naming := itemNaming family bound.field tag ns tag.declarations
          writeItems family naming e records
      | _ => .error (.kindMismatch typeName bound.field.name "a list")
  | .overflow other =>
      if other.isEmpty then .ok e
      else
        match tag.placement with
        | .overflow => .ok (addOther e other)
        | _ => .error (.kindMismatch typeName bound.field.name "overflow attributes")

/-- Write list items in turn as children of `e`. -/
def writeItems (family : Family κ) (naming : κ → ItemName) (e : Element) :
    List (Record κ) → Except SchemaFault Element
  | [] => .ok e
  | record :: rest => do
      let item := naming record.type
      let child := (Element.empty item.name item.ns).declareAll item.declarations
      let child ← writeInto family child record
      writeItems family naming (e.addChild child) rest

end

/-- Write a record as an element of the given name. -/
def writeElement (family : Family κ) (record : Record κ) (name : String)
    (ns : Option String) (declarations : List NamespaceDecl) :
    Except SchemaFault Element :=
  writeInto family ((Element.empty name ns).declareAll declarations) record

/-- Write a record as a document whose root bears the name of its type. -/
def writeDocument (family : Family κ) (record : Record κ) : Traced Document := do
  let type := family record.type
  .note (.encodingDocument type.name)
  let ns := type.rule.effective none
  let root := writeElement family record type.name ns type.declarations
  return ⟨← .lift (root.mapError .schema)⟩

end Epub.Binding
