/-
Reading elements as values.  The fields of a type are taken in declared order;
the first error ends the reading, an absent field that may be absent is noted,
and so is, at the end, whatever no field has taken.
-/
import Epub.Binding.Located
import Epub.Trace

namespace Epub.Binding

open Epub.Schema Epub.Xml

variable {κ : Type}

/-- What is reported when a required field is missing. -/
def missing (tag : Tag) (path : String) : DecodeFault :=
  match tag.placement with
  | .attr => .missingAttribute tag.name path
  | .overflow => .missingAttribute tag.name path
  | .text => .missingText path
  | _ => .missingElement tag.missingName path

/-- Read the text of a scalar. -/
def readScalar (tag : Tag) (path : String) (type : ScalarType) (raw : String) :
    Except Error Scalar :=
  (type.read raw).mapError fun fault =>
    match fault with
    | .notNumber => .decode (.invalidNumber tag.name raw path)
    | .notKeyword => .decode (.invalidKeyword tag.name raw path)

/-- What is noted about the parts of an element that no field has taken.
Leftover attributes are taken by an overflow field, and a type with a list of
variants says nothing about children. -/
def ignored (descriptor : Descriptor κ) (tags : List Tag) (path : String)
    (e : Element) : List Event :=
  let attributes :=
    if tags.any (·.placement = .overflow) then [] else unclaimedAttributes e tags
  let hasVariants :=
    descriptor.fields.any fun field =>
      match field.kind with
      | .variants _ => true
      | _ => false
  let children :=
    if hasVariants then []
    else e.children.filter fun child => !claimedByOther tags none e.ns child
  attributes.map (fun attr => .ignoredAttribute attr.name path) ++
    children.map (fun child => .ignoredElement child.name path)

/-- What an accessor reports when it does not fit what was found. -/
def mismatch (typeName : String) (tag : Tag) (expected : String) : Error :=
  .schema (.kindMismatch typeName tag.name expected)

/-- Take what was found for a field.  `read` reads the elements among it. -/
def take (typeName : String) (tag : Tag) (path : String) [DecidableEq κ]
    (accessor : Accessor κ) (located : Located κ)
    (read :
      (child : Element) → child ∈ located.elements → κ → String → Traced (Record κ)) :
    Traced (FieldValue κ) :=
  match accessor, located, read with
  | .value type, .text raw, _ => .lift ((readScalar tag path type raw).map .scalar)
  | .raw, .text raw, _ => pure (.scalar (.string raw))
  | .name, _, _ => pure (.scalar (.string tag.name))
  | .element type, .element e, read => do
      return .element (← read e (by simp [Located.elements]) type (childPath path e))
  | .list type, .items path items, read => do
      return .list (← items.attach.mapM fun ⟨item, hitem⟩ =>
        read item hitem type (childPath path item))
  | .variants types, .variants path items, read => do
      return .list (← items.attach.mapM fun ⟨(type, item), hitem⟩ =>
        if type ∈ types then
          read item (List.mem_map_of_mem hitem) type (childPath path item)
        else .fail (.decode (.unknownVariant item.name path)))
  | .overflow, .overflow other, _ => pure (.overflow other)
  | .value _, _, _ => .fail (mismatch typeName tag "a value")
  | .raw, _, _ => .fail (mismatch typeName tag "a value")
  | .element _, _, _ => .fail (mismatch typeName tag "an element")
  | .list _, _, _ => .fail (mismatch typeName tag "a list")
  | .variants _, _, _ => .fail (mismatch typeName tag "a variant list")
  | .overflow, _, _ => .fail (mismatch typeName tag "overflow attributes")

/-- Read the element `e` at `path` as a value of the type under `key`. -/
def readElement [DecidableEq κ] (family : Family κ) (key : κ) (path : String)
    (e : Element) : Traced (Record κ) := do
  let type := family key
  let descriptor := type.descriptor
  let tags ← .lift (descriptor.tags.mapError .schema)
  let slots ← (type.fields.zip tags).zipIdx.mapM fun ((bound, tag), index) =>
    match _ : locate family type.name tags index bound.field tag path e with
    | .error error => .fail error
    | .ok none => do
        if tag.required then Traced.fail (.decode (missing tag path))
        Traced.note (.absentField tag.name path)
        return none
    | .ok (some located) =>
        some <$> take type.name tag path bound.accessor located
          fun child _ key path => readElement family key path child
  .noteAll (ignored descriptor tags path e)
  return .mk key slots
termination_by sizeOf e
decreasing_by
  exact sizeOf_located_lt ‹locate _ _ _ _ _ _ _ _ = _› ‹_ ∈ located.elements›

/-- Read an element that stands on its own, whatever its name. -/
def readRoot [DecidableEq κ] (family : Family κ) (key : κ) (e : Element) :
    Traced (Record κ) :=
  readElement family key ("/" ++ e.name) e

/-- Read a document.  Its root has to bear the name of the type. -/
def readDocument [DecidableEq κ] (family : Family κ) (key : κ)
    (document : Document) : Traced (Record κ) := do
  let type := family key
  let root := document.root
  .note (.decodingDocument type.name)
  if root.name = type.name ∧ type.rule.admitsRoot root.ns then
    readRoot family key root
  else .fail (.decode (.missingElement type.name "/"))

end Epub.Binding
