/-
Element trees.  Names are resolved: an element or attribute carries its local
name and its namespace, and prefixes survive only as declarations recorded on
the element that introduced them.  Attributes are an insertion-ordered map from
qualified names, and declarations keep the first URI given to a prefix.
-/

namespace Epub.Xml

/-- Namespace of package documents. -/
def opfNamespace : String := "http://www.idpf.org/2007/opf"

/-- Namespace of the Dublin Core elements. -/
def dcNamespace : String := "http://purl.org/dc/elements/1.1/"

/-- Namespace of the container document. -/
def containerNamespace : String := "urn:oasis:names:tc:opendocument:xmlns:container"

/-- Namespace that the prefix `xml` always stands for. -/
def xmlNamespace : String := "http://www.w3.org/XML/1998/namespace"

/-- Namespace that the prefix `xmlns` always stands for. -/
def xmlnsNamespace : String := "http://www.w3.org/2000/xmlns/"

/-- A prefix bound to a namespace URI.  The empty label declares the default
namespace. -/
structure NamespaceDecl where
  label : String
  uri : String
deriving DecidableEq, Repr, Inhabited

/-- A local name with its namespace; `none` is "no namespace", which differs
from a namespace of no characters. -/
structure QName where
  name : String
  ns : Option String
deriving DecidableEq, Repr, Inhabited

/-- An attribute under its resolved name. -/
structure Attribute where
  name : String
  ns : Option String
  value : String
deriving DecidableEq, Repr, Inhabited

/-- The resolved name under which an element keeps an attribute. -/
def Attribute.key (attr : Attribute) : QName :=
  ⟨attr.name, attr.ns⟩

/-- An element holds child elements or a text; when both are given, the
children are what is written. -/
structure Element where
  name : String
  ns : Option String
  attributes : List Attribute
  children : List Element
  text : Option String
  declarations : List NamespaceDecl
deriving Repr, Inhabited

mutual

/-- Equality of trees is decidable. -/
def Element.decEq : (left right : Element) → Decidable (left = right)
  | ⟨name, ns, attributes, children, text, declarations⟩,
    ⟨name', ns', attributes', children', text', declarations'⟩ =>
      if hown : (name, ns, attributes, text, declarations) =
          (name', ns', attributes', text', declarations') then
        match Element.decEqList children children' with
        | isTrue hchildren => isTrue (by
            simp only [Prod.mk.injEq] at hown
            simp [hown, hchildren])
        | isFalse hchildren => isFalse (by
            intro heq
            simp only [Element.mk.injEq] at heq
            exact hchildren heq.2.2.2.1)
      else isFalse (by
        intro heq
        simp only [Element.mk.injEq] at heq
        simp [heq] at hown)

/-- Equality of lists of trees is decidable. -/
def Element.decEqList : (left right : List Element) → Decidable (left = right)
  | [], [] => isTrue rfl
  | [], _ :: _ => isFalse (by simp)
  | _ :: _, [] => isFalse (by simp)
  | head :: tail, head' :: tail' =>
      match Element.decEq head head', Element.decEqList tail tail' with
      | isTrue hhead, isTrue htail => isTrue (by simp [hhead, htail])
      | isFalse hhead, _ => isFalse (by simp [hhead])
      | _, isFalse htail => isFalse (by simp [htail])

end

instance : DecidableEq Element := Element.decEq

/-- A document is its root element. -/
structure Document where
  root : Element
deriving DecidableEq, Repr, Inhabited

namespace Element

/-- An element with nothing in it. -/
def empty (name : String) (ns : Option String) : Element :=
  ⟨name, ns, [], [], none, []⟩

/-- Whether the element has this local name and namespace. -/
def Named (e : Element) (name : String) (ns : Option String) : Prop :=
  e.name = name ∧ e.ns = ns

instance (e : Element) (name : String) (ns : Option String) :
    Decidable (e.Named name ns) :=
  inferInstanceAs (Decidable (_ ∧ _))

/-- The value of the attribute under `key`. -/
def get? (e : Element) (key : QName) : Option String :=
  (e.attributes.find? (·.key = key)).map Attribute.value

/-- Give the first attribute under `key` a new value, or append one. -/
def setIn (key : QName) (value : String) : List Attribute → List Attribute
  | [] => [⟨key.name, key.ns, value⟩]
  | head :: tail =>
      if head.key = key then { head with value } :: tail
      else head :: setIn key value tail

/-- Set the attribute under `key`.  A new value keeps the old position. -/
def setAttribute (e : Element) (key : QName) (value : String) : Element :=
  { e with attributes := setIn key value e.attributes }

/-- Set an attribute that has no namespace. -/
def withAttribute (e : Element) (name value : String) : Element :=
  e.setAttribute ⟨name, none⟩ value

/-- Remove the first attribute under `key`. -/
def removeAttribute (e : Element) (key : QName) : Element :=
  { e with attributes := e.attributes.eraseP (·.key = key) }

/-- Take the first attribute under `key` out of the element, for its value. -/
def takeAttribute (e : Element) (key : QName) : Option String × Element :=
  match e.attributes.findIdx? (·.key = key) with
  | none => (none, e)
  | some index =>
      (e.attributes[index]?.map Attribute.value,
        { e with attributes := e.attributes.eraseIdx index })

/-- What is taken out is what was found under `key`, and what is left is what removing it
leaves. -/
theorem takeAttribute_eq (e : Element) (key : QName) :
    e.takeAttribute key = (e.get? key, e.removeAttribute key) := by
  rw [takeAttribute, get?, removeAttribute, List.find?_eq_bind_findIdx?_getElem?,
    List.eraseP_eq_eraseIdx]
  cases e.attributes.findIdx? (·.key = key) with
  | none => cases e; rfl
  | some index => rfl

/-- The children with this local name and namespace, in document order. -/
def childrenNamed (e : Element) (name : String) (ns : Option String) : List Element :=
  e.children.filter (fun child => decide (child.Named name ns))

/-- The text of the element, when it has a character. -/
def ownText? (e : Element) : Option String :=
  e.text.filter (· ≠ "")

/-- Declare a prefix, unless the element already declares it. -/
def declare (e : Element) (declaration : NamespaceDecl) : Element :=
  if e.declarations.any (·.label = declaration.label) then e
  else { e with declarations := e.declarations ++ [declaration] }

/-- Declare several prefixes in turn. -/
def declareAll (e : Element) (declarations : List NamespaceDecl) : Element :=
  declarations.foldl declare e

/-- Append a child. -/
def addChild (e child : Element) : Element :=
  { e with children := e.children ++ [child] }

theorem sizeOf_child_lt {e child : Element} (hchild : child ∈ e.children) :
    sizeOf child < sizeOf e := by
  have hlt := List.sizeOf_lt_of_mem hchild
  cases e
  simp only [Element.mk.sizeOf_spec]
  simp only at hlt
  omega

end Element

end Epub.Xml
