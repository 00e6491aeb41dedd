/-
Prefixes in scope while a document is read.  The bindings hold URIs as they
are written in the start tags, the innermost binding first, so the first match
is the one that counts.
-/
import Epub.Xml.StartTag

namespace Epub.Xml

/-- A name as written, cut at its first colon. -/
structure RawName where
  label : Option (List Char)
  localPart : List Char
deriving DecidableEq, Repr

/-- Cut a name at its first colon. -/
def RawName.of (name : List Char) : RawName :=
  let label := name.takeWhile (· ≠ ':')
  match name.drop label.length with
  | _ :: localPart => ⟨some label, localPart⟩
  | [] => ⟨none, name⟩

/-- What an attribute key declares: `none` for an ordinary attribute, else the
prefix, which is absent in a declaration of the default namespace. -/
def declaredLabel? (key : List Char) : Option (Option (List Char)) :=
  if key = "xmlns".toList then some none
  else if "xmlns:".toList.isPrefixOf key then some (some (key.drop 6))
  else none

/-- The bindings in force, innermost first. -/
abbrev Scope : Type := List NamespaceDecl

namespace Scope

/-- The bindings every document starts with. -/
def initial : Scope :=
  [⟨"xml", xmlNamespace⟩, ⟨"xmlns", xmlnsNamespace⟩]

/-- The URI bound to a prefix. -/
def lookup? (scope : Scope) (label : String) : Option String :=
  (scope.find? (·.label = label)).map NamespaceDecl.uri

/-- Add one declaration.  The reserved prefixes keep their namespaces, and no
other prefix may take these. -/
def bind (scope : Scope) (label : Option (List Char)) (uri : String) :
    Except BindingFault Scope :=
  match label with
  | none => .ok (⟨"", uri⟩ :: scope)
  | some chars =>
      let name := String.ofList chars
      if name = "xml" then
        if uri = xmlNamespace then .ok scope else .error (.xmlElsewhere uri)
      else if name = "xmlns" then .error (.xmlnsDeclared uri)
      else if uri = xmlNamespace then .error (.boundToXml name)
      else if uri = xmlnsNamespace then .error (.boundToXmlns name)
      else .ok (⟨name, uri⟩ :: scope)

/-- Add the declarations among the attributes of a start tag, in order, up to
the first attribute that is broken. -/
def bindAll (scope : Scope) : List RawAttribute → Except BindingFault Scope
  | [] => .ok scope
  | attr :: rest =>
      match attr.value with
      | .error _ => .ok scope
      | .ok value =>
          match declaredLabel? attr.key with
          | none => bindAll scope rest
          | some label => do
              let inner ← scope.bind label (String.ofList value)
              inner.bindAll rest

/-- The namespace of a prefix that a name uses. -/
def resolveLabel (scope : Scope) (label : List Char) : Except Fault (Option String) :=
  let name := String.ofList label
  match if name = "" then none else scope.lookup? name with
  | none => .error (.unboundLabel name)
  | some "" => .error (.unboundLabel name)
  | some uri => .ok (some uri)

/-- The namespace of an element name: without a prefix, the default one. -/
def resolveElement (scope : Scope) (name : RawName) : Except Fault (Option String) :=
  match name.label with
  | none => .ok ((scope.lookup? "").filter (· ≠ ""))
  | some label => scope.resolveLabel label

/-- The namespace of an attribute name: without a prefix, none. -/
def resolveAttribute (scope : Scope) (name : RawName) : Except Fault (Option String) :=
  match name.label with
  | none => .ok none
  | some label => scope.resolveLabel label

end Scope

end Epub.Xml
