/-
Building the tree of a document from its tokens.  Open elements stand on a
stack, each with the text gathered so far and the bindings in force inside it.
The first fault in document order is the one reported.
-/
import Epub.Xml.Token
import Epub.Xml.Scope

namespace Epub.Xml

open Epub.Text

/-- An element whose end tag is still to come. -/
structure OpenElement where
  /-- The name as written, which the end tag repeats. -/
  rawName : List Char
  /-- The element as its start tag gave it. -/
  element : Element
  /-- The children closed so far, latest first. -/
  closed : List Element
  /-- The text gathered so far. -/
  text : List Char
  /-- The bindings in force inside the element. -/
  scope : Scope
deriving Repr

/-- What has been read so far: the open elements, innermost first, and the
root once it is closed. -/
structure ReadState where
  stack : List OpenElement
  root : Option Element
deriving Repr

/-- Add the attributes of a start tag to its element.  `seen` holds the keys
of the attributes before, with their positions. -/
def addAttributes (scope : Scope) (keyFault : Option AttributeFault) (e : Element)
    (seen : List (List Char × Nat)) : List RawAttribute → Except Fault Element
  | [] =>
      match keyFault with
      | none => .ok e
      | some fault => .error (.malformed (.brokenAttribute fault))
  | attr :: rest => do
      if let some earlier := seen.lookup attr.key then
        throw (.malformed (.brokenAttribute (.duplicate attr.position earlier)))
      let raw ← attr.value.mapError fun fault => .malformed (.brokenAttribute fault)
      let value ←
        (unescape raw).mapError fun fault => .malformed (.brokenReference fault)
      let seen := seen ++ [(attr.key, attr.position)]
      match declaredLabel? attr.key with
      | some label =>
          let declaration := ⟨String.ofList (label.getD []), value⟩
          let e := { e with declarations := e.declarations ++ [declaration] }
          addAttributes scope keyFault e seen rest
      | none =>
          let name := RawName.of attr.key
          let ns ← scope.resolveAttribute name
          let e := e.setAttribute ⟨String.ofList name.localPart, ns⟩ value
          addAttributes scope keyFault e seen rest

/-- Open the element of a start tag inside `scope`. -/
def openElement (scope : Scope) (content : List Char) : Except Fault OpenElement := do
  let rawName := tagName content
  let (attributes, keyFault) := rawAttributes content
  let inner ← (scope.bindAll attributes).mapError .binding
  let name := RawName.of rawName
  let ns ← inner.resolveElement name
  let e := Element.empty (String.ofList name.localPart) ns
  let e ← addAttributes inner keyFault e [] attributes
  return ⟨rawName, e, [], [], inner⟩

/-- The finished element.  A text without a character that shows is dropped. -/
def OpenElement.close (o : OpenElement) : Element :=
  let text := String.ofList o.text
  { o.element with
    children := o.closed.reverse
    text := if isBlankText text then none else some text }

namespace ReadState

/-- The state before the first token. -/
def initial : ReadState :=
  ⟨[], none⟩

/-- The bindings in force for the next tag. -/
def scope (state : ReadState) : Scope :=
  match state.stack with
  | [] => Scope.initial
  | top :: _ => top.scope

/-- Put a finished element under the innermost open one, or at the root. -/
def attach (state : ReadState) (e : Element) : Except Fault ReadState :=
  match state.stack with
  | top :: rest =>
      .ok { state with stack := { top with closed := e :: top.closed } :: rest }
  | [] =>
      match state.root with
      | none => .ok { state with root := some e }
      | some _ => .error (.malformed .severalRoots)

/-- Append characters to the innermost open element.  Outside the root they
are dropped. -/
def addText (state : ReadState) (chars : List Char) : ReadState :=
  match state.stack with
  | [] => state
  | top :: rest =>
      { state with stack := { top with text := top.text ++ chars } :: rest }

/-- Take one token. -/
def step (state : ReadState) : Token → Except Fault ReadState
  | .text chars => .ok (state.addText chars)
  | .cdata chars => .ok (state.addText chars)
  | .reference name =>
      match state.stack with
      | [] => .ok state
      | _ :: _ =>
          match resolveText? name with
          | some c => .ok (state.addText [c])
          | none => .error (.malformed (.unknownEntity (String.ofList name)))
  | .comment => .ok state
  | .instruction => .ok state
  | .doctype => .ok state
  | .startTag content closed => do
      let opened ← openElement state.scope content
      if closed then state.attach opened.element
      else return { state with stack := opened :: state.stack }
  | .endTag name =>
      match state.stack with
      | [] => .error (.illFormed (.unmatchedEnd (String.ofList name)))
      | top :: rest =>
          if top.rawName = name then { state with stack := rest }.attach top.close
          else
            .error (.illFormed
              (.mismatchedEnd (String.ofList top.rawName) (String.ofList name)))

/-- The document, when every element is closed. -/
def finish (state : ReadState) : Except Fault Document :=
  match state.stack, state.root with
  | _ :: _, _ => .error (.malformed .unfinished)
  | [], none => .error (.malformed .noRoot)
  | [], some root => .ok ⟨root⟩

end ReadState

/-- Read the document that `cs` writes. -/
def readChars (cs : List Char) : Except Fault Document := do
  let (tokens, fault) := tokenize cs
  let state ← tokens.foldlM ReadState.step ReadState.initial
  match fault with
  | some fault => throw fault
  | none => state.finish

/-- Read a document.  One byte order mark before the text and one more at its
start are dropped. -/
def readDocument (bytes : ByteArray) : Except Fault Document := do
  let text ← (Utf8.decode (Utf8.dropByteOrderMark bytes)).mapError .encoding
  match text.toList with
  | '\ufeff' :: cs => readChars cs
  | cs => readChars cs

end Epub.Xml
