/-
Markup: trees whose names are spelled with prefixes and whose declarations are
plain attributes, as they stand in a document.  Writing an element tree first
spells it and then lays the spelling out.
-/
import Epub.Xml.Prefixes

namespace Epub.Xml

/-- An element as spelled. -/
structure Markup where
  name : String
  attributes : List (String × String)
  children : List Markup
  text : String
deriving Repr, Inhabited

/-- How a document is laid out. -/
structure Layout where
  /-- Spaces for each level; `none` writes everything on one line. -/
  indent : Option Nat
  /-- Whether the document starts with an XML declaration. -/
  declaration : Bool
deriving DecidableEq, Repr

namespace Layout

/-- Two spaces for each level, after an XML declaration. -/
def standard : Layout :=
  ⟨some 2, true⟩

/-- One line, without an XML declaration. -/
def compact : Layout :=
  ⟨none, false⟩

/-- The break between two lines. -/
def lineBreak (layout : Layout) : String :=
  if layout.indent.isSome then "\n" else ""

/-- The space in front of an element. -/
def margin (layout : Layout) (depth : Nat) : String :=
  String.ofList (List.replicate (layout.indent.getD 0 * depth) ' ')

end Layout

/-- A character as it stands in text and in attribute values. -/
def escapeChar (c : Char) : String :=
  if c = '<' then "&lt;"
  else if c = '>' then "&gt;"
  else if c = '&' then "&amp;"
  else if c = '\'' then "&apos;"
  else if c = '"' then "&quot;"
  else String.singleton c

/-- A text as it stands between tags and quotation marks. -/
def escape (s : String) : String :=
  String.join (s.toList.map escapeChar)

/-- An attribute as spelled. -/
abbrev Spelling : Type := String × String

/-- Spell one attribute. -/
def spellAttribute (choice : Frames.Choice) (attr : Attribute) :
    Spelling × Frames.Choice :=
  match attr.ns with
  | none => ((attr.name, attr.value), choice)
  | some uri =>
      if uri = xmlNamespace then (("xml:" ++ attr.name, attr.value), choice)
      else
        let (label, choice) := choice.attributeLabel uri
        ((label ++ ":" ++ attr.name, attr.value), choice)

/-- Spell attributes in turn. -/
def spellAttributes (choice : Frames.Choice) :
    List Attribute → List Spelling × Frames.Choice
  | [] => ([], choice)
  | attr :: rest =>
      let (spelled, choice) := spellAttribute choice attr
      let (others, choice) := spellAttributes choice rest
      (spelled :: others, choice)

/-- The attribute that makes a declaration. -/
def spellDeclaration (declaration : NamespaceDecl) : Spelling :=
  if declaration.label = "" then ("xmlns", declaration.uri)
  else ("xmlns:" ++ declaration.label, declaration.uri)

/-- Spell an element name.  A namespace without a prefix becomes the default
one here, and an element without a namespace takes back a default one. -/
def spellName (frames : Frames) (name : String) (ns : Option String) :
    String × Frames :=
  match ns with
  | some uri =>
      match frames.elementLabel? uri with
      | some "" => (name, frames)
      | some label => (label ++ ":" ++ name, frames)
      | none => (name, frames.declare "" uri)
  | none =>
      if (frames.lookup? "").any (· ≠ "") then (name, frames.declare "" "")
      else (name, frames)

mutual

/-- Spell an element inside the frames of `choice`.  Of its own declarations,
those already in force are left out. -/
def spell (choice : Frames.Choice) : Element → Markup × Frames.Choice
  | ⟨name, ns, attributes, children, text, declarations⟩ =>
      let outer := choice.frames
      let own := declarations.filter (fun d => outer.lookup? d.label ≠ some d.uri)
      let (name, frames) := spellName (own :: outer) name ns
      let (attributes, choice) := spellAttributes ⟨frames, choice.next⟩ attributes
      let frame := choice.frames.headD []
      let (children, choice) := spellAll choice children
      (⟨name, frame.map spellDeclaration ++ attributes, children, text.getD ""⟩,
        ⟨outer, choice.next⟩)

/-- Spell elements in turn. -/
def spellAll (choice : Frames.Choice) : List Element → List Markup × Frames.Choice
  | [] => ([], choice)
  | e :: rest =>
      let (markup, choice) := spell choice e
      let (others, choice) := spellAll choice rest
      (markup :: others, choice)

end

/-- Attributes as they stand in a tag. -/
def renderAttributes (attributes : List Spelling) : String :=
  String.join (attributes.map fun (name, value) =>
    " " ++ name ++ "=\"" ++ escape value ++ "\"")

mutual

/-- Lay out an element at `depth`.  Children win over a text, and an element
with neither is one tag. -/
def Markup.render (layout : Layout) (depth : Nat) : Markup → String
  | ⟨name, attributes, children, text⟩ =>
      let tag := layout.margin depth ++ "<" ++ name ++ renderAttributes attributes
      let close := "</" ++ name ++ ">"
      if children.isEmpty then
        if text = "" then tag ++ "/>" else tag ++ ">" ++ escape text ++ close
      else
        tag ++ ">" ++ Markup.renderAll layout (depth + 1) children ++
          layout.lineBreak ++ layout.margin depth ++ close

/-- Lay out elements at `depth`, each after a break. -/
def Markup.renderAll (layout : Layout) (depth : Nat) : List Markup → String
  | [] => ""
  | first :: rest =>
      layout.lineBreak ++ first.render layout depth ++
        Markup.renderAll layout depth rest

end

/-- The XML declaration. -/
def xmlDeclaration : String :=
  "<?xml version=\"1.0\" encoding=\"UTF-8\"?>"

/-- Spell a document. -/
def Document.markup (document : Document) : Markup :=
  (spell ⟨Frames.initial, 0⟩ document.root).1

/-- Write a document. -/
def Document.write (document : Document) (layout : Layout) : String :=
  (if layout.declaration then xmlDeclaration ++ layout.lineBreak else "") ++
    document.markup.render layout 0 ++ layout.lineBreak

/-- Write a document as UTF-8. -/
def Document.toBytes (document : Document) (layout : Layout) : ByteArray :=
  (document.write layout).toUTF8

end Epub.Xml
