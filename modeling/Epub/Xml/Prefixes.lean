/-
Choosing prefixes.  A tree stores namespaces, so whoever writes it picks the
prefixes: one already bound to the namespace if there is one, else the usual
prefix of the namespace, else a numbered one that is free.
-/
import Epub.Xml.Element

namespace Epub.Xml

/-- The declarations written on one element. -/
abbrev Frame : Type := List NamespaceDecl

/-- The declarations of an element and of those around it, innermost first. -/
abbrev Frames : Type := List Frame

namespace Frames

/-- The frames around the root: the prefix `xml` needs no declaration. -/
def initial : Frames :=
  [[⟨"xml", xmlNamespace⟩]]

/-- The innermost URI bound to a prefix. -/
def lookup? (frames : Frames) (label : String) : Option String :=
  (frames.flatten.find? (·.label = label)).map NamespaceDecl.uri

/-- A prefix bound to `uri` and not hidden by an inner frame.  The default
namespace does not count. -/
def boundLabel? (frames : Frames) (uri : String) : Option String :=
  ((frames.flatten.filter (fun d => d.label ≠ "" ∧ d.uri = uri)).find?
    (fun d => frames.lookup? d.label = some uri)).map NamespaceDecl.label

/-- A prefix for an element in `uri`, preferably none. -/
def elementLabel? (frames : Frames) (uri : String) : Option String :=
  if frames.lookup? "" = some uri then some "" else frames.boundLabel? uri

/-- Declare a prefix in the innermost frame, in place of any declaration of it
that stands there. -/
def declare (frames : Frames) (label uri : String) : Frames :=
  match frames with
  | [] => []
  | inner :: outer => (inner.filter (·.label ≠ label) ++ [⟨label, uri⟩]) :: outer

/-- The numbered prefixes. -/
def numbered (n : Nat) : String :=
  s!"ns{n}"

/-- The number of the first free numbered prefix from `start` on.  Among as
many candidates as there are declarations, and one more, one is free. -/
def freeNumber (frames : Frames) (start : Nat) : Nat :=
  let bound := frames.flatten.length
  let isFree := fun n => (frames.lookup? (numbered n)).isNone
  ((List.range' start (bound + 1)).find? isFree).getD (start + bound)

/-- The prefix a namespace is usually given. -/
def usualLabel? (uri : String) : Option String :=
  if uri = dcNamespace then some "dc"
  else if uri = opfNamespace then some "opf"
  else none

/-- The state of the choice: the declarations in force, and the number from
which on numbered prefixes are tried. -/
structure Choice where
  frames : Frames
  next : Nat
deriving Repr

/-- Declare a new prefix for `uri`. -/
def Choice.invent (choice : Choice) (uri : String) : String × Choice :=
  let isFree := fun label => (choice.frames.lookup? label).isNone
  let usual := (usualLabel? uri).filter isFree
  match usual with
  | some label => (label, { choice with frames := choice.frames.declare label uri })
  | none =>
      let number := choice.frames.freeNumber choice.next
      (numbered number, ⟨choice.frames.declare (numbered number) uri, number + 1⟩)

/-- A prefix for an attribute in `uri`, declared now if none is bound. -/
def Choice.attributeLabel (choice : Choice) (uri : String) : String × Choice :=
  match choice.frames.boundLabel? uri with
  | some label => (label, choice)
  | none => choice.invent uri

end Frames

end Epub.Xml
