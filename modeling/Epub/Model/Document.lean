/-
Packages, containers and metadata as documents: from bytes to a model and back.
-/
import Epub.Binding.Reading
import Epub.Binding.Writing
import Epub.Model.Conversion
import Epub.Model.Retention
import Epub.Xml.Markup
import Epub.Xml.Reader

namespace Epub.Model

open Epub.Binding Epub.Xml

/-- Read a document as a record of the type under `type`. -/
def readRecord (type : ElementType) (bytes : ByteArray) : Traced ElementRecord := do
  Binding.readDocument family type (← .lift ((Xml.readDocument bytes).mapError .xml))

/-- Write a record as a document. -/
def writeRecord (record : ElementRecord) (layout : Layout) : Traced ByteArray := do
  return (← writeDocument family record).toBytes layout

namespace Container

/-- Take a container from a tree. -/
def ofDocument (document : Document) : Traced Container :=
  ofRecord <$> Binding.readDocument family .container document

def ofBytes (bytes : ByteArray) : Traced Container :=
  ofRecord <$> readRecord .container bytes

/-- Turn a container into a tree. -/
def toDocument (container : Container) : Traced Document :=
  writeDocument family container.toRecord

def toBytes (container : Container) (layout : Layout) : Traced ByteArray :=
  writeRecord container.toRecord layout

end Container

namespace Metadata

def ofBytes (bytes : ByteArray) : Traced Metadata :=
  ofRecord <$> readRecord .metadata bytes

end Metadata

namespace Package

/-- Take a package from a tree. -/
def ofDocument (document : Document) : Traced Package :=
  ofRecord <$> Binding.readDocument family .package document

def ofBytes (bytes : ByteArray) : Traced Package :=
  ofRecord <$> readRecord .package bytes

/-- Turn a package into a tree. -/
def toDocument (package : Package) : Traced Document :=
  writeDocument family package.toRecord

def toBytes (package : Package) (layout : Layout) : Traced ByteArray :=
  writeRecord package.toRecord layout

/-- Fit the package to an edition, and note it. -/
def clearFor (package : Package) (version : Version) : Traced Package := do
  .note (.clearingFields version.text)
  return package.retainFor version

/-- The manifest items in reading order, noting the entries that lead
nowhere. -/
def readingOrder (package : Package) : Traced (List ManifestItem) := do
  .noteAll (package.danglingItemrefs.map fun itemref => .danglingItemref itemref.idref)
  return package.spineItems

end Package

end Epub.Model
