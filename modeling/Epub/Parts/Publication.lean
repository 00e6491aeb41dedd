/-
The documents of a publication.  The container says where the package document
is, and a package is fitted to its own edition before it is written.
-/
import Epub.Model.Document
import Epub.Parts.Href
import Epub.Parts.Store

namespace Epub.Parts

open Epub.Model Epub.Xml

/-- Where every publication keeps its container document. -/
def containerPath : String := "META-INF/container.xml"

/-- A package document and the place where it was found. -/
structure PackagePart where
  path : String
  package : Package
deriving DecidableEq, Repr

/-- Join a reference of the manifest to the directory of the package
document. -/
def PackagePart.resolve (part : PackagePart) (href : String) : String :=
  resolveHref part.path href

variable {σ : Type}

section Reading

variable [PartSource σ]

/-- Read a part and take it as a document. -/
def readPartAs {α : Type} (ofBytes : ByteArray → Traced α) (store : σ)
    (path : String) : Traced α := do
  .note (.readingPart path)
  ofBytes (← .lift (PartSource.readPart store path))

def readContainer (store : σ) : Traced Container :=
  readPartAs Container.ofBytes store containerPath

def readMetadata (store : σ) (path : String) : Traced Metadata :=
  readPartAs Metadata.ofBytes store path

/-- Read the package document that the container lists first. -/
def readPackage (store : σ) : Traced PackagePart := do
  let container ← readContainer store
  match container.packagePath? with
  | none => .fail .noPackage
  | some path => return ⟨path, ← readPartAs Package.ofBytes store path⟩

end Reading

section Writing

variable [PartSink σ]

/-- Write the container document. -/
def writeContainer (store : σ) (container : Container) (layout : Layout) :
    Traced σ := do
  .note (.writingPart containerPath)
  let bytes ← container.toBytes layout
  .lift (PartSink.writePart store containerPath bytes)

/-- Write a package document at `path`.  What the package's own edition does
not define is cleared first; an unknown edition clears nothing. -/
def writePackage (store : σ) (path : String) (package : Package) (layout : Layout) :
    Traced σ := do
  .note (.writingPackage path package.version)
  let fitted ←
    match package.edition? with
    | some version => package.clearFor version
    | none => pure package
  let bytes ← fitted.toBytes layout
  .lift (PartSink.writePart store path bytes)

end Writing

end Epub.Parts
