/-
Container documents: where the package documents of a publication are.
-/
import Epub.Model.Package

namespace Epub.Model

/-- A document listed by the container. -/
structure Rootfile where
  /-- The path from the root of the container. -/
  fullPath : String
  mediaType : String
deriving DecidableEq, Repr, Inhabited

/-- A resource linked by the container. -/
structure ContainerLink where
  href : String
  rel : String
  mediaType : Option String
deriving DecidableEq, Repr, Inhabited

/-- A container document. -/
structure Container where
  version : String
  rootfiles : List Rootfile
  links : List ContainerLink
deriving DecidableEq, Repr

instance : Inhabited Container := ⟨⟨"1.0", [], []⟩⟩

namespace Container

/-- A container that lists one package document. -/
def ofPackage (path : String) : Container :=
  { (default : Container) with rootfiles := [⟨path, packageMediaType⟩] }

/-- The path of the first package document listed. -/
def packagePath? (container : Container) : Option String :=
  (container.rootfiles.find? (·.mediaType = packageMediaType)).map Rootfile.fullPath

end Container

end Epub.Model
