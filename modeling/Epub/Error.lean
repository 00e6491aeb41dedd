/-
Errors: everything that can stop the reading or writing of a publication.
-/
import Epub.Xml.Fault
import Epub.Schema.Tag

namespace Epub

/-- Why an element is no value of a type.  Each cause names the field where
there is one, and the path of the element where reading stopped. -/
inductive DecodeFault where
  | missingAttribute (name path : String)
  | missingElement (name path : String)
  | missingText (path : String)
  | tooManyMatches (name path : String)
  | unknownVariant (name path : String)
  | invalidNumber (name raw path : String)
  | invalidKeyword (name raw path : String)
deriving DecidableEq, Repr

namespace DecodeFault

/-- The element where reading stopped. -/
def path : DecodeFault → String
  | .missingAttribute _ path => path
  | .missingElement _ path => path
  | .missingText path => path
  | .tooManyMatches _ path => path
  | .unknownVariant _ path => path
  | .invalidNumber _ _ path => path
  | .invalidKeyword _ _ path => path

def message : DecodeFault → String
  | .missingAttribute name path => s!"missing required attribute `{name}` at {path}"
  | .missingElement name path => s!"missing required element `{name}` at {path}"
  | .missingText path => s!"missing required text content at {path}"
  | .tooManyMatches name path => s!"expected a single `{name}` element at {path}"
  | .unknownVariant name path => s!"unknown element `{name}` at {path}"
  | .invalidNumber name raw path => s!"invalid number `{raw}` for `{name}` at {path}"
  | .invalidKeyword name raw path => s!"invalid value `{raw}` for `{name}` at {path}"

end DecodeFault

/-- Everything that can go wrong. -/
inductive Error where
  | xml (fault : Xml.Fault)
  | decode (fault : DecodeFault)
  | schema (fault : Schema.SchemaFault)
  | missingPart (path : String)
  | noPackage
  | io (message : String)
  | archive (message : String)
deriving DecidableEq, Repr

def Error.message : Error → String
  | .xml fault => fault.message
  | .decode fault => fault.message
  | .schema fault => fault.message
  | .missingPart path => s!"part not found: {path}"
  | .noPackage => "no package document listed in container"
  | .io message => s!"I/O error: {message}"
  | .archive message => s!"ZIP error: {message}"

end Epub
