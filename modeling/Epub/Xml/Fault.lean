/-
Why a document cannot be read, cause by cause, with the wording of each cause.
-/
import Epub.Text.Utf8
import Epub.Text.Numeral
import Epub.Text.Literal
import Epub.Xml.Element

namespace Epub.Xml

open Epub.Text

/-- Markup that the input leaves open, or that is no markup at all. -/
inductive MarkupFault where
  | unknownMarkup
  | unclosedInstruction
  | unclosedDeclaration
  | unclosedComment
  | unclosedDoctype
  | unclosedCData
  | unclosedTag
  | unclosedValue (quote : Char)
deriving DecidableEq, Repr

/-- Markup that is complete but out of place. -/
inductive IllFormed where
  | namelessDoctype
  | unmatchedEnd (name : String)
  | mismatchedEnd (opened found : String)
  | unclosedReference
deriving DecidableEq, Repr

/-- Declarations that touch one of the two reserved prefixes or their
namespaces. -/
inductive BindingFault where
  | xmlElsewhere (uri : String)
  | xmlnsDeclared (uri : String)
  | boundToXml (label : String)
  | boundToXmlns (label : String)
deriving DecidableEq, Repr

/-- Broken attribute markup.  Positions count bytes from the one after `<`. -/
inductive AttributeFault where
  | expectedEquals (position : Nat)
  | expectedValue (position : Nat)
  | unquotedValue (position : Nat)
  | unclosedQuote (position : Nat) (quote : Char)
  | duplicate (position earlier : Nat)
deriving DecidableEq, Repr

/-- Broken references in an attribute value.  Ranges count bytes of the value
as written. -/
inductive ReferenceFault where
  | unterminated (start stop : Nat)
  | unknownName (start stop : Nat) (name : String)
  | signedNumber
  | numeral (fault : NumeralFault)
  | nullCharacter
  | notCharacter (code : Nat)
deriving DecidableEq, Repr

/-- Documents whose tags are whole but whose contents are not. -/
inductive Malformation where
  | brokenAttribute (fault : AttributeFault)
  | brokenReference (fault : ReferenceFault)
  | unknownEntity (name : String)
  | unfinished
  | noRoot
  | severalRoots
deriving DecidableEq, Repr

/-- Why a document cannot be read. -/
inductive Fault where
  | encoding (fault : Utf8.Fault)
  | markup (fault : MarkupFault)
  | illFormed (fault : IllFormed)
  | binding (fault : BindingFault)
  | unboundLabel (label : String)
  | malformed (cause : Malformation)
deriving DecidableEq, Repr

def MarkupFault.message : MarkupFault → String
  | .unknownMarkup => "unknown or missed symbol in markup"
  | .unclosedInstruction =>
      "processing instruction not closed: `?>` not found before end of input"
  | .unclosedDeclaration =>
      "XML declaration not closed: `?>` not found before end of input"
  | .unclosedComment => "comment not closed: `-->` not found before end of input"
  | .unclosedDoctype => "DOCTYPE not closed: `>` not found before end of input"
  | .unclosedCData => "CDATA not closed: `]]>` not found before end of input"
  | .unclosedTag => "tag not closed: `>` not found before end of input"
  | .unclosedValue quote =>
      s!"attribute value not closed: `{quote}` not found before end of input"

def IllFormed.message : IllFormed → String
  | .namelessDoctype =>
      "`<!DOCTYPE>` declaration does not contain a name of a document type"
  | .unmatchedEnd name => s!"close tag `</{name}>` does not match any open tag"
  | .mismatchedEnd opened found =>
      s!"expected `</{opened}>`, but `</{found}>` was found"
  | .unclosedReference =>
      "entity or character reference not closed: `;` not found before end of input"

def BindingFault.message (fault : BindingFault) : String :=
  let describe label uri :=
    s!"the namespace prefix '{label}' cannot be bound to '{uri}'"
  match fault with
  | .xmlElsewhere uri => describe "xml" (Literal.showBytes uri)
  | .xmlnsDeclared uri => describe "xmlns" (Literal.showBytes uri)
  | .boundToXml label => describe (Literal.showBytes label) xmlNamespace
  | .boundToXmlns label => describe (Literal.showBytes label) xmlnsNamespace

def AttributeFault.message : AttributeFault → String
  | .expectedEquals position =>
      s!"position {position}: attribute key must be directly followed by `=` or space"
  | .expectedValue position =>
      s!"position {position}: `=` must be followed by an attribute value"
  | .unquotedValue position =>
      s!"position {position}: attribute value must be enclosed in `\"` or `'`"
  | .unclosedQuote position quote =>
      s!"position {position}: missing closing quote `{quote}` in attribute value"
  | .duplicate position earlier =>
      s!"position {position}: duplicated attribute, previous declaration " ++
        s!"at position {earlier}"

def ReferenceFault.message : ReferenceFault → String
  | .unterminated start stop =>
      s!"Error while escaping character at range {start}..{stop}: " ++
        "Cannot find ';' after '&'"
  | .unknownName start stop name => s!"at {start}..{stop}: unrecognized entity `{name}`"
  | .signedNumber => "invalid character reference: unexpected number sign"
  | .numeral fault => "invalid character reference: " ++ fault.message
  | .nullCharacter =>
      "invalid character reference: 0x0 character is not permitted in XML"
  | .notCharacter code =>
      s!"invalid character reference: `{code}` is not a valid codepoint"

def Malformation.message : Malformation → String
  | .brokenAttribute fault => fault.message
  | .brokenReference fault => fault.message
  | .unknownEntity name => s!"unknown entity &{name};"
  | .unfinished => "unexpected end of document"
  | .noRoot => "document has no root element"
  | .severalRoots => "multiple root elements"

def Fault.message : Fault → String
  | .encoding fault => "UTF-8 decoding error: " ++ fault.message
  | .markup fault => "XML parsing error: syntax error: " ++ fault.message
  | .illFormed fault => "XML parsing error: ill-formed document: " ++ fault.message
  | .binding fault => "XML parsing error: " ++ fault.message
  | .unboundLabel label => s!"unbound namespace prefix `{label}`"
  | .malformed cause => "malformed XML: " ++ cause.message

end Epub.Xml
