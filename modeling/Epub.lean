import Epub.Parts.Publication
import Epub.Proofs.Binding.Foreign
import Epub.Proofs.Binding.Ignored
import Epub.Proofs.Binding.Leftover
import Epub.Proofs.Binding.Rearranged
import Epub.Proofs.Binding.Removal
import Epub.Proofs.Binding.Variants
import Epub.Proofs.Model.AttributeOrder
import Epub.Proofs.Model.FittedToEpub2
import Epub.Proofs.Model.FittedToEpub3
import Epub.Proofs.Model.Projection
import Epub.Proofs.Parts.Publishing
import Epub.Proofs.Xml.Pieces
import Epub.Proofs.Xml.Pruning
import Epub.Proofs.Parts.Destination
import Epub.Proofs.Parts.Containment
import Epub.Proofs.Parts.Composition
import Epub.Proofs.Parts.Scheme
import Epub.Proofs.Text.Percent
import Epub.Proofs.Parts.Lookup
import Epub.Proofs.Schema.Integer
import Epub.Proofs.Schema.Tag
import Epub.Proofs.Model.Version
import Epub.Proofs.Xml.Choosing
import Epub.Proofs.Xml.History
