/-
The tables of the EPUB documents are well-bound.  Every container and every package can
be written, and a document that is no container or package is refused for what is in it.
-/
import Epub.Model.Document
import Epub.Proofs.Binding.Failing
import Epub.Proofs.Model.Faithful

namespace Epub.Model

open Epub.Binding Epub.Schema Epub.Xml

/-- All tables make sense, whatever stands inside of what. -/
theorem wellBound_family (key : ElementType) : WellBound family key := by
  intro type _
  have hplace := unambiguousAt_place type
  obtain ⟨tags, htags⟩ := hplace.tags
  exact ⟨BoundType.eq_tags htags, fun bound hbound => (hplace.faithful bound hbound).fits⟩

section Models

variable {α : Type} {key : ElementType} {toRecord : α → ElementRecord}
  {ofRecord : ElementRecord → α}

theorem Represents.isShaped (hrepresents : Represents key toRecord ofRecord) (a : α) :
    (toRecord a).IsShaped family :=
  (hrepresents.wellTyped a).isShaped

/-- Whatever a model holds, it can be written. -/
theorem Represents.exists_written (hrepresents : Represents key toRecord ofRecord) (a : α) :
    ∃ document, (writeDocument family (toRecord a)).outcome = .ok document :=
  (hrepresents.isShaped a).exists_document (wellBound_family _)

/-- A document is a model, or the fault lies with the document. -/
theorem ok_or_decode (key : ElementType) (ofRecord : ElementRecord → α) (document : Document) :
    (∃ a, (ofRecord <$> readDocument family key document).outcome = .ok a) ∨
      ∃ fault, (ofRecord <$> readDocument family key document).outcome =
        .error (.decode fault) := by
  rw [Traced.outcome_map]
  rcases readDocument_ok_or_decode (wellBound_family key) document with
    ⟨record, hread⟩ | ⟨fault, hread⟩
  · exact Or.inl ⟨ofRecord record, by rw [hread]; rfl⟩
  · exact Or.inr ⟨fault, by rw [hread]; rfl⟩

end Models

/-- Tables that make sense are never to blame.  For a well-bound type, reading an element
gives a value or an error of reading, and every value can be written.  All types of the EPUB
documents are well-bound, so containers and packages can always be written, and reading a
document as one of them never fails for its tables. -/
theorem wellBound_total :
    (∀ (κ : Type) [DecidableEq κ] (family : Family κ) (key : κ), WellBound family key →
      (∀ path e, (∃ record, (readElement family key path e).outcome = .ok record) ∨
        ∃ fault, (readElement family key path e).outcome = .error (.decode fault)) ∧
      ∀ record : Record κ, record.type = key → record.IsShaped family →
        ∀ name ns declarations, ∃ e, writeElement family record name ns declarations = .ok e) ∧
    (∀ type : ElementType, WellBound family type) ∧
    (∀ container : Container, container.toRecord.IsShaped family ∧
      ∃ document, container.toDocument.outcome = .ok document) ∧
    (∀ package : Package, package.toRecord.IsShaped family ∧
      ∃ document, package.toDocument.outcome = .ok document) ∧
    ∀ document : Document,
      ((∃ container, (Container.ofDocument document).outcome = .ok container) ∨
        ∃ fault, (Container.ofDocument document).outcome = .error (.decode fault)) ∧
      ((∃ package, (Package.ofDocument document).outcome = .ok package) ∨
        ∃ fault, (Package.ofDocument document).outcome = .error (.decode fault)) := by
  refine ⟨fun κ _ family key hfamily => ⟨readElement_ok_or_decode hfamily, ?_⟩,
    wellBound_family, fun container => ?_, fun package => ?_, fun document => ?_⟩
  · rintro record rfl hshaped
    exact hshaped.exists_element hfamily
  · exact ⟨Container.represents.isShaped container, Container.represents.exists_written container⟩
  · exact ⟨Package.represents.isShaped package, Package.represents.exists_written package⟩
  · exact ⟨ok_or_decode .container Container.ofRecord document,
      ok_or_decode .package Package.ofRecord document⟩

theorem wellBound_total_sections :
    WellBound sections () ∧ outerSection.IsShaped sections ∧
    ((∃ record, (readElement sections () "/section" crampedSection).outcome = .ok record) ∨
      ∃ fault, (readElement sections () "/section" crampedSection).outcome =
        .error (.decode fault)) ∧
    ∃ e, writeElement sections outerSection "section" none [⟨"s", "urn:sections"⟩] = .ok e := by
  have hshaped : outerSection.IsShaped sections := wellTyped_sections.2.isShaped
  obtain ⟨hread, hwrite⟩ := wellBound_total.1 Unit sections () wellBound_sections
  exact ⟨wellBound_sections, hshaped, hread "/section" crampedSection,
    hwrite outerSection rfl hshaped "section" none [⟨"s", "urn:sections"⟩]⟩

end Epub.Model
