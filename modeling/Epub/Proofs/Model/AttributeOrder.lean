/-
The order of attributes.  What the start tags of a document have as ordinary attributes is
kept, each with its own value, as long as those of one tag have different names once their
prefixes are resolved; documents like that may have their attributes in any order and hold
the same model.  Under one name the last attribute overwrites the others.
-/
import Epub.Proofs.Binding.Rearranged
import Epub.Proofs.Model.Total
import Epub.Proofs.Xml.Pruning
import Epub.Proofs.Xml.Shuffled

namespace Epub.Model

open Epub.Binding Epub.Xml

/-- Trees that differ in the order of attributes are rearranged, whatever they are read as. -/
theorem rearranged_of_shuffled {κ : Type} (family : Family κ) {roles : Role κ → Prop}
    {e e' : Element} (hshuffled : e.Shuffled e') : Rearranged family roles e e' := by
  induction hshuffled generalizing roles with
  | refl => exact .refl
  | attributes hperm => exact .attributes hperm
  | inside hchildren _ ih => exact .inside hchildren ih
  | trans _ _ ihfirst ihsecond => exact .trans ihfirst ihsecond

/-- In a tree that was read, the attributes of an element have different names. -/
theorem hasDistinctKeys_of_readDocument {bytes : ByteArray} {document : Document}
    (hread : Xml.readDocument bytes = .ok document) :
    document.root.Everywhere Element.HasDistinctKeys := by
  apply (builtOf_of_readDocument hread).everywhere
  intro scope content o children text _ hopen _
  exact (attributes_of_openElement hopen).1

section Reading

variable {κ : Type} [DecidableEq κ] {family : Family κ} {key : κ} {document document' : Document}

/-- The order of attributes does not matter to what a tree is read as. -/
theorem outcome_readDocument_of_shuffled (hfamily : IsBound family key)
    (hkeys : document.root.Everywhere Element.HasDistinctKeys)
    (hshuffled : document.root.Shuffled document'.root) :
    (Binding.readDocument family key document').outcome =
      (Binding.readDocument family key document).outcome := by
  have hroles : ∀ role : Role κ, role = .value key → role.IsBound family := by
    rintro _ rfl
    exact hfamily
  obtain ⟨hsame, _, hread⟩ := (rearranged_of_shuffled family hshuffled).readAs_eq hroles hkeys
  obtain ⟨hname, hns⟩ := QName.mk.inj hsame
  have hroot : (readRoot family key document'.root).outcome =
      (readRoot family key document.root).outcome :=
    outcome_readRoot_of_readAs hsame (hread (.value key) rfl)
  rw [Binding.readDocument, Binding.readDocument]
  simp only [Traced.outcome_bind, hname, hns]
  congr 1
  funext _
  split
  · exact hroot
  · rfl

end Reading

/-- What becomes of the attributes of a document that is read.  Each element of the tree was
opened by one of the start tags, in their order.  The ordinary attributes of its tag stand for
attributes that were set in turn, so that each is there once, with its own value, exactly when
they have different names.  If that is so in every tag, permuting ordinary attributes inside
the tags only permutes the attributes of the tree, and what the document is read as stays the
same. -/
theorem attributes_of_readDocument {bytes : ByteArray} {document : Document}
    (hread : Xml.readDocument bytes = .ok document) :
    (openings bytes).map Opening.tag = startTags bytes ∧
    document.root.openings = ((openings bytes).map fun opening => opening.opened.element) ∧
    (∀ opening ∈ openings bytes, ∃ given,
      List.Forall₂ (RawAttribute.Sets opening.opened.scope) (ordinaryAttributes opening.tag)
        given ∧
      opening.opened.element.attributes = Element.setAll [] given ∧
      (opening.KeepsAttributes ↔ (given.map Attribute.key).Nodup)) ∧
    ((∀ opening ∈ openings bytes, opening.KeepsAttributes) →
      ∀ bytes', ShuffledText bytes bytes' →
        (∃ document', Xml.readDocument bytes' = .ok document' ∧
          document.root.Shuffled document'.root ∧
          ∀ (κ : Type) [DecidableEq κ] (family : Family κ) (key : κ), IsBound family key →
            (Binding.readDocument family key document').outcome =
              (Binding.readDocument family key document).outcome) ∧
        (∀ type, (readRecord type bytes').outcome = (readRecord type bytes).outcome) ∧
        (Container.ofBytes bytes').outcome = (Container.ofBytes bytes).outcome ∧
        (Metadata.ofBytes bytes').outcome = (Metadata.ofBytes bytes).outcome ∧
        (Package.ofBytes bytes').outcome = (Package.ofBytes bytes).outcome) := by
  obtain ⟨htags, hopened⟩ := openings_of_readDocument hread
  refine ⟨htags, hopened, fun opening hopening => ?_, fun hkeeps bytes' hshuffled => ?_⟩
  · obtain ⟨scope, hopen⟩ := ReadState.exists_openElement_of_openings hopening
    exact attributes_eq_of_openElement hopen
  · obtain ⟨document', hread', hroot⟩ := hshuffled.readDocument hread hkeeps
    have hkeys := hasDistinctKeys_of_readDocument hread
    have hrecord : ∀ type, (readRecord type bytes').outcome = (readRecord type bytes).outcome := by
      intro type
      simp only [readRecord, hread, hread', Traced.outcome_bind, Traced.outcome_lift,
        Except.mapError, ok_bind]
      exact outcome_readDocument_of_shuffled (wellBound_family type).isBound hkeys hroot
    refine ⟨⟨document', hread', hroot, fun κ _ family key hfamily =>
      outcome_readDocument_of_shuffled hfamily hkeys hroot⟩, hrecord, ?_, ?_, ?_⟩
    · rw [Container.ofBytes, Container.ofBytes, Traced.outcome_map, Traced.outcome_map, hrecord]
    · rw [Metadata.ofBytes, Metadata.ofBytes, Traced.outcome_map, Traced.outcome_map, hrecord]
    · rw [Package.ofBytes, Package.ofBytes, Traced.outcome_map, Traced.outcome_map, hrecord]

/-- A section with attributes of several kinds, and an element in it that is not read. -/
def dressed : ByteArray :=
  ("<section label='&lt;' xmlns='urn:sections' depth='3'>" ++
    "<x a='' xmlns:p='u' p:a='1'/></section>").toUTF8

/-- The same with its attributes in another order. -/
def redressed : ByteArray :=
  ("<section depth='3' xmlns='urn:sections' label='&lt;'>" ++
    "<x p:a='1'  a=\"\" xmlns:p='u'/></section>").toUTF8

theorem tokenize_dressed : tokenize (documentChars dressed) =
    ([.startTag "section label='&lt;' xmlns='urn:sections' depth='3'".toList false,
      .startTag "x a='' xmlns:p='u' p:a='1'".toList true, .endTag "section".toList], none) := by
  decide +kernel

theorem shuffledText_redressed : ShuffledText dressed redressed := by
  have htokens : tokenize (documentChars redressed) =
      ([.startTag "section depth='3' xmlns='urn:sections' label='&lt;'".toList false,
        .startTag "x p:a='1'  a=\"\" xmlns:p='u'".toList true, .endTag "section".toList],
        none) := by decide +kernel
  constructor
  · rw [tokenize_dressed, htokens]
    exact .cons (.startTag (by decide +kernel)) (.cons (.startTag (by decide +kernel))
      (.cons (.other rfl) .nil))
  · rw [tokenize_dressed, htokens]

theorem attributes_of_readDocument_dressed :
    ∃ document document', Xml.readDocument dressed = .ok document ∧
      (∀ opening ∈ openings dressed, opening.KeepsAttributes) ∧
      ShuffledText dressed redressed ∧
      Xml.readDocument redressed = .ok document' ∧ document.root.Shuffled document'.root ∧
      (Binding.readDocument sections () document').outcome =
        (Binding.readDocument sections () document).outcome ∧
      (Binding.readDocument sections () document).outcome.toOption.isSome = true := by
  have hread : Xml.readDocument dressed = .ok ⟨⟨"section", some "urn:sections",
      [⟨"label", none, "<"⟩, ⟨"depth", none, "3"⟩],
      [⟨"x", some "urn:sections", [⟨"a", none, ""⟩, ⟨"a", some "u", "1"⟩], [], none,
        [⟨"p", "u"⟩]⟩],
      none, [⟨"", "urn:sections"⟩]⟩⟩ := by
    rw [readDocument_eq_ok_iff_chars, readChars, tokenize_dressed]
    decide +kernel
  have hkeeps : ∀ opening ∈ openings dressed, opening.KeepsAttributes := by
    rw [openings, tokenize_dressed]
    decide +kernel
  obtain ⟨_, _, _, hshuffled⟩ := attributes_of_readDocument hread
  obtain ⟨⟨document', hread', hroot, hsame⟩, _⟩ :=
    hshuffled hkeeps redressed shuffledText_redressed
  exact ⟨_, document', hread, hkeeps, shuffledText_redressed, hread', hroot,
    hsame Unit sections () wellBound_sections.isBound, by decide +kernel⟩

/-- A section with two attributes that have one name once their prefixes are resolved. -/
def overwritten : ByteArray :=
  "<e label='' xmlns:a='u' xmlns:b='u' a:x='1' b:x='2'/>".toUTF8

/-- The same with these two in the other order. -/
def overwrittenAgain : ByteArray :=
  "<e label='' xmlns:a='u' xmlns:b='u' b:x='2' a:x='1'/>".toUTF8

/-- The element that is read where the last of the two attributes has this value. -/
def overwrittenWith (value : String) : Element :=
  ⟨"e", none, [⟨"label", none, ""⟩, ⟨"x", some "u", value⟩], [], none, [⟨"a", "u"⟩, ⟨"b", "u"⟩]⟩

/-- An attribute may be lost, and then the order counts: of two attributes under one name the
last one stays. -/
theorem not_keepsAttributes_overwritten :
    Xml.readDocument overwritten = .ok ⟨overwrittenWith "2"⟩ ∧
    (∃ opening ∈ openings overwritten, (ordinaryAttributes opening.tag).length = 3 ∧
      ¬opening.KeepsAttributes) ∧
    ShuffledText overwritten overwrittenAgain ∧
    Xml.readDocument overwrittenAgain = .ok ⟨overwrittenWith "1"⟩ ∧
    (readRoot sections () (overwrittenWith "1")).outcome ≠
      (readRoot sections () (overwrittenWith "2")).outcome := by
  have htokens : tokenize (documentChars overwritten) =
      ([.startTag "e label='' xmlns:a='u' xmlns:b='u' a:x='1' b:x='2'".toList true], none) := by
    decide +kernel
  have htokens' : tokenize (documentChars overwrittenAgain) =
      ([.startTag "e label='' xmlns:a='u' xmlns:b='u' b:x='2' a:x='1'".toList true], none) := by
    decide +kernel
  refine ⟨?_, ?_, ⟨?_, ?_⟩, ?_, ?_⟩
  · rw [readDocument_eq_ok_iff_chars, readChars, htokens]
    decide +kernel
  · rw [openings, htokens]
    decide +kernel
  · rw [htokens, htokens']
    exact .cons (.startTag (by decide +kernel)) .nil
  · rw [htokens, htokens']
  · rw [readDocument_eq_ok_iff_chars, readChars, htokens']
    decide +kernel
  · decide +kernel

end Epub.Model
