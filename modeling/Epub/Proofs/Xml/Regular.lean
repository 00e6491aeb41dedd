/-
What holds of every tree that is read, whatever the document.  All that reads and writes models
relies on it: attributes have names of their own and are no declarations, a namespace has
characters, and a text shows one.
-/
import Epub.Proofs.Xml.Recorded

namespace Epub.Xml

open Epub.Text

/-- What a start tag guarantees of the element it opens holds of every element of a
tree that was read. -/
theorem Element.BuiltOf.everywhere {P : Element → Prop} {tags : List (List Char)}
    (hP : ∀ scope content o children text, content ∈ tags →
      openElement scope content = .ok o →
      (∀ shown, text = some shown → isBlankText shown = false) →
      P { o.element with children, text })
    {scope : Scope} {e : Element} (hbuilt : e.BuiltOf tags scope) : e.Everywhere P := by
  induction hbuilt with
  | intro htag hopen _ htext ih => exact ⟨hP _ _ _ _ _ htag hopen htext, ih⟩

/-- A name that resolves does not resolve to the namespace of no characters. -/
theorem resolveElement_ne_empty {scope : Scope} {name : RawName} {ns : Option String}
    (hresolve : scope.resolveElement name = .ok ns) : ns ≠ some "" := by
  rintro rfl
  rw [Scope.resolveElement] at hresolve
  split at hresolve
  · have hfilter := Option.filter_eq_some_iff.mp (Except.ok.inj hresolve)
    simp at hfilter
  · obtain ⟨uri, hsome, hne, _⟩ := Scope.resolveLabel_eq_ok hresolve
    exact hne (Option.some.inj hsome).symm

theorem resolveAttribute_ne_empty {scope : Scope} {name : RawName} {ns : Option String}
    (hresolve : scope.resolveAttribute name = .ok ns) : ns ≠ some "" := by
  rintro rfl
  rw [Scope.resolveAttribute] at hresolve
  split at hresolve
  · cases hresolve
  · obtain ⟨uri, hsome, hne, _⟩ := Scope.resolveLabel_eq_ok hresolve
    exact hne (Option.some.inj hsome).symm

/-- An attribute that was not taken for a declaration is not named like one. -/
theorem key_ne_xmlns {scope : Scope} {key : List Char} (hnone : declaredLabel? key = none)
    {attr : Attribute} (hname : attr.name = String.ofList (RawName.of key).localPart)
    (hns : scope.resolveAttribute (RawName.of key) = .ok attr.ns) :
    attr.key ≠ ⟨"xmlns", none⟩ := by
  intro hkey
  obtain ⟨hlocal, hplain⟩ := QName.mk.inj hkey
  rw [hplain, Scope.resolveAttribute] at hns
  split at hns
  · rename_i hlabel
    rw [RawName.localPart_of_label_none hlabel, hlocal] at hname
    have hwritten : key = "xmlns".toList := by rw [hname, String.toList_ofList]
    rw [hwritten] at hnone
    contradiction
  · obtain ⟨_, hsome, _⟩ := Scope.resolveLabel_eq_ok hns
    contradiction

/-- What every document guarantees of an element: its attributes are under different names and
none of them is a declaration, no namespace is without characters, and a text has a character
that shows. -/
structure Element.IsRegular (e : Element) : Prop where
  keys_nodup : (e.attributes.map Attribute.key).Nodup
  not_declaration : ∀ attr ∈ e.attributes, attr.key ≠ ⟨"xmlns", none⟩
  ns : e.ns ≠ some ""
  attribute_ns : ∀ attr ∈ e.attributes, attr.ns ≠ some ""
  text : ∀ text, e.text = some text → ∃ c ∈ text.toList, isBlank c = false

theorem exists_of_isBlankText_eq_false {text : String} (hshown : isBlankText text = false) :
    ∃ c ∈ text.toList, isBlank c = false := by
  simpa [isBlankText] using hshown

/-- An opened element is regular, with whatever is put inside it. -/
theorem isRegular_of_openElement {scope : Scope} {content : List Char} {o : OpenElement}
    (hopen : openElement scope content = .ok o) (children : List Element) {text : Option String}
    (htext : ∀ shown, text = some shown → isBlankText shown = false) :
    Element.IsRegular { o.element with children, text } := by
  obtain ⟨hnodup, hattributes⟩ := attributes_of_openElement hopen
  constructor
  · exact hnodup
  · intro attr hattr
    obtain ⟨key, hnone, hname, hns⟩ := hattributes attr hattr
    exact key_ne_xmlns hnone hname hns
  · exact resolveElement_ne_empty (name_of_openElement hopen).2
  · intro attr hattr
    obtain ⟨key, _, _, hns⟩ := hattributes attr hattr
    exact resolveAttribute_ne_empty hns
  · exact fun shown hshown => exists_of_isBlankText_eq_false (htext shown hshown)

/-- Every element of a tree that is read is regular, at every depth. -/
theorem everywhere_isRegular_of_readDocument {bytes : ByteArray} {document : Document}
    (hread : readDocument bytes = .ok document) : document.root.Everywhere Element.IsRegular := by
  apply (builtOf_of_readDocument hread).everywhere
  intro scope content o children text _ hopen htext
  exact isRegular_of_openElement hopen children htext

/-- A document with two prefixes of one namespace, a default namespace that is taken back, and
texts that do not show. -/
def irregular : ByteArray :=
  ("<a xmlns='u' xmlns:p='v' xmlns:q='v' p:k='1' k='2' q:k='3'> &#32;<b xmlns='' k=''>" ++
    "<![CDATA[ ]]></b><q:c> &#160; x</q:c></a>").toUTF8

theorem everywhere_isRegular_irregular :
    ∃ document : Document, readDocument irregular = .ok document ∧
      document.root.attributes = [⟨"k", some "v", "3"⟩, ⟨"k", none, "2"⟩] ∧
      document.root.children.map Element.ns = [none, some "v"] ∧
      document.root.Everywhere Element.IsRegular := by
  have hread : readDocument irregular = .ok ⟨⟨"a", some "u",
      [⟨"k", some "v", "3"⟩, ⟨"k", none, "2"⟩],
      [⟨"b", none, [⟨"k", none, ""⟩], [], none, [⟨"", ""⟩]⟩,
        ⟨"c", some "v", [], [], some " \u00a0 x", []⟩],
      none, [⟨"", "u"⟩, ⟨"p", "v"⟩, ⟨"q", "v"⟩]⟩⟩ := by decide +kernel
  exact ⟨_, hread, rfl, rfl, everywhere_isRegular_of_readDocument hread⟩

end Epub.Xml
