/-
Names and trees that can be written: the names of XML with namespaces, and what
a tree has to respect so that a reader gets back what was written.
-/
import Epub.Proofs.Xml.Tree
import Epub.Text.Blank

namespace Epub.Xml

open Epub.Text

/-- Only the characters of the list are gone through, not all there are. -/
instance (priority := high) decidableForallMem (P : Char → Prop) [DecidablePred P]
    (cs : List Char) : Decidable (∀ c ∈ cs, P c) :=
  List.decidableBAll P cs

/-- The ranges of the characters that start a name without a colon. -/
def nameStartRanges : List (Nat × Nat) :=
  [(0x41, 0x5a), (0x5f, 0x5f), (0x61, 0x7a), (0xc0, 0xd6), (0xd8, 0xf6),
    (0xf8, 0x2ff), (0x370, 0x37d), (0x37f, 0x1fff), (0x200c, 0x200d),
    (0x2070, 0x218f), (0x2c00, 0x2fef), (0x3001, 0xd7ff), (0xf900, 0xfdcf),
    (0xfdf0, 0xfffd), (0x10000, 0xeffff)]

/-- The ranges of the characters that may only continue such a name. -/
def nameRestRanges : List (Nat × Nat) :=
  [(0x2d, 0x2e), (0x30, 0x39), (0xb7, 0xb7), (0x300, 0x36f), (0x203f, 0x2040)]

/-- Whether a character lies in one of some ranges. -/
def liesIn (ranges : List (Nat × Nat)) (c : Char) : Bool :=
  ranges.any fun (first, last) => first ≤ c.toNat && c.toNat ≤ last

def isNameStart (c : Char) : Bool :=
  liesIn nameStartRanges c

def isNameChar (c : Char) : Bool :=
  liesIn nameStartRanges c || liesIn nameRestRanges c

/-- Whether a text is a name without a colon. -/
def isNCName (s : String) : Bool :=
  match s.toList with
  | [] => false
  | first :: rest => isNameStart first && rest.all isNameChar

/-- The characters that have a meaning inside a tag. -/
def markupChars : List Char :=
  [' ', '\t', '\r', '\n', '<', '>', '&', '\'', '"', '=', '/', '!', '?']

/-- Characters that a tag takes as one piece: there is at least one, and none
of them means anything to a tag. -/
def IsPlain (cs : List Char) : Prop :=
  cs ≠ [] ∧ ∀ c ∈ cs, c ∉ markupChars

instance (cs : List Char) : Decidable (IsPlain cs) :=
  inferInstanceAs (Decidable (_ ∧ _))

theorem not_isNameChar_of_mem :
    ∀ c ∈ ':' :: markupChars, isNameChar c = false := by
  decide

theorem isNameChar_of_mem_isNCName {s : String} (hname : isNCName s = true)
    {c : Char} (hc : c ∈ s.toList) : isNameChar c = true := by
  unfold isNCName at hname
  cases hchars : s.toList with
  | nil => rw [hchars] at hc; simp at hc
  | cons first rest =>
      rw [hchars] at hname hc
      simp only [Bool.and_eq_true, List.all_eq_true] at hname
      rcases List.mem_cons.mp hc with rfl | hrest
      · simp [isNameChar, isNameStart] at hname ⊢
        exact Or.inl hname.1
      · exact hname.2 c hrest

theorem IsPlain.append {left right : List Char} (hleft : IsPlain left)
    (hright : IsPlain right) : IsPlain (left ++ right) := by
  refine ⟨by simp [hleft.1], fun c hc => ?_⟩
  rcases List.mem_append.mp hc with hc | hc
  · exact hleft.2 c hc
  · exact hright.2 c hc

theorem isPlain_of_isNCName {s : String} (hname : isNCName s = true) :
    IsPlain s.toList := by
  constructor
  · intro hnil
    simp [isNCName, hnil] at hname
  · intro c hc hmark
    have hfalse := not_isNameChar_of_mem c (List.mem_cons_of_mem ':' hmark)
    rw [isNameChar_of_mem_isNCName hname hc] at hfalse
    contradiction

theorem ne_colon_of_isNCName {s : String} (hname : isNCName s = true) :
    ∀ c ∈ s.toList, c ≠ ':' := by
  rintro c hc rfl
  have hfalse := not_isNameChar_of_mem ':' List.mem_cons_self
  rw [isNameChar_of_mem_isNCName hname hc] at hfalse
  contradiction

/-- The characters that cannot stand for themselves between quotation marks. -/
def escapedChars : List Char :=
  ['<', '>', '&', '\'', '"']

/-- A namespace that can be declared: some characters, none of them escaped,
and not the one that is set aside for declarations. -/
structure IsNamespace (uri : String) : Prop where
  nonempty : uri ≠ ""
  clean : ∀ c ∈ uri.toList, c ∉ escapedChars
  not_reserved : uri ≠ xmlnsNamespace

instance (uri : String) : Decidable (IsNamespace uri) :=
  decidable_of_iff
    (uri ≠ "" ∧ (∀ c ∈ uri.toList, c ∉ escapedChars) ∧ uri ≠ xmlnsNamespace)
    ⟨fun h => ⟨h.1, h.2.1, h.2.2⟩, fun h => ⟨h.nonempty, h.clean, h.not_reserved⟩⟩

/-- A declaration that may stand on an element: of the default namespace, which
it may take back, or of a prefix. -/
structure NamespaceDecl.IsProper (d : NamespaceDecl) : Prop where
  label : d.label = "" ∨
    isNCName d.label = true ∧ d.label ≠ "xml" ∧ d.label ≠ "xmlns"
  uri : (d.label = "" ∧ d.uri = "") ∨ (IsNamespace d.uri ∧ d.uri ≠ xmlNamespace)

instance (d : NamespaceDecl) : Decidable d.IsProper :=
  decidable_of_iff
    ((d.label = "" ∨ isNCName d.label = true ∧ d.label ≠ "xml" ∧ d.label ≠ "xmlns") ∧
      ((d.label = "" ∧ d.uri = "") ∨ (IsNamespace d.uri ∧ d.uri ≠ xmlNamespace)))
    ⟨fun h => ⟨h.1, h.2⟩, fun h => ⟨h.label, h.uri⟩⟩

/-- A declaration that a tag can carry and a reader takes in: the reserved prefixes
are left alone, and only as the default namespace may one of their namespaces stand. -/
structure NamespaceDecl.IsBindable (d : NamespaceDecl) : Prop where
  label : d.label = "" ∨
    isNCName d.label = true ∧ d.label ≠ "xml" ∧ d.label ≠ "xmlns"
  clean : ∀ c ∈ d.uri.toList, c ∉ escapedChars
  free : d.label = "" ∨ d.uri ≠ xmlNamespace ∧ d.uri ≠ xmlnsNamespace

theorem NamespaceDecl.IsProper.isBindable {d : NamespaceDecl} (hproper : d.IsProper) :
    d.IsBindable := by
  refine ⟨hproper.label, ?_, ?_⟩
  · rcases hproper.uri with ⟨_, hempty⟩ | ⟨huri, _⟩
    · simp [hempty]
    · exact huri.clean
  · exact hproper.uri.imp And.left fun huri => ⟨huri.2, huri.1.not_reserved⟩

namespace Element

/-- What an element has to respect to be written, its children aside. -/
structure IsProper (e : Element) : Prop where
  name : isNCName e.name = true
  ns : ∀ uri, e.ns = some uri → IsNamespace uri
  attribute_name : ∀ attr ∈ e.attributes, isNCName attr.name = true
  attribute_ns : ∀ attr ∈ e.attributes, ∀ uri, attr.ns = some uri → IsNamespace uri
  not_declaration : ∀ attr ∈ e.attributes, attr.key ≠ ⟨"xmlns", none⟩
  keys_nodup : (e.attributes.map Attribute.key).Nodup
  declarations : ∀ d ∈ e.declarations, d.IsProper
  labels_nodup : (e.declarations.map NamespaceDecl.label).Nodup

instance (e : Element) : Decidable e.IsProper :=
  decidable_of_iff
    (isNCName e.name = true ∧ (∀ uri ∈ e.ns, IsNamespace uri) ∧
      (∀ attr ∈ e.attributes, isNCName attr.name = true ∧
        (∀ uri ∈ attr.ns, IsNamespace uri) ∧ attr.key ≠ ⟨"xmlns", none⟩) ∧
      (e.attributes.map Attribute.key).Nodup ∧ (∀ d ∈ e.declarations, d.IsProper) ∧
      (e.declarations.map NamespaceDecl.label).Nodup)
    ⟨fun ⟨hname, hns, hattributes, hkeys, hdeclarations, hlabels⟩ =>
      ⟨hname, hns, fun attr hattr => (hattributes attr hattr).1,
        fun attr hattr => (hattributes attr hattr).2.1,
        fun attr hattr => (hattributes attr hattr).2.2, hkeys, hdeclarations, hlabels⟩,
    fun h => ⟨h.name, h.ns, fun attr hattr => ⟨h.attribute_name attr hattr,
      h.attribute_ns attr hattr, h.not_declaration attr hattr⟩, h.keys_nodup,
      h.declarations, h.labels_nodup⟩⟩

/-- What a reader relies on in the names of an element, wherever their namespaces come
from. -/
structure HasProperNames (e : Element) : Prop where
  name : isNCName e.name = true
  ns : e.ns ≠ some ""
  attribute_name : ∀ attr ∈ e.attributes, isNCName attr.name = true
  attribute_ns : ∀ attr ∈ e.attributes, attr.ns ≠ some ""
  not_declaration : ∀ attr ∈ e.attributes, attr.key ≠ ⟨"xmlns", none⟩
  keys_nodup : (e.attributes.map Attribute.key).Nodup

theorem IsProper.hasProperNames {e : Element} (hproper : e.IsProper) : e.HasProperNames :=
  ⟨hproper.name, fun hempty => (hproper.ns "" hempty).nonempty rfl, hproper.attribute_name,
    fun attr hattr hempty => (hproper.attribute_ns attr hattr "" hempty).nonempty rfl,
    hproper.not_declaration, hproper.keys_nodup⟩

/-- The text of an element that is read back: a character of it shows, and
there are no children. -/
def HasProperText (e : Element) : Prop :=
  ∀ text, e.text = some text → isBlankText text = false ∧ e.children = []

instance (e : Element) : Decidable e.HasProperText :=
  inferInstanceAs (Decidable (∀ text ∈ e.text, isBlankText text = false ∧ e.children = []))

/-- The same for writers that do not write a text without a character. -/
def KeepsText (e : Element) : Prop :=
  ∀ text, e.text = some text → text = "" ∨ isBlankText text = false ∧ e.children = []

theorem HasProperText.keepsText {e : Element} (htext : e.HasProperText) : e.KeepsText :=
  fun text hsome => Or.inr (htext text hsome)

theorem HasProperText.ne_empty {e : Element} (htext : e.HasProperText) :
    e.text ≠ some "" := by
  intro hempty
  exact absurd (htext "" hempty).1 (by decide)

end Element

end Epub.Xml
