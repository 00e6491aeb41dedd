/-
Reading back a whole document: its bytes decode to its text, the declaration in
front is passed over, and the one element that follows is the root.
-/
import Epub.Proofs.Text.Utf8
import Epub.Proofs.Xml.Reading

namespace Epub.Xml

open Epub.Text Frames

/-- A text that starts with a tag starts with no byte order mark. -/
theorem dropByteOrderMark_of_less {s : String} {rest : List Char}
    (hs : s.toList = '<' :: rest) : Utf8.dropByteOrderMark s.toUTF8 = s.toUTF8 := by
  have hbytes : s.toUTF8.toList = 0x3c :: (rest.flatMap String.utf8EncodeChar) := by
    rw [toList_byteArray, String.toUTF8_eq_toByteArray, ← String.utf8Encode_toList, hs,
      List.utf8Encode, List.toList_data_toByteArray, List.flatMap_cons]
    rfl
  rw [Utf8.dropByteOrderMark, if_neg]
  rw [hbytes, List.take_succ_cons, Utf8.byteOrderMark]
  intro heq
  exact absurd (List.cons.inj heq).1 (by decide)

theorem readDocument_of_less {s : String} {rest : List Char} (hs : s.toList = '<' :: rest) :
    readDocument s.toUTF8 = readFrom ReadState.initial s.toList := by
  rw [readDocument, dropByteOrderMark_of_less hs, decode_toUTF8, ← readChars_eq]
  simp only [Except.mapError, bind, Except.bind, hs]
  split
  · rename_i heq
    exact absurd (List.cons.inj heq).1 (by decide)
  · rfl

theorem readFrom_xmlDeclaration (rest : List Char) :
    readFrom ReadState.initial (xmlDeclaration.toList ++ rest) =
      readFrom ReadState.initial rest := by
  have hcut : cutToken '<' (xmlDeclaration.toList.tail ++ rest) =
      .ok (.instruction, rest) := by rfl
  exact readFrom_cons hcut rfl

theorem readFrom_outside (root : Option Element) {cs : List Char} (rest : List Char)
    (hcs : ∀ c ∈ cs, isTextChar c = true) :
    readFrom ⟨[], root⟩ (cs ++ rest) = readFrom ⟨[], root⟩ rest :=
  readFrom_text _ rest hcs

namespace Document

theorem toList_write (document : Document) (layout : Layout) :
    (document.write layout).toList =
      (if layout.declaration then xmlDeclaration.toList ++ layout.lineBreak.toList else []) ++
        ((document.markup.render layout 0).toList ++ layout.lineBreak.toList) := by
  rw [write]
  cases layout.declaration <;> simp [String.toList_append]

theorem exists_toList_render (layout : Layout) (markup : Markup) :
    ∃ rest, (markup.render layout 0).toList = '<' :: rest := by
  obtain ⟨name, attributes, children, text⟩ := markup
  have hmargin : (layout.margin 0).toList = [] := by simp [Layout.margin]
  by_cases hchildren : children = []
  · by_cases htext : text = ""
    · rw [hchildren, htext, toList_render_empty, hmargin]
      exact ⟨_, rfl⟩
    · rw [hchildren, toList_render_text _ _ _ _ htext, hmargin]
      exact ⟨_, rfl⟩
  · rw [toList_render_children _ _ _ _ hchildren, hmargin]
    exact ⟨_, rfl⟩

theorem exists_toList_write (document : Document) (layout : Layout) :
    ∃ rest, (document.write layout).toList = '<' :: rest := by
  obtain ⟨rest, hrest⟩ := exists_toList_render layout document.markup
  rw [toList_write, hrest]
  cases layout.declaration with
  | false => exact ⟨_, rfl⟩
  | true => exact ⟨_, rfl⟩

/-- A written document is read as its root is read. -/
theorem readDocument_toBytes_of_readsAs {document : Document} {layout : Layout}
    {read : Element} (hreads : ReadsAs layout initial document.markup read) :
    readDocument (document.toBytes layout) = .ok ⟨read⟩ := by
  obtain ⟨_, hless⟩ := exists_toList_write document layout
  have hbreak : ∀ c ∈ layout.lineBreak.toList, isTextChar c = true := fun c hc =>
    (isTextChar_lineBreak layout c hc).1
  have hroot : readFrom ReadState.initial
      ((document.markup.render layout 0).toList ++ layout.lineBreak.toList) = .ok ⟨read⟩ := by
    have hend := readFrom_outside (some read) [] hbreak
    rw [List.append_nil, readFrom_nil] at hend
    have hread := hreads 0 ReadState.initial Scope.agrees_initial layout.lineBreak.toList
      ⟨[], some read⟩ rfl
    exact hread.trans hend
  rw [toBytes, readDocument_of_less hless, toList_write]
  cases layout.declaration with
  | false => exact hroot
  | true =>
      rw [if_pos rfl, List.append_assoc, readFrom_xmlDeclaration]
      exact (readFrom_outside none _ hbreak).trans hroot

/-- A written document is read, and says what it said. -/
theorem exists_readDocument {document : Document} (layout : Layout)
    (hproper : document.root.Everywhere Element.IsProper)
    (htexts : document.root.Everywhere Element.KeepsText) :
    ∃ read : Document, readDocument (document.toBytes layout) = .ok read ∧
      read.root.undeclared = document.root.content := by
  obtain ⟨read, hcontent, hreads⟩ := exists_readsAs layout hproper htexts ⟨initial, 0⟩
    isSound_initial
  exact ⟨⟨read⟩, readDocument_toBytes_of_readsAs hreads, hcontent⟩

/-- Under every layout a written document is read back up to its declarations:
the prefixes that were chosen stand for the namespaces the tree holds, whatever
its own declarations do. -/
theorem readDocument_toBytes_undeclared (document : Document) (layout : Layout)
    (hproper : document.root.Everywhere Element.IsProper)
    (htexts : document.root.Everywhere Element.HasProperText) :
    ∃ read : Document, readDocument (document.toBytes layout) = .ok read ∧
      read.root.undeclared = document.root.undeclared := by
  have hkeeps := htexts.mono fun _ htext => Element.HasProperText.keepsText htext
  have hnonempty := htexts.mono fun _ htext => Element.HasProperText.ne_empty htext
  rw [← Element.content_eq_undeclared hnonempty]
  exact exists_readDocument layout hproper hkeeps

/-- A document whose declarations shadow, take back and miss what its names
need. -/
def entangled : Document :=
  ⟨⟨"root", some "urn:a", [⟨"x", some "urn:b", "<&>"⟩, ⟨"x", none, "it's"⟩],
    [⟨"inner", none, [⟨"lang", some xmlNamespace, " en "⟩, ⟨"y", some "urn:a", "
"⟩], [],
      some " text ", [⟨"ns0", "urn:c"⟩, ⟨"", "urn:b"⟩]⟩,
     ⟨"inner", some "urn:c", [⟨"y", some "urn:b", ""⟩], [], none, [⟨"b", "urn:c"⟩]⟩],
    none, [⟨"b", "urn:b"⟩, ⟨"", "urn:a"⟩]⟩⟩

theorem readDocument_toBytes_entangled :
    entangled.root.Everywhere Element.IsProper ∧
      entangled.root.Everywhere Element.HasProperText ∧
      ∃ read : Document, readDocument (entangled.toBytes Layout.standard) = .ok read ∧
        read.root.undeclared = entangled.root.undeclared :=
  ⟨by decide, by decide, readDocument_toBytes_undeclared entangled Layout.standard
    (by decide) (by decide)⟩

end Document

end Epub.Xml
