/-
Writing a document that was read.  Its own declarations account for all its names, so
the writer leaves out those already in force and invents none.  What comes back is the
tree without these, and writing that gives the same characters once more.
-/
import Epub.Proofs.Xml.Document
import Epub.Proofs.Xml.Regular

namespace Epub.Xml

open Epub.Text Frames

namespace Element

mutual

/-- A tree inside some declarations without what a writer leaves out: the text of an
element that has children, and declarations that say what is in force anyway. -/
def prune (outer : Frames) : Element → Element
  | ⟨name, ns, attributes, children, text, declarations⟩ =>
      ⟨name, ns, attributes, pruneAll (declarations.reverse :: outer) children,
        if children.isEmpty then text else none,
        declarations.filter fun d => outer.lookup? d.label ≠ some d.uri⟩

/-- Trees without what a writer leaves out. -/
def pruneAll (outer : Frames) : List Element → List Element
  | [] => []
  | e :: rest => e.prune outer :: pruneAll outer rest

end

theorem pruneAll_eq_map (outer : Frames) (es : List Element) :
    pruneAll outer es = es.map (prune outer) := by
  induction es with
  | nil => rfl
  | cons e rest ih => rw [pruneAll, ih, List.map_cons]

/-- The declarations of an element that say something new inside `outer`. -/
def own (outer : Frames) (e : Element) : Frame :=
  e.declarations.filter fun d => outer.lookup? d.label ≠ some d.uri

theorem prune_eq (outer : Frames) (e : Element) :
    e.prune outer = ⟨e.name, e.ns, e.attributes,
      e.children.map (prune (e.declarations.reverse :: outer)),
      if e.children.isEmpty then e.text else none, e.own outer⟩ := by
  cases e
  rw [prune, pruneAll_eq_map, own]

/-- The names and the prefixes on an element are names of XML, and no prefix is
declared twice. -/
structure HasXmlNames (e : Element) : Prop where
  name : isNCName e.name = true
  attribute_name : ∀ attr ∈ e.attributes, isNCName attr.name = true
  label : ∀ d ∈ e.declarations, d.label = "" ∨ isNCName d.label = true
  labels_nodup : (e.declarations.map NamespaceDecl.label).Nodup

instance (e : Element) : Decidable e.HasXmlNames :=
  decidable_of_iff
    (isNCName e.name = true ∧ (∀ attr ∈ e.attributes, isNCName attr.name = true) ∧
      (∀ d ∈ e.declarations, d.label = "" ∨ isNCName d.label = true) ∧
      (e.declarations.map NamespaceDecl.label).Nodup)
    ⟨fun ⟨hname, hattributes, hlabel, hnodup⟩ => ⟨hname, hattributes, hlabel, hnodup⟩,
      fun h => ⟨h.name, h.attribute_name, h.label, h.labels_nodup⟩⟩

end Element

/-- The document without what a writer leaves out.  The prefix `xml` is in force from
the start. -/
def Document.prune (document : Document) : Document :=
  ⟨document.root.prune Frames.initial⟩

/-- A start tag whose name does not use the prefix of declarations, and whose
declarations hold no character that would have to be escaped. -/
structure IsPlainTag (content : List Char) : Prop where
  label : (RawName.of (tagName content)).label ≠ some "xmlns".toList
  values : ∀ raw ∈ (rawAttributes content).1, declaredLabel? raw.key ≠ none →
    ∀ chars ∈ raw.value.toOption, ∀ c ∈ chars, c ∉ escapedChars

instance (content : List Char) : Decidable (IsPlainTag content) :=
  decidable_of_iff
    ((RawName.of (tagName content)).label ≠ some "xmlns".toList ∧
      ∀ raw ∈ (rawAttributes content).1, declaredLabel? raw.key ≠ none →
        ∀ chars ∈ raw.value.toOption, ∀ c ∈ chars, c ∉ escapedChars)
    ⟨fun h => ⟨h.1, h.2⟩, fun h => ⟨h.label, h.values⟩⟩

/-- What is known of an element that was read inside the declarations around it. -/
structure Element.IsReadIn (outer : Frames) (e : Element) : Prop where
  names : e.HasProperNames
  declarations : ∀ d ∈ e.declarations, d = ⟨"xml", xmlNamespace⟩ ∨ d.IsBindable
  labels_nodup : (e.declarations.map NamespaceDecl.label).Nodup
  declared : e.IsDeclared Eq outer
  text : ∀ text, e.text = some text → isBlankText text = false

section Spelling

variable {outer frames : Frames} {e : Element}

/-- A name whose namespace is in force is spelled without a new declaration. -/
theorem exists_spellName_of_lookup (hsound : frames.IsSound) (name : String)
    {ns : Option String} (hempty : ns ≠ some "")
    (hns : ∀ uri, ns = some uri → uri ≠ xmlNamespace → ∃ label, frames.lookup? label = some uri)
    (hdefault : ns = none → ∀ uri, frames.lookup? "" = some uri → uri = "") :
    ∃ written, spellName frames name ns = (written, frames) ∧
      frames.NamesElement written name ns := by
  cases ns with
  | none =>
      have hall : ∀ uri, frames.lookup? "" = some uri → uri = "" := hdefault rfl
      refine ⟨name, ?_, Or.inl ⟨rfl, ?_⟩⟩
      · rw [spellName, if_neg]
        intro hany
        cases hlookup : frames.lookup? "" with
        | none => simp [hlookup] at hany
        | some uri => simp [hlookup, hall uri hlookup] at hany
      · rw [Option.filter_eq_none_iff]
        simpa using hall
  | some uri =>
      obtain ⟨label, hlookup⟩ : ∃ label, frames.lookup? label = some uri := by
        by_cases hxml : uri = xmlNamespace
        · exact ⟨"xml", hxml ▸ hsound.xml⟩
        · exact hns uri rfl hxml
      simp only [spellName, elementLabel?]
      by_cases hfree : frames.lookup? "" = some uri
      · refine ⟨name, by simp [hfree], Or.inl ⟨rfl, ?_⟩⟩
        have hne : uri ≠ "" := fun heq => hempty (heq ▸ rfl)
        simp [hfree, hne]
      · have hlabel : label ≠ "" := by
          rintro rfl
          exact hfree hlookup
        obtain ⟨bound, hbound⟩ := Option.ne_none_iff_exists'.mp
          (boundLabel?_ne_none hlabel hlookup)
        obtain ⟨hne, hstands⟩ := boundLabel?_eq_some hbound
        refine ⟨bound ++ ":" ++ name, ?_,
          Or.inr ⟨uri, rfl, bound, hsound.isLabel hne hstands, hstands, rfl⟩⟩
        rw [if_neg hfree, hbound]
        split
        · rename_i heq
          exact absurd (Option.some.inj heq) hne
        · rename_i heq
          rw [Option.some.inj heq]
        · contradiction

/-- So is the name of an attribute. -/
theorem exists_spellAttribute_of_lookup (hsound : frames.IsSound) {attr : Attribute}
    (hns : ∀ uri, attr.ns = some uri → uri ≠ xmlNamespace →
      ∃ label, label ≠ "" ∧ frames.lookup? label = some uri) :
    ∃ spelling, Spells frames spelling attr ∧
      ∀ next, spellAttribute ⟨frames, next⟩ attr = (spelling, ⟨frames, next⟩) := by
  obtain ⟨name, ns, value⟩ := attr
  cases ns with
  | none => exact ⟨(name, value), ⟨Or.inl ⟨rfl, rfl⟩, rfl⟩, fun _ => rfl⟩
  | some uri =>
      by_cases hxml : uri = xmlNamespace
      · refine ⟨("xml:" ++ name, value),
          ⟨Or.inr ⟨uri, rfl, "xml", ⟨by decide, by decide⟩, ?_, rfl⟩, rfl⟩,
          fun next => by simp [spellAttribute, hxml]⟩
        rw [hxml]
        exact hsound.xml
      · obtain ⟨label, hlabel, hlookup⟩ := hns uri rfl hxml
        obtain ⟨bound, hbound⟩ := Option.ne_none_iff_exists'.mp
          (boundLabel?_ne_none hlabel hlookup)
        obtain ⟨hne, hstands⟩ := boundLabel?_eq_some hbound
        refine ⟨(bound ++ ":" ++ name, value),
          ⟨Or.inr ⟨uri, rfl, bound, hsound.isLabel hne hstands, hstands, rfl⟩, rfl⟩,
          fun next => ?_⟩
        simp [spellAttribute, hxml, Choice.attributeLabel, hbound]

theorem exists_spellAttributes_of_lookup (hsound : frames.IsSound)
    {attributes : List Attribute}
    (hns : ∀ attr ∈ attributes, ∀ uri, attr.ns = some uri → uri ≠ xmlNamespace →
      ∃ label, label ≠ "" ∧ frames.lookup? label = some uri) :
    ∃ spelled, List.Forall₂ (Spells frames) spelled attributes ∧
      ∀ next, spellAttributes ⟨frames, next⟩ attributes = (spelled, ⟨frames, next⟩) := by
  induction attributes with
  | nil => exact ⟨[], .nil, fun _ => rfl⟩
  | cons attr rest ih =>
      obtain ⟨spelling, hspells, hfirst⟩ :=
        exists_spellAttribute_of_lookup hsound (hns attr List.mem_cons_self)
      obtain ⟨others, hothers, hrest⟩ :=
        ih fun other hother => hns other (List.mem_cons_of_mem attr hother)
      refine ⟨spelling :: others, .cons hspells hothers, fun next => ?_⟩
      simp only [spellAttributes, hfirst, hrest]

/-- Declarations that say nothing new make no difference to what is in force. -/
theorem lookup?_own (hsame : ∀ label, frames.lookup? label = outer.lookup? label)
    (hnodup : (e.declarations.map NamespaceDecl.label).Nodup) (label : String) :
    Frames.lookup? (e.own outer :: frames) label =
      Frames.lookup? (e.declarations.reverse :: outer) label := by
  rw [lookup?_cons, lookup?_cons, Frame.find?_reverse hnodup, hsame label]
  have hunique : ∀ d ∈ e.declarations, d.label = label →
      e.declarations.find? (·.label = label) = some d := by
    rintro d hd rfl
    exact find?_of_nodup_map hnodup hd
  cases hown : (e.own outer).find? (·.label = label) with
  | some d =>
      have hlabel : d.label = label := by simpa using List.find?_some hown
      have hmem := List.mem_of_mem_filter (List.mem_of_find?_eq_some hown)
      rw [hunique d hmem hlabel]
  | none =>
      cases hfound : e.declarations.find? (·.label = label) with
      | none => rfl
      | some d =>
          -- the declaration was left out, so it says what holds outside
          have hlabel : d.label = label := by simpa using List.find?_some hfound
          have hleft : outer.lookup? d.label = some d.uri := by
            by_contra hnew
            have hkept : d ∈ e.own outer :=
              List.mem_filter.mpr ⟨List.mem_of_find?_eq_some hfound, by simpa using hnew⟩
            exact absurd hlabel (by simpa using List.find?_eq_none.mp hown d hkept)
          rw [← hlabel, hleft]
          rfl

theorem isBindable_own (hsound : frames.IsSound)
    (hsame : ∀ label, frames.lookup? label = outer.lookup? label)
    (hread : e.IsReadIn outer) : Frame.IsBindable (e.own outer) := by
  constructor
  · intro d hd
    obtain ⟨hmem, hnew⟩ := List.mem_filter.mp hd
    apply (hread.declarations d hmem).resolve_left
    rintro rfl
    rw [← hsame] at hnew
    simp [hsound.xml] at hnew
  · exact hread.labels_nodup.sublist (List.filter_sublist.map _)

/-- An element that was read is spelled by its own declarations, and no other. -/
theorem exists_spell_of_isReadIn (hsound : frames.IsSound)
    (hsame : ∀ label, frames.lookup? label = outer.lookup? label)
    (hread : e.IsReadIn outer) :
    ∃ written spelled, IsSpelled frames e (e.own outer) written spelled ∧
      ∀ next children text declarations,
        declarations.filter (fun d => frames.lookup? d.label ≠ some d.uri) = e.own outer →
        spell ⟨frames, next⟩ ⟨e.name, e.ns, e.attributes, children, text, declarations⟩ =
          (⟨written, (e.own outer).map spellDeclaration ++ spelled,
            (spellAll ⟨e.own outer :: frames, next⟩ children).1, text.getD ""⟩,
           ⟨frames, (spellAll ⟨e.own outer :: frames, next⟩ children).2.next⟩) := by
  have hbindable := isBindable_own hsound hsame hread
  have hinner := hsound.cons hbindable
  have hlookup := lookup?_own hsame hread.labels_nodup
  obtain ⟨written, hname, hnames⟩ := exists_spellName_of_lookup hinner e.name hread.names.ns
    (fun uri huri hxml => by
      obtain ⟨label, declared, hdeclared, rfl⟩ := hread.declared.ns uri huri hxml
      exact ⟨label, (hlookup label).trans hdeclared⟩)
    (fun hnone uri huri => hread.declared.default hnone uri ((hlookup "").symm.trans huri))
  have hattributes : ∀ attr ∈ e.attributes, ∀ uri, attr.ns = some uri → uri ≠ xmlNamespace →
      ∃ label, label ≠ "" ∧ Frames.lookup? (e.own outer :: frames) label = some uri := by
    intro attr hattr uri huri hxml
    obtain ⟨label, declared, hlabel, hdeclared, rfl⟩ :=
      hread.declared.attribute_ns attr hattr uri huri hxml
    exact ⟨label, hlabel, (hlookup label).trans hdeclared⟩
  obtain ⟨spelled, hspells, hspelled⟩ := exists_spellAttributes_of_lookup hinner hattributes
  refine ⟨written, spelled, ⟨hbindable, hread.names, hnames, hspells⟩, ?_⟩
  intro next children text declarations hown
  rw [spell]
  simp only [hown, hname, hspelled, List.headD_cons]

end Spelling

/-- Whether an element is spelled without a new prefix, is read back as `pruned`, and
is laid out like that one. -/
def SettlesTo (layout : Layout) (choice : Choice) (e pruned : Element) : Prop :=
  ∃ markup again, spell choice e = (markup, choice) ∧ spell choice pruned = (again, choice) ∧
    ReadsAs layout choice.frames markup pruned ∧
    ∀ depth, again.render layout depth = markup.render layout depth

/-- Elements that settle one by one settle one after another. -/
theorem exists_spellAll_of_settlesTo {layout : Layout} {choice : Choice} {es : List Element}
    {f : Element → Element} (hes : ∀ e ∈ es, SettlesTo layout choice e (f e)) :
    ∃ markups again, spellAll choice es = (markups, choice) ∧
      spellAll choice (es.map f) = (again, choice) ∧
      List.Forall₂ (ReadsAs layout choice.frames) markups (es.map f) ∧
      ∀ depth, Markup.renderAll layout depth again = Markup.renderAll layout depth markups := by
  induction es with
  | nil => exact ⟨[], [], rfl, rfl, .nil, fun _ => rfl⟩
  | cons e rest ih =>
      obtain ⟨markup, again, hspell, hagain, hreads, hrender⟩ := hes e List.mem_cons_self
      obtain ⟨markups, agains, hspells, hagains, hreadsAll, hrenders⟩ :=
        ih fun other hother => hes other (List.mem_cons_of_mem e hother)
      refine ⟨markup :: markups, again :: agains, ?_, ?_, .cons hreads hreadsAll, fun depth => ?_⟩
      · simp only [spellAll, hspell, hspells]
      · simp only [List.map_cons, spellAll, hagain, hagains]
      · rw [Markup.renderAll, Markup.renderAll, hrender, hrenders]

/-- Every tree that was read settles: the declarations in force are the same for the
writer, who leaves some out, as for the tree. -/
theorem settlesTo_prune (layout : Layout) {e : Element} {outer frames : Frames}
    (heverywhere : e.EverywhereIn Element.IsReadIn outer) (hsound : frames.IsSound)
    (hsame : ∀ label, frames.lookup? label = outer.lookup? label) (next : Nat) :
    SettlesTo layout ⟨frames, next⟩ e (e.prune outer) := by
  induction heverywhere generalizing frames with
  | @intro outer e hread _ ih =>
    obtain ⟨written, spelled, hspelled, hspell⟩ := exists_spell_of_isReadIn hsound hsame hread
    have hown : e.declarations.filter (fun d => frames.lookup? d.label ≠ some d.uri) =
        e.own outer := by
      simp only [Element.own, hsame]
    have htwice : (e.own outer).filter (fun d => frames.lookup? d.label ≠ some d.uri) =
        e.own outer := by
      rw [← hown, List.filter_filter]
      simp
    have hinner : ∀ child ∈ e.children, SettlesTo layout ⟨e.own outer :: frames, next⟩ child
        (child.prune (e.declarations.reverse :: outer)) := fun child hchild =>
      ih child hchild (hsound.cons hspelled.bindable) (lookup?_own hsame hread.labels_nodup)
    obtain ⟨markups, again, hall, hagain, hreads, hrender⟩ :=
      exists_spellAll_of_settlesTo (f := Element.prune (e.declarations.reverse :: outer)) hinner
    have hfirst := hspell next e.children e.text _ hown
    have hsecond := hspell next
      (e.children.map (Element.prune (e.declarations.reverse :: outer)))
      (if e.children.isEmpty then e.text else none) _ htwice
    have heta : (⟨e.name, e.ns, e.attributes, e.children, e.text, e.declarations⟩ : Element) =
        e := by cases e; rfl
    rw [hall, heta] at hfirst
    rw [hagain, ← Element.prune_eq] at hsecond
    have hmarkups : markups.isEmpty = e.children.isEmpty := by
      rw [← isEmpty_spellAll ⟨e.own outer :: frames, next⟩ e.children, hall]
    have hagains : again.isEmpty = e.children.isEmpty := by
      rw [← List.isEmpty_map (f := Element.prune (e.declarations.reverse :: outer)),
        ← isEmpty_spellAll ⟨e.own outer :: frames, next⟩, hagain]
    refine ⟨_, _, hfirst, hsecond, ?_, fun depth => ?_⟩
    · rw [Element.prune_eq]
      cases hempty : e.children.isEmpty with
      | true =>
          rw [List.isEmpty_iff.mp hempty, List.isEmpty_iff.mp (hmarkups.trans hempty)]
          cases htext : e.text with
          | none => exact hspelled.readsAs_empty
          | some text => exact hspelled.readsAs_text (hread.text text htext)
      | false =>
          apply hspelled.readsAs_children _ hreads
          rw [← List.isEmpty_eq_false_iff, hmarkups, hempty]
    · cases hempty : e.children.isEmpty with
      | true =>
          rw [List.isEmpty_iff.mp (hmarkups.trans hempty),
            List.isEmpty_iff.mp (hagains.trans hempty)]
          rfl
      | false => simp [Markup.render, hmarkups, hagains, hempty, hrender]

/-- A declaration without escaped characters that was accepted, whether its prefix is a
name or not. -/
def NamespaceDecl.IsAccepted (d : NamespaceDecl) : Prop :=
  d = ⟨"xml", xmlNamespace⟩ ∨
    d.label ≠ "xml" ∧ d.label ≠ "xmlns" ∧ (∀ c ∈ d.uri.toList, c ∉ escapedChars) ∧
      (d.label = "" ∨ d.uri ≠ xmlNamespace ∧ d.uri ≠ xmlnsNamespace)

/-- What the tags of a document that was read guarantee, names aside. -/
structure Element.IsTagged (e : Element) : Prop where
  ns : e.ns ≠ some ""
  attribute_ns : ∀ attr ∈ e.attributes, attr.ns ≠ some ""
  not_declaration : ∀ attr ∈ e.attributes, attr.key ≠ ⟨"xmlns", none⟩
  keys_nodup : (e.attributes.map Attribute.key).Nodup
  declarations : ∀ d ∈ e.declarations, d.IsAccepted
  text : ∀ text, e.text = some text → isBlankText text = false

theorem recordsValues_of_isPlainTag {content : List Char} (hplain : IsPlainTag content) :
    RecordsValues Eq content := by
  rintro raw hraw hlabel chars value ⟨hchars, hvalue⟩
  have hclean := hplain.values raw hraw hlabel chars (by simp [hchars, Except.toOption])
  have hamp : '&' ∉ chars := fun hmem => hclean '&' hmem (by simp [escapedChars])
  rw [unescape, unescapeFrom_of_plain 0 hamp] at hvalue
  exact Except.ok.inj hvalue

theorem declarations_of_openElement {scope : Scope} {content : List Char} {o : OpenElement}
    (hplain : IsPlainTag content) (hopen : openElement scope content = .ok o) :
    ∀ d ∈ o.element.declarations, d.IsAccepted := by
  apply IsInvariant.of_openElement
    (motive := fun _ e => ∀ d ∈ e.declarations, d.IsAccepted) hopen
  · refine ⟨fun raw hraw scope next e label chars value hlabel hmeans hbind hold d hd => ?_,
      fun _ _ _ _ _ _ _ _ _ _ hold => hold⟩
    rcases List.mem_append.mp hd with hd | hd
    · exact hold d hd
    · have hsome : declaredLabel? raw.key ≠ none := by simp [hlabel]
      have hsame := recordsValues_of_isPlainTag hplain raw hraw hsome chars value hmeans
      have hclean := hplain.values raw hraw hsome chars
        (by simp [hmeans.1, Except.toOption])
      rw [hsame] at hbind
      rw [← String.toList_ofList (l := chars), hsame] at hclean
      rw [List.mem_singleton.mp hd]
      rcases Scope.bind_eq_ok hbind with ⟨hxml, rfl, _⟩ | ⟨hxml, hxmlns, hfree, _⟩
      · exact Or.inl (congrArg (NamespaceDecl.mk · xmlNamespace) hxml)
      · exact Or.inr ⟨hxml, hxmlns, hclean, hfree⟩
  · simp [Element.empty]

theorem Element.BuiltOf.isTagged {tags : List (List Char)}
    (hplain : ∀ content ∈ tags, IsPlainTag content) {scope : Scope} {e : Element}
    (hbuilt : e.BuiltOf tags scope) : e.Everywhere Element.IsTagged := by
  apply hbuilt.everywhere
  intro scope content o children text htag hopen htext
  have hregular := isRegular_of_openElement hopen children htext
  exact ⟨hregular.ns, hregular.attribute_ns, hregular.not_declaration, hregular.keys_nodup,
    declarations_of_openElement (hplain content htag) hopen, htext⟩

/-- A tree that was read is made of elements that account for their names. -/
theorem everywhereIn_isReadIn {bytes : ByteArray} {document : Document}
    (hread : readDocument bytes = .ok document)
    (hplain : ∀ content ∈ startTags bytes, IsPlainTag content)
    (hnames : document.root.Everywhere Element.HasXmlNames) :
    document.root.EverywhereIn Element.IsReadIn Frames.initial := by
  have hbuilt := builtOf_of_readDocument hread
  have hmirrored : Scope.initial.IsMirrored Eq Frames.initial :=
    Scope.isMirrored_initial (by simp [Frames.initial])
  have hdeclared := hbuilt.everywhereIn_isDeclared (R := Eq) (fun _ heq => heq.symm)
    (fun content htag => recordsValues_of_isPlainTag (hplain content htag))
    (fun content htag => (hplain content htag).label) hmirrored
  apply hdeclared.combine ((hbuilt.isTagged hplain).combine hnames)
  rintro outer e hdeclared ⟨htagged, hnames⟩
  refine ⟨⟨hnames.name, htagged.ns, hnames.attribute_name, htagged.attribute_ns,
    htagged.not_declaration, htagged.keys_nodup⟩, fun d hd => ?_, hnames.labels_nodup,
    hdeclared, htagged.text⟩
  rcases htagged.declarations d hd with hempty | ⟨hxml, hxmlns, hclean, hfree⟩
  · exact Or.inl hempty
  · exact Or.inr ⟨(hnames.label d hd).imp_right fun hlabel => ⟨hlabel, hxml, hxmlns⟩, hclean,
      hfree⟩

/-- A document that was read is written exactly: what is read back is the document
without redundant declarations and without texts beside children, and that is written
alike.  The values of its declarations have to hold no character that is escaped, since
the reader does not look through references there. -/
theorem readDocument_toBytes_prune {bytes : ByteArray} {document : Document}
    (hread : readDocument bytes = .ok document)
    (hplain : ∀ content ∈ startTags bytes, IsPlainTag content)
    (hnames : document.root.Everywhere Element.HasXmlNames) (layout : Layout) :
    readDocument (document.toBytes layout) = .ok document.prune ∧
      document.prune.toBytes layout = document.toBytes layout := by
  obtain ⟨markup, again, hspell, hagain, hreads, hrender⟩ := settlesTo_prune layout
    (everywhereIn_isReadIn hread hplain hnames) isSound_initial (fun _ => rfl) 0
  have hmarkup : document.markup = markup := by rw [Document.markup, hspell]
  have hpruned : document.prune.markup = again := by
    rw [Document.markup, Document.prune, hagain]
  constructor
  · apply Document.readDocument_toBytes_of_readsAs
    rw [hmarkup]
    exact hreads
  · rw [Document.toBytes, Document.toBytes, Document.write, Document.write, hmarkup, hpruned,
      hrender]

/-- A document that declares prefixes again, hides them, takes the default namespace
back and has a text beside its children. -/
def redundant : ByteArray :=
  ("<?xml version='1.0'?><a xmlns='u' xmlns:p='v' p:k='&amp;'>text<b xmlns:p='v' xmlns=''>" ++
    "<p:c xmlns:p='w' xml:lang='en'> &lt; </p:c></b><p:d xmlns='u'/></a>").toUTF8

/-- The document itself. -/
def redundantDocument : Document :=
  ⟨⟨"a", some "u", [⟨"k", some "v", "&"⟩],
    [⟨"b", none, [],
        [⟨"c", some "w", [⟨"lang", some xmlNamespace, "en"⟩], [], some " < ", [⟨"p", "w"⟩]⟩],
        none, [⟨"p", "v"⟩, ⟨"", ""⟩]⟩,
      ⟨"d", some "v", [], [], none, [⟨"", "u"⟩]⟩],
    some "text", [⟨"", "u"⟩, ⟨"p", "v"⟩]⟩⟩

/-- What is left of it: the text beside the children is gone, and so are the declarations that
say once more what is in force.  The one that hides a prefix stays, and the one that takes the
default back. -/
def prunedDocument : Document :=
  ⟨⟨"a", some "u", [⟨"k", some "v", "&"⟩],
    [⟨"b", none, [],
        [⟨"c", some "w", [⟨"lang", some xmlNamespace, "en"⟩], [], some " < ", [⟨"p", "w"⟩]⟩],
        none, [⟨"", ""⟩]⟩,
      ⟨"d", some "v", [], [], none, []⟩],
    none, [⟨"", "u"⟩, ⟨"p", "v"⟩]⟩⟩

theorem readDocument_toBytes_redundant :
    readDocument redundant = .ok redundantDocument ∧
      (∀ content ∈ startTags redundant, IsPlainTag content) ∧
      redundantDocument.root.Everywhere Element.HasXmlNames ∧
      redundantDocument.prune = prunedDocument ∧
      readDocument (redundantDocument.toBytes Layout.standard) = .ok prunedDocument ∧
      prunedDocument.toBytes Layout.standard = redundantDocument.toBytes Layout.standard := by
  have hread : readDocument redundant = .ok redundantDocument := by decide +kernel
  have hplain : ∀ content ∈ startTags redundant, IsPlainTag content := by decide +kernel
  have hnames : redundantDocument.root.Everywhere Element.HasXmlNames := by decide +kernel
  have hpruned : redundantDocument.prune = prunedDocument := by decide +kernel
  obtain ⟨hreread, hagain⟩ := readDocument_toBytes_prune hread hplain hnames Layout.standard
  rw [hpruned] at hreread hagain
  exact ⟨hread, hplain, hnames, hpruned, hreread, hagain⟩

end Epub.Xml
