/-
Reading a laid out tree: behind its last tag the reader has gained one element,
which says what the tree says.
-/
import Epub.Proofs.Xml.Opening

namespace Epub.Xml

open Epub.Text Frames

/-- The inside of a tag that is read as a start tag when it stands alone, and as
an empty element when a slash follows it. -/
structure IsTagContent (content : List Char) : Prop where
  balanced : IsBalanced content
  head : ∀ c ∈ content.head?, c ≠ '?' ∧ c ≠ '!' ∧ c ≠ '/'
  nonempty : content ≠ []
  last : content.getLast? ≠ some '/'

theorem isTagContent_of_isPlain {name : List Char} (hname : IsPlain name)
    {spelled : List Spelling} (hspelled : ∀ s ∈ spelled, IsPlain s.1.toList) :
    IsTagContent (name ++ spelled.flatMap spellingChars) := by
  have hplain : ∀ c ∈ name, c ≠ '?' ∧ c ≠ '!' ∧ c ≠ '/' := by
    intro c hc
    have hmark := hname.2 c hc
    simp only [markupChars, List.mem_cons, not_or] at hmark
    simp [hmark]
  refine ⟨(IsBalanced.of_isPlain hname).append
    (IsBalanced.flatMap fun s hs => IsBalanced.spelling (hspelled s hs)), ?_, ?_, ?_⟩
  · obtain ⟨first, rest, hchars⟩ := List.exists_cons_of_ne_nil hname.1
    intro c hc
    apply hplain
    simp only [hchars, List.cons_append, List.head?_cons, Option.mem_some_iff] at hc
    simp [hchars, hc]
  · simp [hname.1]
  · rcases List.eq_nil_or_concat spelled with rfl | ⟨front, s, rfl⟩
    · intro hlast
      rw [List.flatMap_nil, List.append_nil] at hlast
      exact (hplain '/' (List.mem_of_getLast? hlast)).2.2 rfl
    · have hquote : spellingChars s =
          (' ' :: s.1.toList ++ '=' :: '"' :: (escape s.2).toList) ++ ['"'] := by
        simp [spellingChars]
      rw [List.concat_eq_append, List.flatMap_append, List.flatMap_singleton, hquote,
        ← List.append_assoc, ← List.append_assoc, List.getLast?_concat]
      decide

namespace IsTagContent

variable {content : List Char}

theorem cutMarkup_eq (hcontent : IsTagContent content) (rest : List Char) :
    cutMarkup (content ++ rest) = cutElementTag (content ++ rest) := by
  obtain ⟨c, tail, rfl⟩ := List.exists_cons_of_ne_nil hcontent.nonempty
  obtain ⟨hquestion, hbang, _⟩ := hcontent.head c rfl
  rw [List.cons_append]
  unfold cutMarkup
  split <;> simp_all

theorem cutToken_startTag (hcontent : IsTagContent content) (rest : List Char) :
    cutToken '<' (content ++ '>' :: rest) = .ok (.startTag content false, rest) := by
  rw [cutToken, if_pos rfl, hcontent.cutMarkup_eq, cutElementTag,
    hcontent.balanced.cutTag_eq]
  dsimp only
  split
  · exact absurd rfl (hcontent.head '/' rfl).2.2
  · rw [if_neg hcontent.last]

theorem cutToken_emptyTag (hcontent : IsTagContent content) (rest : List Char) :
    cutToken '<' (content ++ '/' :: '>' :: rest) = .ok (.startTag content true, rest) := by
  have hslash : IsBalanced (content ++ ['/']) :=
    hcontent.balanced.append (IsBalanced.of_unquoted (by decide))
  have hcut := hslash.cutTag_eq rest
  rw [List.append_assoc] at hcut
  rw [cutToken, if_pos rfl, hcontent.cutMarkup_eq, cutElementTag]
  simp only [List.cons_append, List.nil_append] at hcut
  rw [hcut]
  obtain ⟨c, tail, rfl⟩ := List.exists_cons_of_ne_nil hcontent.nonempty
  dsimp only
  split
  · rename_i heq
    rw [List.cons_append, List.cons.injEq] at heq
    exact absurd heq.1 (hcontent.head c rfl).2.2
  · rw [List.getLast?_concat, List.dropLast_concat, if_pos rfl]

end IsTagContent

/-- White space at the end of an end tag does not belong to its name. -/
theorem endTagName_of_isPlain {name gap : List Char} (hname : IsPlain name)
    (hgap : ∀ c ∈ gap, isSpace c = true) : endTagName (name ++ gap) = name := by
  have hreverse : (name ++ gap).reverse.dropWhile isSpace = name.reverse := by
    rw [List.reverse_append, List.dropWhile_append_of_pos (by simpa using hgap)]
    cases hchars : name.reverse with
    | nil => rfl
    | cons c rest =>
        have hc : c ∈ name := by
          rw [← List.mem_reverse, hchars]
          exact List.mem_cons_self
        exact List.dropWhile_cons_of_neg (by simp [not_isSpace_of_not_mem (hname.2 c hc)])
  rw [endTagName, hreverse, List.reverse_reverse]
  split
  · exact absurd rfl hname.1
  · rfl

theorem cutToken_endTag {name gap : List Char} (hname : IsPlain name)
    (hgap : ∀ c ∈ gap, isSpace c = true) (rest : List Char) :
    cutToken '<' ('/' :: (name ++ gap) ++ '>' :: rest) = .ok (.endTag name, rest) := by
  have hbalanced : IsBalanced ('/' :: (name ++ gap)) := by
    have hslash : IsBalanced ['/'] := IsBalanced.of_unquoted (by decide)
    have hspaces : IsBalanced gap := IsBalanced.of_unquoted fun c hc => by
      have hspace := hgap c hc
      simp only [isSpace, Bool.or_eq_true, decide_eq_true_eq] at hspace
      rcases hspace with ((rfl | rfl) | rfl) | rfl <;> decide
    exact hslash.append ((IsBalanced.of_isPlain hname).append hspaces)
  rw [cutToken, if_pos rfl]
  change cutElementTag ('/' :: (name ++ gap) ++ '>' :: rest) = _
  rw [cutElementTag, hbalanced.cutTag_eq]
  simp only [endTagName_of_isPlain hname hgap]

theorem isTextChar_lineBreak (layout : Layout) :
    ∀ c ∈ layout.lineBreak.toList, isTextChar c = true ∧ isBlank c = true := by
  rw [Layout.lineBreak]
  split <;> decide

theorem isTextChar_margin (layout : Layout) (depth : Nat) :
    ∀ c ∈ (layout.margin depth).toList, isTextChar c = true ∧ isBlank c = true := by
  intro c hc
  rw [Layout.margin, String.toList_ofList, List.mem_replicate] at hc
  rw [hc.2]
  decide

/-- The inside of the tag of a spelled element. -/
def tagContent (name : String) (attributes : List Spelling) : List Char :=
  name.toList ++ attributes.flatMap spellingChars

/-- The end tag of a spelled element. -/
def endTagChars (name : String) : List Char :=
  '<' :: '/' :: name.toList ++ ['>']

theorem toList_render_empty (layout : Layout) (depth : Nat) (name : String)
    (attributes : List Spelling) :
    (Markup.render layout depth ⟨name, attributes, [], ""⟩).toList =
      (layout.margin depth).toList ++ '<' :: tagContent name attributes ++ ['/', '>'] := by
  simp [Markup.render, tagContent, toList_renderAttributes, String.toList_append]

theorem toList_render_text (layout : Layout) (depth : Nat) (name : String)
    (attributes : List Spelling) {text : String} (htext : text ≠ "") :
    (Markup.render layout depth ⟨name, attributes, [], text⟩).toList =
      (layout.margin depth).toList ++ '<' :: tagContent name attributes ++
        '>' :: (escape text).toList ++ endTagChars name := by
  simp [Markup.render, tagContent, endTagChars, toList_renderAttributes,
    String.toList_append, htext]

theorem toList_render_children (layout : Layout) (depth : Nat) (name : String)
    (attributes : List Spelling) {children : List Markup} (hchildren : children ≠ [])
    (text : String) :
    (Markup.render layout depth ⟨name, attributes, children, text⟩).toList =
      (layout.margin depth).toList ++ '<' :: tagContent name attributes ++
        '>' :: (Markup.renderAll layout (depth + 1) children).toList ++
        (layout.lineBreak.toList ++ (layout.margin depth).toList) ++ endTagChars name := by
  simp [Markup.render, tagContent, endTagChars, toList_renderAttributes,
    String.toList_append, hchildren]

section Tags

variable {state next : ReadState} {content : List Char} {o : OpenElement}

theorem readFrom_startTag (hcontent : IsTagContent content)
    (hopen : openElement state.scope content = .ok o) (rest : List Char) :
    readFrom state ('<' :: content ++ '>' :: rest) =
      readFrom { state with stack := o :: state.stack } rest := by
  apply readFrom_cons (hcontent.cutToken_startTag rest)
  simp only [ReadState.step, hopen]
  rfl

theorem readFrom_emptyTag (hcontent : IsTagContent content)
    (hopen : openElement state.scope content = .ok o)
    (hattach : state.attach o.element = .ok next) (rest : List Char) :
    readFrom state ('<' :: content ++ '/' :: '>' :: rest) = readFrom next rest := by
  apply readFrom_cons (hcontent.cutToken_emptyTag rest)
  simp only [ReadState.step, hopen]
  exact hattach

theorem readFrom_close {below : List OpenElement} {root : Option Element}
    {name gap : List Char} (hname : IsPlain name) (hgap : ∀ c ∈ gap, isSpace c = true)
    (hopened : o.rawName = name)
    (hattach : ReadState.attach ⟨below, root⟩ o.close = .ok next) (rest : List Char) :
    readFrom ⟨o :: below, root⟩ ('<' :: '/' :: (name ++ gap) ++ '>' :: rest) =
      readFrom next rest := by
  apply readFrom_cons (cutToken_endTag hname hgap rest)
  simp only [ReadState.step, hopened, ↓reduceIte]
  exact hattach

theorem readFrom_endTag {below : List OpenElement} {root : Option Element} {name : String}
    (hname : IsPlain name.toList) (hopened : o.rawName = name.toList)
    (hattach : ReadState.attach ⟨below, root⟩ o.close = .ok next) (rest : List Char) :
    readFrom ⟨o :: below, root⟩ (endTagChars name ++ rest) = readFrom next rest := by
  have hgap : ∀ c ∈ [], isSpace c = true := fun _ hc => absurd hc List.not_mem_nil
  have hclose := readFrom_close hname hgap hopened hattach rest
  simpa [endTagChars] using hclose

/-- Between its tags an element gathers what its body says. -/
theorem readFrom_element {closing : OpenElement} {body : List Char} {name : String}
    (hcontent : IsTagContent content) (hopen : openElement state.scope content = .ok o)
    (hbody : ∀ rest, readFrom ⟨o :: state.stack, state.root⟩ (body ++ rest) =
      readFrom ⟨closing :: state.stack, state.root⟩ rest)
    (hname : IsPlain name.toList) (hopened : closing.rawName = name.toList)
    (hattach : state.attach closing.close = .ok next) (rest : List Char) :
    readFrom state ('<' :: content ++ '>' :: body ++ endTagChars name ++ rest) =
      readFrom next rest := by
  have hstart := readFrom_startTag hcontent hopen (body ++ (endTagChars name ++ rest))
  have hend := readFrom_endTag hname hopened hattach rest
  simp only [List.cons_append, List.append_assoc] at hstart ⊢
  rw [hstart, hbody, hend]

end Tags

/-- Whether reading a laid out element, wherever it stands inside these declarations,
adds the element `read`. -/
def ReadsAs (layout : Layout) (frames : Frames) (markup : Markup) (read : Element) : Prop :=
  ∀ (depth : Nat) (state : ReadState), state.scope.Agrees frames → ∀ rest next,
    (state.addText (layout.margin depth).toList).attach read = .ok next →
    readFrom state ((markup.render layout depth).toList ++ rest) = readFrom next rest

/-- Laid out children are added one by one, with nothing but blanks between them. -/
theorem readFrom_renderAll {layout : Layout} {frames : Frames} {markups : List Markup}
    {reads : List Element} (hall : List.Forall₂ (ReadsAs layout frames) markups reads)
    (depth : Nat) {o : OpenElement} (hagrees : o.scope.Agrees frames)
    (below : List OpenElement) (root : Option Element) :
    ∃ blanks : List Char, (∀ c ∈ blanks, isBlank c = true) ∧
      ∀ rest, readFrom ⟨o :: below, root⟩
          ((Markup.renderAll layout depth markups).toList ++ rest) =
        readFrom ⟨{ o with
          closed := reads.reverse ++ o.closed, text := o.text ++ blanks } :: below, root⟩
          rest := by
  induction hall generalizing o with
  | nil =>
      refine ⟨[], by simp, fun rest => ?_⟩
      simp [Markup.renderAll]
  | @cons markup read markups reads hread _ ih =>
      have hbreak := isTextChar_lineBreak layout
      have hmargin := isTextChar_margin layout depth
      obtain ⟨blanks, hblanks, hothers⟩ := ih
        (o := { o with
          closed := read :: o.closed
          text := o.text ++ layout.lineBreak.toList ++ (layout.margin depth).toList })
        hagrees
      refine ⟨layout.lineBreak.toList ++ (layout.margin depth).toList ++ blanks, ?_, ?_⟩
      · intro c hc
        simp only [List.mem_append] at hc
        rcases hc with (hc | hc) | hc
        · exact (hbreak c hc).2
        · exact (hmargin c hc).2
        · exact hblanks c hc
      · intro rest
        have hnext := hread depth
          ⟨{ o with text := o.text ++ layout.lineBreak.toList } :: below, root⟩ hagrees
          ((Markup.renderAll layout depth markups).toList ++ rest) _ rfl
        rw [Markup.renderAll, String.toList_append, String.toList_append,
          List.append_assoc, List.append_assoc,
          readFrom_text _ _ fun c hc => (hbreak c hc).1]
        refine hnext.trans ((hothers rest).trans ?_)
        simp

theorem close_of_blank {o : OpenElement} (htext : ∀ c ∈ o.text, isBlank c = true) :
    o.close = { o.element with children := o.closed.reverse, text := none } := by
  have hblank : isBlankText (String.ofList o.text) = true := by
    simpa [isBlankText] using htext
  simp [OpenElement.close, hblank]

theorem close_of_text {o : OpenElement} {text : String} (htext : o.text = text.toList)
    (hblank : isBlankText text = false) :
    o.close = { o.element with children := o.closed.reverse, text := some text } := by
  simp [OpenElement.close, htext, hblank]

section Rendered

variable {layout : Layout} {depth : Nat} {name : String} {attributes : List Spelling}
  {state next : ReadState} {o : OpenElement}

theorem readFrom_margin (layout : Layout) (depth : Nat) (state : ReadState) (rest : List Char) :
    readFrom state ((layout.margin depth).toList ++ rest) =
      readFrom (state.addText (layout.margin depth).toList) rest :=
  readFrom_text state rest fun c hc => (isTextChar_margin layout depth c hc).1

theorem readFrom_render_empty (hcontent : IsTagContent (tagContent name attributes))
    (hopen : openElement (state.addText (layout.margin depth).toList).scope
      (tagContent name attributes) = .ok o)
    (hattach : (state.addText (layout.margin depth).toList).attach o.element = .ok next)
    (rest : List Char) :
    readFrom state ((Markup.render layout depth ⟨name, attributes, [], ""⟩).toList ++ rest) =
      readFrom next rest := by
  rw [toList_render_empty, List.append_assoc, List.append_assoc, readFrom_margin]
  exact readFrom_emptyTag hcontent hopen hattach rest

theorem readFrom_render_text (hcontent : IsTagContent (tagContent name attributes))
    (hopen : openElement (state.addText (layout.margin depth).toList).scope
      (tagContent name attributes) = .ok o)
    (hname : IsPlain name.toList) (hopened : o.rawName = name.toList)
    (hfresh : o.closed = [] ∧ o.text = []) {text : String} (hblank : isBlankText text = false)
    (hattach : (state.addText (layout.margin depth).toList).attach
      { o.element with children := [], text := some text } = .ok next) (rest : List Char) :
    readFrom state ((Markup.render layout depth ⟨name, attributes, [], text⟩).toList ++ rest) =
      readFrom next rest := by
  have hne : text ≠ "" := by
    rintro rfl
    exact absurd hblank (by decide)
  have hclose : ({ o with text := o.text ++ text.toList } : OpenElement).close =
      { o.element with children := [], text := some text } := by
    rw [close_of_text (by rw [hfresh.2, List.nil_append]) hblank, hfresh.1]
    rfl
  rw [← hclose] at hattach
  have hbody := readFrom_element hcontent hopen
    (fun rest => readFrom_escape _ text rest) hname hopened hattach
    rest
  rw [toList_render_text layout depth name _ hne]
  simp only [List.cons_append, List.append_assoc] at hbody ⊢
  rw [readFrom_margin, hbody]

theorem readFrom_render_children (hcontent : IsTagContent (tagContent name attributes))
    (hopen : openElement (state.addText (layout.margin depth).toList).scope
      (tagContent name attributes) = .ok o)
    (hname : IsPlain name.toList) (hopened : o.rawName = name.toList)
    (hfresh : o.closed = [] ∧ o.text = []) {children : List Markup} (hchildren : children ≠ [])
    {reads : List Element} {blanks : List Char} (hblanks : ∀ c ∈ blanks, isBlank c = true)
    {below : List OpenElement} {root : Option Element}
    (hbelow : state.addText (layout.margin depth).toList = ⟨below, root⟩)
    (hall : ∀ rest, readFrom ⟨o :: below, root⟩
        ((Markup.renderAll layout (depth + 1) children).toList ++ rest) =
      readFrom ⟨{ o with closed := reads.reverse ++ o.closed, text := o.text ++ blanks } :: below,
        root⟩ rest)
    (hattach : (state.addText (layout.margin depth).toList).attach
      { o.element with children := reads, text := none } = .ok next)
    (text : String) (rest : List Char) :
    readFrom state ((Markup.render layout depth ⟨name, attributes, children, text⟩).toList ++
      rest) = readFrom next rest := by
  have hspaces : ∀ c ∈ layout.lineBreak.toList ++ (layout.margin depth).toList,
      isTextChar c = true ∧ isBlank c = true := by
    intro c hc
    rcases List.mem_append.mp hc with hc | hc
    · exact isTextChar_lineBreak layout c hc
    · exact isTextChar_margin layout depth c hc
  have hclose : ({ o with
      closed := reads.reverse ++ o.closed
      text := o.text ++ blanks ++ (layout.lineBreak.toList ++ (layout.margin depth).toList) } :
        OpenElement).close = { o.element with children := reads, text := none } := by
    rw [close_of_blank]
    · simp [hfresh]
    · intro c hc
      rw [hfresh.2, List.nil_append] at hc
      rcases List.mem_append.mp hc with hc | hc
      · exact hblanks c hc
      · exact (hspaces c hc).2
  rw [← hclose] at hattach
  have hinside : ∀ rest, readFrom ⟨o :: below, root⟩
      (((Markup.renderAll layout (depth + 1) children).toList ++
        (layout.lineBreak.toList ++ (layout.margin depth).toList)) ++ rest) =
      readFrom ⟨{ o with
        closed := reads.reverse ++ o.closed
        text := o.text ++ blanks ++ (layout.lineBreak.toList ++ (layout.margin depth).toList) } ::
          below, root⟩ rest := by
    intro rest
    rw [List.append_assoc, hall, readFrom_text _ _ fun c hc => (hspaces c hc).1]
    rfl
  rw [hbelow] at hopen hattach
  have hbody := readFrom_element hcontent hopen hinside hname hopened hattach rest
  rw [toList_render_children layout depth name _ hchildren]
  simp only [List.cons_append, List.append_assoc] at hbody ⊢
  rw [readFrom_margin, hbelow, hbody]

end Rendered

/-- Whether a tag spells an element inside some declarations: its name and its
attributes stand for those of the element under the declarations `frame` of the tag. -/
structure IsSpelled (frames : Frames) (e : Element) (frame : Frame) (written : String)
    (spelled : List Spelling) : Prop where
  bindable : frame.IsBindable
  names : e.HasProperNames
  name : NamesElement (frame :: frames) written e.name e.ns
  attributes : List.Forall₂ (Spells (frame :: frames)) spelled e.attributes

namespace IsSpelled

variable {layout : Layout} {frames : Frames} {e : Element} {frame : Frame} {written : String}
  {spelled : List Spelling}

theorem isPlain (hspelled : IsSpelled frames e frame written spelled) :
    IsPlain written.toList :=
  isPlain_of_namesElement hspelled.name hspelled.names.name

theorem isTagContent (hspelled : IsSpelled frames e frame written spelled) :
    IsTagContent (tagContent written (frame.map spellDeclaration ++ spelled)) :=
  isTagContent_of_isPlain hspelled.isPlain
    (isPlain_spelled hspelled.bindable hspelled.names hspelled.attributes)

/-- The tag opens the element wherever it stands. -/
theorem openElement_eq (hspelled : IsSpelled frames e frame written spelled) (depth : Nat)
    {state : ReadState} (hagrees : state.scope.Agrees frames) :
    openElement (state.addText (layout.margin depth).toList).scope
        (tagContent written (frame.map spellDeclaration ++ spelled)) =
      .ok ⟨written.toList, ⟨e.name, e.ns, e.attributes, [], none, frame⟩, [], [],
        frame.reverse ++ state.scope⟩ := by
  rw [ReadState.scope_addText]
  exact openElement_of_spelled hagrees hspelled.bindable hspelled.names hspelled.name
    hspelled.attributes

theorem readsAs_empty (hspelled : IsSpelled frames e frame written spelled) :
    ReadsAs layout frames ⟨written, frame.map spellDeclaration ++ spelled, [], ""⟩
      ⟨e.name, e.ns, e.attributes, [], none, frame⟩ := by
  intro depth state hagrees rest next hattach
  exact readFrom_render_empty hspelled.isTagContent (hspelled.openElement_eq depth hagrees)
    hattach rest

theorem readsAs_text (hspelled : IsSpelled frames e frame written spelled) {text : String}
    (hblank : isBlankText text = false) :
    ReadsAs layout frames ⟨written, frame.map spellDeclaration ++ spelled, [], text⟩
      ⟨e.name, e.ns, e.attributes, [], some text, frame⟩ := by
  intro depth state hagrees rest next hattach
  exact readFrom_render_text hspelled.isTagContent (hspelled.openElement_eq depth hagrees)
    hspelled.isPlain rfl ⟨rfl, rfl⟩ hblank hattach rest

/-- Beside children a text is not written. -/
theorem readsAs_children (hspelled : IsSpelled frames e frame written spelled)
    {markups : List Markup} {reads : List Element} (hmarkups : markups ≠ [])
    (hall : List.Forall₂ (ReadsAs layout (frame :: frames)) markups reads) (text : String) :
    ReadsAs layout frames ⟨written, frame.map spellDeclaration ++ spelled, markups, text⟩
      ⟨e.name, e.ns, e.attributes, reads, none, frame⟩ := by
  intro depth state hagrees rest next hattach
  obtain ⟨blanks, hblanks, hbelow⟩ := readFrom_renderAll hall (depth + 1)
    (o := ⟨written.toList, ⟨e.name, e.ns, e.attributes, [], none, frame⟩, [], [],
      frame.reverse ++ state.scope⟩)
    (hagrees.append hspelled.bindable.nodup) _ _
  exact readFrom_render_children hspelled.isTagContent (hspelled.openElement_eq depth hagrees)
    hspelled.isPlain rfl ⟨rfl, rfl⟩ hmarkups hblanks rfl hbelow hattach text rest

end IsSpelled

/-- An element that was read says what another one says if its parts do. -/
theorem undeclared_eq_content {e : Element} (reads : List Element) {text : Option String}
    (declarations : List NamespaceDecl)
    (hreads : reads.map Element.undeclared = e.children.map Element.content)
    (htext : e.text.filter (· ≠ "") = text) :
    (⟨e.name, e.ns, e.attributes, reads, text, declarations⟩ : Element).undeclared =
      e.content := by
  rw [Element.undeclared_eq, Element.content_eq, htext, hreads]

/-- If every child is read back inside its declarations, so are the children one after
another. -/
theorem exists_readsAll (layout : Layout) {es : List Element}
    (hes : ∀ e ∈ es, ∀ choice : Choice, choice.frames.IsSound →
      ∃ read : Element, read.undeclared = e.content ∧
        ReadsAs layout choice.frames (spell choice e).1 read)
    (choice : Choice) (hsound : choice.frames.IsSound) :
    ∃ reads : List Element, reads.map Element.undeclared = es.map Element.content ∧
      List.Forall₂ (ReadsAs layout choice.frames) (spellAll choice es).1 reads := by
  induction es generalizing choice with
  | nil => exact ⟨[], rfl, .nil⟩
  | cons e es ih =>
      obtain ⟨read, hcontent, hread⟩ := hes e List.mem_cons_self choice hsound
      have hframes := spell_frames choice e
      obtain ⟨reads, hcontents, hreads⟩ :=
        ih (fun other hother => hes other (List.mem_cons_of_mem e hother)) (spell choice e).2
          (hframes ▸ hsound)
      rw [hframes] at hreads
      exact ⟨read :: reads, by rw [List.map_cons, List.map_cons, hcontent, hcontents],
        .cons hread hreads⟩

/-- Every tree that can be written is read back. -/
theorem exists_readsAs (layout : Layout) {e : Element}
    (hproper : e.Everywhere Element.IsProper) (htexts : e.Everywhere Element.KeepsText)
    (choice : Choice) (hsound : choice.frames.IsSound) :
    ∃ read : Element, read.undeclared = e.content ∧
      ReadsAs layout choice.frames (spell choice e).1 read := by
  induction e using Element.inductionOn generalizing choice with
  | hstep e ih =>
    obtain ⟨written, frame, spelled, inner, hframe, hinner, hname, hspells, hspell⟩ :=
      exists_spell hsound hproper.here
    have hextends : choice.frames.Extends inner.frames := ⟨frame, hframe, hinner⟩
    obtain ⟨reads, hcontents, hreads⟩ := exists_readsAll layout
      (fun child hchild choice hsound =>
        ih child hchild (hproper.inside hchild) (htexts.inside hchild) choice hsound)
      inner (hextends.isSound hsound)
    rw [hinner] at hname hspells hreads
    have hspelled : IsSpelled choice.frames e frame written spelled :=
      ⟨hframe.isBindable, hproper.here.hasProperNames, hname, hspells⟩
    rw [hspell]
    -- the element is laid out on its own, around its text, or around its children
    by_cases hchildren : e.children = []
    · rw [hchildren]
      simp only [spellAll]
      cases htext : e.text.filter (· ≠ "") with
      | none =>
          have hempty : e.text.getD "" = "" := by
            cases hcase : e.text with
            | none => rfl
            | some text => simpa [hcase] using htext
          rw [hempty]
          exact ⟨_, undeclared_eq_content [] frame (by rw [hchildren]; rfl) htext,
            hspelled.readsAs_empty⟩
      | some text =>
          obtain ⟨hsome, hne⟩ := Option.filter_eq_some_iff.mp htext
          have hblank := ((htexts.here text hsome).resolve_left (by simpa using hne)).1
          rw [hsome]
          exact ⟨_, undeclared_eq_content [] frame (by rw [hchildren]; rfl) htext,
            hspelled.readsAs_text hblank⟩
    · have hmarkups : (spellAll inner e.children).1 ≠ [] := by
        rw [← List.isEmpty_eq_false_iff, isEmpty_spellAll]
        exact List.isEmpty_eq_false_iff.mpr hchildren
      have hnone : e.text.filter (· ≠ "") = none := by
        cases hcase : e.text with
        | none => rfl
        | some text =>
            rcases htexts.here text hcase with rfl | ⟨_, hempty⟩
            · rfl
            · exact absurd hempty hchildren
      exact ⟨_, undeclared_eq_content reads frame hcontents hnone,
        hspelled.readsAs_children hmarkups hreads _⟩

end Epub.Xml
