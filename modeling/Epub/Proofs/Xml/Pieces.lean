/-
Documents as written, piece by piece.  An element holds pieces in any order: further
elements, comments, instructions, and texts, sections of character data and references.
What is read of it are its elements in order and all its text run together; where the
text was cut, and what stood in the cuts, does not show.
-/
import Epub.Proofs.Xml.Building
import Epub.Proofs.Xml.Reference

namespace Epub.Xml

open Epub.Text

/-- The inside of a tag with a proper name, whose quotation marks are closed and which
does not end in a slash. -/
structure Tag where
  content : List Char
  plain : IsPlain (tagName content)
  balanced : IsBalanced content
  last : content.getLast? ≠ some '/'

/-- A proper name comes first in its tag. -/
theorem Tag.isTagContent (tag : Tag) : IsTagContent tag.content := by
  obtain ⟨content, hplain, hbalanced, hlast⟩ := tag
  cases content with
  | nil => exact absurd rfl hplain.1
  | cons c tail =>
      refine ⟨hbalanced, ?_, List.cons_ne_nil c tail, hlast⟩
      intro d hd
      cases hd
      have hspace : (!isSpace c) = true := by
        by_contra hspace
        exact hplain.1 (List.takeWhile_cons_of_neg hspace)
      have hmem : c ∈ tagName (c :: tail) := by simp [tagName, hspace]
      have hmark := hplain.2 c hmem
      simp only [markupChars, List.mem_cons, not_or] at hmark
      simp [hmark]

/-- A piece of a document as written. -/
inductive Piece where
  /-- A start tag, the pieces inside the element, and an end tag that may have white
  space behind its name. -/
  | element (tag : Tag) (inside : List Piece) (gap : List Char)
      (hgap : ∀ c ∈ gap, isSpace c = true)
  | emptyElement (tag : Tag)
  | comment (body : List Char) (hbody : ¬"-->".toList <:+: body)
  | instruction (body : List Char) (hbody : ¬"?>".toList <:+: '?' :: body)
  /-- A text without the two characters that begin markup. -/
  | plain (chars : List Char) (hchars : ∀ c ∈ chars, isTextChar c = true)
  | escaped (s : String)
  | cdata (chars : List Char) (hchars : ¬"]]>".toList <:+: chars)
  | reference (name : List Char) (c : Char) (hname : StandsFor name c)

/-- What an element comes to: its tag, the elements right inside it in order, and its
text. -/
structure Outline where
  tag : List Char
  children : List Outline
  text : List Char

/-- The text to record, if it has a character that shows. -/
def shownText (text : List Char) : Option String :=
  if isBlankText (String.ofList text) then none else some (String.ofList text)

section Marks

variable {front s : List Char} {last : Char}

/-- A mark that ends in a character of its own does not start inside a text without
marks, not even to end in the mark that follows the text. -/
theorem not_prefix_append (hlast : last ∉ front) (hne : s ≠ []) (hs : ¬front ++ [last] <:+: s)
    (rest : List Char) : ¬front ++ [last] <+: s ++ (front ++ ([last] ++ rest)) := by
  intro hprefix
  by_cases hlength : (front ++ [last]).length ≤ s.length
  · have hinside : front ++ [last] <+: s :=
      List.prefix_of_prefix_length_le hprefix (List.prefix_append s _) hlength
    exact hs hinside.isInfix
  · have hshort : s.length ≤ front.length := by
      rw [List.length_append, List.length_singleton] at hlength
      omega
    have hpos : 0 < s.length := List.length_pos_iff.mpr hne
    -- The last character of the mark would stand inside the front of the one behind.
    obtain ⟨behind, hbehind⟩ := hprefix
    have hget : (s ++ (front ++ ([last] ++ rest)))[front.length]? = some last := by
      rw [← hbehind, List.append_assoc, List.getElem?_append_right (Nat.le_refl _)]
      simp
    rw [List.getElem?_append_right hshort, List.getElem?_append_left (by omega)] at hget
    exact hlast (List.mem_of_getElem? hget)

/-- The first mark behind a text without marks is the one that follows it. -/
theorem cutAt_append (hlast : last ∉ front) (hs : ¬front ++ [last] <:+: s) (rest : List Char) :
    cutAt (front ++ [last]) (s ++ (front ++ ([last] ++ rest))) = some (s, rest) := by
  induction s with
  | nil =>
      obtain ⟨c, tail, hmark⟩ := List.exists_cons_of_ne_nil (l := front ++ [last]) (by simp)
      rw [List.nil_append, ← List.append_assoc, hmark, List.cons_append, cutAt, if_pos]
      · simp
      · rw [List.isPrefixOf_iff_prefix]
        exact List.prefix_append (c :: tail) rest
  | cons c tail ih =>
      have htail : ¬front ++ [last] <:+: tail := fun hinside =>
        hs (hinside.trans (List.suffix_cons c tail).isInfix)
      have hprefix := not_prefix_append hlast (List.cons_ne_nil c tail) hs rest
      rw [← List.isPrefixOf_iff_prefix, List.cons_append] at hprefix
      rw [List.cons_append, cutAt, if_neg hprefix, ih htail]
      rfl

end Marks

namespace Outline

mutual

/-- The element of an outline inside the bindings of `scope`. -/
def read (scope : Scope) : Outline → Except Fault Element
  | ⟨tag, children, text⟩ => do
      let o ← openElement scope tag
      let children ← readAll o.scope children
      return { o.element with children, text := shownText text }

/-- The elements of outlines, in order. -/
def readAll (scope : Scope) : List Outline → Except Fault (List Element)
  | [] => .ok []
  | outline :: rest => do
      let e ← read scope outline
      return e :: (← readAll scope rest)

end

end Outline

namespace Piece

mutual

/-- The characters of a piece. -/
def chars : Piece → List Char
  | element tag inside gap _ =>
      '<' :: tag.content ++ '>' :: charsAll inside ++
        ('<' :: '/' :: (tagName tag.content ++ gap) ++ ['>'])
  | emptyElement tag => '<' :: tag.content ++ ['/', '>']
  | comment body _ => '<' :: '!' :: '-' :: '-' :: (body ++ "-->".toList)
  | instruction body _ => '<' :: '?' :: (body ++ "?>".toList)
  | plain chars _ => chars
  | escaped s => (escape s).toList
  | cdata chars _ => '<' :: ("![CDATA[".toList ++ (chars ++ "]]>".toList))
  | reference name _ _ => '&' :: name ++ [';']

/-- The characters of pieces that follow each other. -/
def charsAll : List Piece → List Char
  | [] => []
  | piece :: rest => chars piece ++ charsAll rest

end

/-- The text that a piece adds to the element around it. -/
def text : Piece → List Char
  | plain chars _ => chars
  | escaped s => s.toList
  | cdata chars _ => chars
  | reference _ c _ => [c]
  | element _ _ _ _ | emptyElement _ | comment _ _ | instruction _ _ => []

mutual

/-- The outline of a piece that is an element. -/
def outline? : Piece → Option Outline
  | element tag inside _ _ => some ⟨tag.content, outlines inside, inside.flatMap text⟩
  | emptyElement tag => some ⟨tag.content, [], []⟩
  | comment _ _ | instruction _ _ | plain _ _ | escaped _ | cdata _ _ | reference _ _ _ => none

/-- The outlines of the elements among some pieces. -/
def outlines : List Piece → List Outline
  | [] => []
  | piece :: rest =>
      match outline? piece with
      | some outline => outline :: outlines rest
      | none => outlines rest

end

/-- The state behind a piece: an element is attached, and anything else leaves its text. -/
def gain (state : ReadState) (piece : Piece) : Except Fault ReadState :=
  match piece.outline? with
  | some outline => (outline.read state.scope).bind state.attach
  | none => .ok (state.addText piece.text)

/-- Whether a piece is read, wherever it stands, as what it leaves behind. -/
def Reads (piece : Piece) : Prop :=
  ∀ (state : ReadState) (rest : List Char), readFrom state (piece.chars ++ rest) =
    (gain state piece).bind fun next => readFrom next rest

section Leaves

variable {body cs : List Char}

theorem cutToken_comment (hbody : ¬"-->".toList <:+: body) (rest : List Char) :
    cutToken '<' ('!' :: '-' :: '-' :: (body ++ ("-->".toList ++ rest))) =
      .ok (.comment, rest) := by
  have hcut : cutAt "-->".toList (body ++ ("-->".toList ++ rest)) = some (body, rest) :=
    cutAt_append (show '>' ∉ ['-', '-'] by decide) hbody rest
  rw [cutToken, if_pos rfl]
  change cutComment ('!' :: '-' :: '-' :: (body ++ ("-->".toList ++ rest))) = _
  simp only [cutComment, hcut]

theorem cutToken_instruction (hbody : ¬"?>".toList <:+: '?' :: body) (rest : List Char) :
    cutToken '<' ('?' :: body ++ ("?>".toList ++ rest)) = .ok (.instruction, rest) := by
  have hcut : cutAt "?>".toList ('?' :: body ++ ("?>".toList ++ rest)) = some ('?' :: body, rest) :=
    cutAt_append (show '>' ∉ ['?'] by decide) hbody rest
  rw [cutToken, if_pos rfl]
  change cutInstruction ('?' :: body ++ ("?>".toList ++ rest)) = _
  simp only [cutInstruction, hcut]

theorem cutToken_cdata (hcs : ¬"]]>".toList <:+: cs) (rest : List Char) :
    cutToken '<' ("![CDATA[".toList ++ (cs ++ ("]]>".toList ++ rest))) =
      .ok (.cdata cs, rest) := by
  have hcut : cutAt "]]>".toList (cs ++ ("]]>".toList ++ rest)) = some (cs, rest) :=
    cutAt_append (show '>' ∉ [']', ']'] by decide) hcs rest
  have hstart : "![CDATA[".toList.isPrefixOf
      ("![CDATA[".toList ++ (cs ++ ("]]>".toList ++ rest))) = true := by
    rw [List.isPrefixOf_iff_prefix]
    exact List.prefix_append _ _
  rw [cutToken, if_pos rfl]
  change cutCData ("![CDATA[".toList ++ (cs ++ ("]]>".toList ++ rest))) = _
  have hdrop : ("![CDATA[".toList ++ (cs ++ ("]]>".toList ++ rest))).drop 8 =
      cs ++ ("]]>".toList ++ rest) := rfl
  simp only [cutCData, hstart, ↓reduceIte, hdrop, hcut]

/-- Pieces that are no elements leave their text at once. -/
theorem reads_of_leaf {piece : Piece} (hleaf : piece.outline? = none)
    (hreads : ∀ state rest, readFrom state (piece.chars ++ rest) =
      readFrom (state.addText piece.text) rest) : piece.Reads := by
  intro state rest
  rw [hreads, gain, hleaf]
  rfl

theorem reads_comment (hbody : ¬"-->".toList <:+: body) : (comment body hbody).Reads := by
  refine reads_of_leaf (by rw [outline?]) fun state rest => ?_
  have hchars : (comment body hbody).chars ++ rest =
      '<' :: '!' :: '-' :: '-' :: (body ++ ("-->".toList ++ rest)) := by
    simp [chars]
  rw [hchars, readFrom_cons (cutToken_comment hbody rest) rfl, text, ReadState.addText_nil]

theorem reads_instruction (hbody : ¬"?>".toList <:+: '?' :: body) :
    (instruction body hbody).Reads := by
  refine reads_of_leaf (by rw [outline?]) fun state rest => ?_
  have hchars : (instruction body hbody).chars ++ rest =
      '<' :: ('?' :: body ++ ("?>".toList ++ rest)) := by
    simp [chars]
  rw [hchars, readFrom_cons (cutToken_instruction hbody rest) rfl, text, ReadState.addText_nil]

theorem reads_plain (hcs : ∀ c ∈ cs, isTextChar c = true) : (plain cs hcs).Reads :=
  reads_of_leaf (by rw [outline?]) fun state rest => readFrom_text state rest hcs

theorem reads_escaped (s : String) : (escaped s).Reads :=
  reads_of_leaf (by rw [outline?]) fun state rest => readFrom_escape state s rest

theorem reads_cdata (hcs : ¬"]]>".toList <:+: cs) : (cdata cs hcs).Reads := by
  refine reads_of_leaf (by rw [outline?]) fun state rest => ?_
  have hchars : (cdata cs hcs).chars ++ rest =
      '<' :: ("![CDATA[".toList ++ (cs ++ ("]]>".toList ++ rest))) := by
    simp [chars]
  rw [hchars, readFrom_cons (cutToken_cdata hcs rest) rfl, text]

theorem reads_reference {name : List Char} {c : Char} (hname : StandsFor name c) :
    (reference name c hname).Reads := by
  refine reads_of_leaf (by rw [outline?]) fun state rest => ?_
  have hchars : (reference name c hname).chars ++ rest = '&' :: name ++ ';' :: rest := by
    simp [chars]
  rw [hchars, readFrom_reference state rest hname.name_ne (resolveText?_eq_some.mpr (.inl hname)),
    text]

end Leaves

section Elements

variable {scope : Scope} {o : OpenElement}

/-- An empty element comes to what its tag opens. -/
theorem reads_emptyElement (tag : Tag) : (emptyElement tag).Reads := by
  intro state rest
  have hchars : (emptyElement tag).chars ++ rest = '<' :: (tag.content ++ '/' :: '>' :: rest) := by
    simp [chars]
  rw [hchars, readFrom_token state (tag.isTagContent.cutToken_emptyTag rest), gain, outline?]
  simp only [ReadState.step, Outline.read, Outline.readAll]
  cases hopen : openElement state.scope tag.content with
  | error fault => rfl
  | ok o =>
      have hblank : shownText [] = none := by decide
      simp only [ok_bind, hblank, ← empty_of_openElement hopen]
      rfl

theorem text_of_outline? {piece : Piece} {outline : Outline}
    (houtline : piece.outline? = some outline) : piece.text = [] := by
  cases piece with
  | element | emptyElement => rfl
  | comment | instruction | plain | escaped | cdata | reference =>
      rw [outline?] at houtline
      contradiction

/-- Inside an open element the elements among some pieces are added in order, and so is all
the text. -/
theorem readFrom_inside {pieces : List Piece} (hall : ∀ piece ∈ pieces, piece.Reads)
    (o : OpenElement) (below : List OpenElement) (root : Option Element) (rest : List Char) :
    readFrom ⟨o :: below, root⟩ (charsAll pieces ++ rest) =
      (Outline.readAll o.scope (outlines pieces)).bind fun es =>
        readFrom ⟨{ o with
          closed := es.reverse ++ o.closed
          text := o.text ++ pieces.flatMap text } :: below, root⟩ rest := by
  induction pieces generalizing o with
  | nil =>
      rw [charsAll, outlines, Outline.readAll]
      simp [Except.bind]
  | cons piece pieces ih =>
      obtain ⟨hpiece, hall⟩ := List.forall_mem_cons.mp hall
      rw [charsAll, List.append_assoc, hpiece, gain, outlines, List.flatMap_cons]
      cases houtline : piece.outline? with
      | none =>
          have hnext := ih hall { o with text := o.text ++ piece.text }
          rw [List.append_assoc] at hnext
          exact hnext
      | some outline =>
          rw [Outline.readAll, text_of_outline? houtline]
          cases hread : outline.read o.scope with
          | error fault =>
              simp only [ReadState.scope, hread]
              rfl
          | ok e =>
              have hnext := ih hall { o with closed := e :: o.closed }
              simp only [ReadState.scope, hread]
              refine hnext.trans ?_
              cases Outline.readAll o.scope (outlines pieces) with
              | error fault => rfl
              | ok es => simp [Except.bind, ok_bind]

/-- An element comes to what its tag opens, with the elements and the text inside it. -/
theorem reads_element (tag : Tag) {inside : List Piece} (hall : ∀ piece ∈ inside, piece.Reads)
    {gap : List Char} (hgap : ∀ c ∈ gap, isSpace c = true) :
    (element tag inside gap hgap).Reads := by
  intro state rest
  have hchars : (element tag inside gap hgap).chars ++ rest =
      '<' :: (tag.content ++ '>' :: (charsAll inside ++
        '<' :: ('/' :: (tagName tag.content ++ gap) ++ '>' :: rest))) := by
    simp [chars]
  rw [hchars, readFrom_token state (tag.isTagContent.cutToken_startTag _), gain, outline?]
  simp only [ReadState.step, Outline.read]
  cases hopen : openElement state.scope tag.content with
  | error fault => rfl
  | ok o =>
      obtain ⟨hname, hclosed, htext⟩ := fresh_of_openElement hopen
      have hend := cutToken_endTag tag.plain hgap rest
      refine (readFrom_inside hall o state.stack state.root _).trans ?_
      simp only [ok_bind]
      cases Outline.readAll o.scope (outlines inside) with
      | error fault => rfl
      | ok es =>
          change readFrom _ _ = _
          rw [readFrom_token _ hend]
          simp only [ReadState.step, hname, ↓reduceIte, OpenElement.close, hclosed, htext,
            List.append_nil, List.reverse_reverse, List.nil_append]
          rfl

/-- Every piece is read as what it leaves behind. -/
theorem reads : ∀ piece : Piece, piece.Reads
  | element tag inside _ hgap => reads_element tag (fun inner _ => reads inner) hgap
  | emptyElement tag => reads_emptyElement tag
  | comment _ hbody => reads_comment hbody
  | instruction _ hbody => reads_instruction hbody
  | plain _ hchars => reads_plain hchars
  | escaped s => reads_escaped s
  | cdata _ hchars => reads_cdata hchars
  | reference _ _ hname => reads_reference hname

end Elements

section Outside

variable {pieces : List Piece}

/-- Around the root everything but elements is dropped. -/
theorem readFrom_outside_root (root : Option Element) (houtlines : outlines pieces = [])
    (rest : List Char) :
    readFrom ⟨[], root⟩ (charsAll pieces ++ rest) = readFrom ⟨[], root⟩ rest := by
  induction pieces with
  | nil => rfl
  | cons piece pieces ih =>
      rw [outlines] at houtlines
      rw [charsAll, List.append_assoc, reads piece, gain]
      cases hsome : piece.outline? with
      | none =>
          rw [hsome] at houtlines
          exact ih houtlines
      | some first =>
          rw [hsome] at houtlines
          contradiction

/-- The one element is the root. -/
theorem readFrom_root {outline : Outline} (houtlines : outlines pieces = [outline])
    (rest : List Char) :
    readFrom ReadState.initial (charsAll pieces ++ rest) =
      (outline.read Scope.initial).bind fun e => readFrom ⟨[], some e⟩ rest := by
  induction pieces with
  | nil => contradiction
  | cons piece pieces ih =>
      rw [outlines] at houtlines
      rw [charsAll, List.append_assoc, reads piece, gain]
      cases hsome : piece.outline? with
      | none =>
          rw [hsome] at houtlines
          exact ih houtlines
      | some first =>
          rw [hsome] at houtlines
          obtain ⟨rfl, hrest⟩ := List.cons.inj houtlines
          change ((first.read Scope.initial).bind _).bind _ = _
          cases first.read Scope.initial with
          | error fault => rfl
          | ok e => exact readFrom_outside_root (some e) hrest rest

theorem charsAll_ne_nil {outline : Outline} (houtlines : outlines pieces = [outline]) :
    charsAll pieces ≠ [] := by
  induction pieces with
  | nil => contradiction
  | cons piece pieces ih =>
      rw [outlines] at houtlines
      split at houtlines
      · rename_i hsome
        cases piece with
        | element | emptyElement => simp [charsAll, chars]
        | comment | instruction | plain | escaped | cdata | reference =>
            rw [outline?] at hsome
            contradiction
      · rw [charsAll]
        simp [ih houtlines]

theorem readDocument_of_outline {bytes : ByteArray} {outline : Outline}
    (hchars : documentChars bytes = charsAll pieces) (houtlines : outlines pieces = [outline]) :
    readDocument bytes = (outline.read Scope.initial).map Document.mk := by
  have hne : documentChars bytes ≠ [] := hchars ▸ charsAll_ne_nil houtlines
  rw [readDocument_of_chars hne, hchars, readChars_eq, ← List.append_nil (charsAll pieces),
    readFrom_root houtlines]
  cases outline.read Scope.initial with
  | error fault => rfl
  | ok e => exact readFrom_nil _

end Outside

end Piece

/-- A document whose one element comes to `outline` is read as that: at every depth the
children stand in written order, and the text is everything that was written right inside
the element, if a character of it shows.  So every other way to spell the same outline is
read alike, however its texts are cut and whatever stands between them. -/
theorem readDocument_of_pieces {bytes : ByteArray} {pieces : List Piece} {outline : Outline}
    (hchars : documentChars bytes = Piece.charsAll pieces)
    (houtlines : Piece.outlines pieces = [outline]) :
    readDocument bytes = (outline.read Scope.initial).map Document.mk ∧
      ∀ (other : ByteArray) (others : List Piece),
        documentChars other = Piece.charsAll others → Piece.outlines others = [outline] →
          readDocument other = readDocument bytes := by
  have hread := Piece.readDocument_of_outline hchars houtlines
  refine ⟨hread, fun other others hother hothers => ?_⟩
  rw [hread]
  exact Piece.readDocument_of_outline hother hothers

/-- A tag of a name alone. -/
def Tag.ofName (name : List Char) (hname : IsPlain name) : Tag where
  content := name
  plain := by
    have hspaces : ∀ c ∈ name, (!isSpace c) = true := fun c hc => by
      simp [not_isSpace_of_not_mem (hname.2 c hc)]
    rw [tagName, List.takeWhile_eq_self_iff.mpr hspaces]
    exact hname
  balanced := IsBalanced.of_isPlain hname
  last := fun hlast => hname.2 '/' (List.mem_of_getLast? hlast) (by decide)

/-- The tag `a x="1>2"`. -/
def quotedTag : Tag where
  content := "a x=".toList ++ ('"' :: "1>2".toList ++ ['"'])
  plain := by decide
  balanced := (IsBalanced.of_unquoted (by decide)).append (IsBalanced.of_quoted (by decide))
  last := by decide

/-- An outline three elements deep, with text on both sides of each. -/
def nested : Outline :=
  ⟨quotedTag.content, [⟨['b'], [⟨['c'], [], []⟩], "<&]]".toList⟩], "one &two".toList⟩

theorem standsFor_ampersand : StandsFor "#x26".toList '&' := by
  have hdigits : List.Forall₂ (IsDigit 16) ['2', '6'] [2, 6] :=
    .cons (by decide) (.cons (by decide) .nil)
  exact .numbered (.hexadecimal _) ⟨by decide, _, hdigits, by decide⟩ (by decide)

/-- The outline spelled with a comment and an instruction inside its texts. -/
def cutUp : List Piece :=
  [.comment " top ".toList (by decide),
    .element quotedTag
      [.plain "one ".toList (by decide), .reference "#x26".toList '&'
          standsFor_ampersand,
        .element (.ofName ['b'] (by decide))
          [.cdata "<&".toList (by decide), .instruction "pi".toList (by decide),
            .emptyElement (.ofName ['c'] (by decide)), .plain "]]".toList (by decide)]
          [' '] (by decide),
        .plain "t".toList (by decide), .comment "-".toList (by decide),
        .plain "wo".toList (by decide)]
      [] (by decide)]

/-- The same outline with other cuts. -/
def runOn : List Piece :=
  [.element quotedTag
    [.escaped "one &",
      .element (.ofName ['b'] (by decide))
        [.escaped "<", .element (.ofName ['c'] (by decide)) [.comment [] (by decide)] [] (by decide),
          .reference "amp".toList '&' (.named (by decide)), .plain "]]".toList (by decide)]
        [] (by decide),
      .cdata "two".toList (by decide)]
    [] (by decide)]

theorem readDocument_of_pieces_cutUp :
    ∃ bytes other : ByteArray, documentChars bytes = Piece.charsAll cutUp ∧
      Piece.outlines cutUp = [nested] ∧ documentChars other = Piece.charsAll runOn ∧
      Piece.outlines runOn = [nested] ∧
      readDocument bytes = .ok ⟨⟨"a", none, [⟨"x", none, "1>2"⟩],
        [⟨"b", none, [], [⟨"c", none, [], [], none, []⟩], some "<&]]", []⟩],
        some "one &two", []⟩⟩ ∧
      readDocument other = readDocument bytes := by
  have hchars : documentChars ("<!-- top --><a x=\"1>2\">one &#x26;<b><![CDATA[<&]]><?pi?><c/>" ++
      "]]</b >t<!----->wo</a>").toUTF8 = Piece.charsAll cutUp := by decide +kernel
  have hothers : documentChars ("<a x=\"1>2\">one &amp;<b>&lt;<c><!----></c>&amp;]]</b>" ++
      "<![CDATA[two]]></a>").toUTF8 = Piece.charsAll runOn := by decide +kernel
  have hread : (nested.read Scope.initial).map Document.mk = .ok ⟨⟨"a", none,
      [⟨"x", none, "1>2"⟩], [⟨"b", none, [], [⟨"c", none, [], [], none, []⟩], some "<&]]", []⟩],
      some "one &two", []⟩⟩ := by decide +kernel
  have hcutUp : Piece.outlines cutUp = [nested] := rfl
  have hrunOn : Piece.outlines runOn = [nested] := rfl
  obtain ⟨hdocument, halike⟩ := readDocument_of_pieces hchars hcutUp
  exact ⟨_, _, hchars, hcutUp, hothers, hrunOn, hdocument.trans hread,
    halike _ _ hothers hrunOn⟩

end Epub.Xml
