/-
What the reader builds.  Every element of a tree it returns was opened by a start
tag of the document, inside the bindings that the start tags around it had left.
-/
import Epub.Proofs.Xml.StartTag

namespace Epub.Xml

open Epub.Text

/-- The characters of a document, without its byte order marks. -/
def documentChars (bytes : ByteArray) : List Char :=
  match Utf8.decode (Utf8.dropByteOrderMark bytes) with
  | .error _ => []
  | .ok text =>
      match text.toList with
      | '\ufeff' :: cs => cs
      | cs => cs

/-- The inside of a start tag. -/
def Token.startTag? : Token → Option (List Char)
  | .startTag content _ => some content
  | _ => none

/-- The insides of the start tags of a document, in order. -/
def startTags (bytes : ByteArray) : List (List Char) :=
  (tokenize (documentChars bytes)).1.filterMap Token.startTag?

theorem readDocument_of_decode {bytes : ByteArray} {text : String}
    (hdecode : Utf8.decode (Utf8.dropByteOrderMark bytes) = .ok text) :
    readDocument bytes = readChars (documentChars bytes) := by
  rw [readDocument, documentChars, hdecode]
  change (match text.toList with
    | '\ufeff' :: cs => readChars cs
    | cs => readChars cs) = _
  dsimp only
  split <;> rfl

theorem readDocument_of_chars {bytes : ByteArray} (hchars : documentChars bytes ≠ []) :
    readDocument bytes = readChars (documentChars bytes) := by
  cases hdecode : Utf8.decode (Utf8.dropByteOrderMark bytes) with
  | ok text => exact readDocument_of_decode hdecode
  | error fault =>
      rw [documentChars, hdecode] at hchars
      exact absurd rfl hchars

theorem readDocument_eq_ok_iff_chars {bytes : ByteArray} {document : Document} :
    readDocument bytes = .ok document ↔ readChars (documentChars bytes) = .ok document := by
  cases hdecode : Utf8.decode (Utf8.dropByteOrderMark bytes) with
  | ok text => rw [readDocument_of_decode hdecode]
  | error fault =>
      have hrefused : readDocument bytes = .error (.encoding fault) := by
        rw [readDocument, hdecode]
        rfl
      have hempty : readChars (documentChars bytes) = .error (.malformed .noRoot) := by
        rw [documentChars, hdecode, readChars, tokenize]
        rfl
      rw [hrefused, hempty]
      exact ⟨fun heq => by contradiction, fun heq => by contradiction⟩

theorem ReadState.finish_eq_ok {state : ReadState} {document : Document} :
    state.finish = .ok document ↔ state = ⟨[], some document.root⟩ := by
  obtain ⟨stack, root⟩ := state
  cases stack with
  | cons _ _ => simp [finish]
  | nil =>
      cases root with
      | none => simp [finish]
      | some root =>
          constructor
          · intro hfinish
            rw [← Except.ok.inj hfinish]
          · intro hstate
            rw [hstate]
            rfl

/-- A document is read when all of it can be cut into tokens and these leave its root alone,
with every element closed. -/
theorem readDocument_eq_ok {bytes : ByteArray} {document : Document} :
    readDocument bytes = .ok document ↔ (tokenize (documentChars bytes)).2 = none ∧
      (tokenize (documentChars bytes)).1.foldlM ReadState.step .initial =
        .ok ⟨[], some document.root⟩ := by
  rw [readDocument_eq_ok_iff_chars, readChars]
  simp only [bind_eq_ok]
  constructor
  · rintro ⟨state, hrun, hfinish⟩
    split at hfinish
    · contradiction
    · rename_i hfault
      rw [ReadState.finish_eq_ok.mp hfinish] at hrun
      exact ⟨hfault, hrun⟩
  · rintro ⟨hfault, hrun⟩
    refine ⟨_, hrun, ?_⟩
    rw [hfault]
    rfl

/-- Whether a tree was put together from some start tags, with the first one
opened inside `scope`. -/
inductive Element.BuiltOf (tags : List (List Char)) : Scope → Element → Prop where
  | intro {scope : Scope} {content : List Char} {o : OpenElement} {children : List Element}
      {text : Option String} (htag : content ∈ tags)
      (hopen : openElement scope content = .ok o)
      (hbelow : ∀ child ∈ children, Element.BuiltOf tags o.scope child)
      (htext : ∀ shown, text = some shown → isBlankText shown = false) :
      Element.BuiltOf tags scope { o.element with children, text }

/-- The same for an element whose end tag is still to come. -/
structure OpenElement.BuiltOf (tags : List (List Char)) (scope : Scope) (o : OpenElement) :
    Prop where
  opened : ∃ content ∈ tags, ∃ start : OpenElement, openElement scope content = .ok start ∧
    start.element = o.element ∧ start.scope = o.scope
  closed : ∀ child ∈ o.closed, child.BuiltOf tags o.scope

theorem OpenElement.BuiltOf.close {tags : List (List Char)} {scope : Scope}
    {o : OpenElement} (hbuilt : o.BuiltOf tags scope) : o.close.BuiltOf tags scope := by
  obtain ⟨content, htag, start, hopen, helement, hscope⟩ := hbuilt.opened
  rw [OpenElement.close, ← helement]
  apply Element.BuiltOf.intro htag hopen
  · intro child hchild
    rw [hscope]
    exact hbuilt.closed child (List.mem_reverse.mp hchild)
  · intro shown hshown
    split at hshown
    · contradiction
    · rename_i hblank
      rw [← Option.some.inj hshown]
      simpa using hblank

namespace ReadState

/-- Whether every open element was opened inside the one below it on the stack. -/
inductive StackBuiltOf (tags : List (List Char)) : List OpenElement → Prop where
  | nil : StackBuiltOf tags []
  | cons {top : OpenElement} {rest : List OpenElement}
      (htop : top.BuiltOf tags (scope ⟨rest, none⟩)) (hrest : StackBuiltOf tags rest) :
      StackBuiltOf tags (top :: rest)

/-- The invariant of the reader: the stack and the root come from the tags. -/
structure IsBuiltOf (tags : List (List Char)) (state : ReadState) : Prop where
  stack : StackBuiltOf tags state.stack
  root : ∀ e, state.root = some e → e.BuiltOf tags Scope.initial

variable {tags : List (List Char)} {state next : ReadState}

theorem IsBuiltOf.attach (hstate : state.IsBuiltOf tags) {e : Element}
    (he : e.BuiltOf tags state.scope) (hattach : state.attach e = .ok next) :
    next.IsBuiltOf tags := by
  obtain ⟨stack, root⟩ := state
  cases stack with
  | nil =>
      cases root with
      | none =>
          cases hattach
          refine ⟨.nil, fun root hroot => ?_⟩
          rw [← Option.some.inj hroot]
          exact he
      | some _ => contradiction
  | cons top rest =>
      cases hattach
      have hstack := hstate.stack
      cases hstack with
      | cons htop hrest =>
          refine ⟨.cons ⟨htop.opened, fun child hchild => ?_⟩ hrest, hstate.root⟩
          rcases List.mem_cons.mp hchild with rfl | hclosed
          · exact he
          · exact htop.closed child hclosed

theorem IsBuiltOf.addText (hstate : state.IsBuiltOf tags) (chars : List Char) :
    (state.addText chars).IsBuiltOf tags := by
  obtain ⟨stack, root⟩ := state
  cases stack with
  | nil => exact hstate
  | cons top rest =>
      have hstack := hstate.stack
      cases hstack with
      | cons htop hrest => exact ⟨.cons ⟨htop.opened, htop.closed⟩ hrest, hstate.root⟩

theorem builtOf_of_openElement {scope : Scope} {content : List Char} {o : OpenElement}
    (htag : content ∈ tags) (hopen : openElement scope content = .ok o) :
    o.BuiltOf tags scope := by
  refine ⟨⟨content, htag, o, hopen, rfl, rfl⟩, ?_⟩
  rw [(fresh_of_openElement hopen).2.1]
  simp

/-- Every token keeps the invariant. -/
theorem IsBuiltOf.step (hstate : state.IsBuiltOf tags) {token : Token}
    (htag : ∀ content, token.startTag? = some content → content ∈ tags)
    (hstep : state.step token = .ok next) : next.IsBuiltOf tags := by
  cases token with
  | text chars | cdata chars =>
      cases hstep
      exact hstate.addText chars
  | comment | instruction | doctype =>
      cases hstep
      exact hstate
  | reference name =>
      rw [ReadState.step.eq_def] at hstep
      dsimp only at hstep
      split at hstep
      · cases hstep
        exact hstate
      · split at hstep
        · cases hstep
          exact hstate.addText _
        · contradiction
  | startTag content closed =>
      rw [ReadState.step] at hstep
      obtain ⟨o, hopen, hnext⟩ := bind_eq_ok.mp hstep
      split at hnext
      · have hbuilt : Element.BuiltOf tags state.scope
            { o.element with children := [], text := none } :=
          .intro (htag content rfl) hopen (by simp) (by simp)
        rw [← empty_of_openElement hopen] at hbuilt
        exact hstate.attach hbuilt hnext
      · cases hnext
        exact ⟨.cons (builtOf_of_openElement (htag content rfl) hopen) hstate.stack,
          hstate.root⟩
  | endTag name =>
      obtain ⟨stack, root⟩ := state
      cases stack with
      | nil => contradiction
      | cons top rest =>
          simp only [ReadState.step] at hstep
          split at hstep
          · have hstack := hstate.stack
            cases hstack with
            | cons htop hrest =>
                have hbelow : IsBuiltOf tags ⟨rest, root⟩ := ⟨hrest, hstate.root⟩
                exact hbelow.attach htop.close hstep
          · contradiction

/-- A run of tokens keeps the invariant. -/
theorem IsBuiltOf.run (hstate : state.IsBuiltOf tags) {tokens : List Token}
    (htags : ∀ content ∈ tokens.filterMap Token.startTag?, content ∈ tags)
    (hrun : tokens.foldlM ReadState.step state = .ok next) : next.IsBuiltOf tags := by
  induction tokens generalizing state with
  | nil =>
      cases hrun
      exact hstate
  | cons token rest ih =>
      rw [List.foldlM_cons] at hrun
      obtain ⟨middle, hstep, hrun⟩ := bind_eq_ok.mp hrun
      have hmiddle : middle.IsBuiltOf tags := by
        apply hstate.step _ hstep
        intro content hcontent
        exact htags content (List.mem_filterMap.mpr ⟨token, List.mem_cons_self, hcontent⟩)
      apply ih hmiddle _ hrun
      intro content hcontent
      obtain ⟨other, hother, hsome⟩ := List.mem_filterMap.mp hcontent
      exact htags content
        (List.mem_filterMap.mpr ⟨other, List.mem_cons_of_mem token hother, hsome⟩)

end ReadState

/-- The tree of a document that is read is put together from its start tags. -/
theorem builtOf_of_readDocument {bytes : ByteArray} {document : Document}
    (hread : readDocument bytes = .ok document) :
    document.root.BuiltOf (startTags bytes) Scope.initial := by
  obtain ⟨-, hrun⟩ := readDocument_eq_ok.mp hread
  have hinitial : ReadState.initial.IsBuiltOf (startTags bytes) :=
    ⟨.nil, fun _ hroot => by contradiction⟩
  exact (hinitial.run (fun _ hcontent => hcontent) hrun).root document.root rfl

end Epub.Xml
