/-
Documents whose start tags have their attributes in another order.  Every element of a tree is
one that a start tag opened; where none of these has lost an attribute, the documents are read
in step, and the trees differ in the order of their attributes alone.
-/
import Epub.Proofs.Xml.Attributes
import Epub.Proofs.Xml.Building

namespace Epub.Xml

/-- A start tag of a document and the element that it opened. -/
structure Opening where
  tag : List Char
  opened : OpenElement

/-- Whether the element has one attribute for each that is written in the tag. -/
def Opening.KeepsAttributes (opening : Opening) : Prop :=
  opening.opened.KeepsAttributes opening.tag

instance : DecidablePred Opening.KeepsAttributes := fun opening =>
  inferInstanceAs (Decidable (List.Forall₂ (RawAttribute.Sets opening.opened.scope) _ _))

namespace Element

/-- The element without what is inside it. -/
def bare (e : Element) : Element :=
  { e with children := [], text := none }

mutual

/-- The elements of a tree in the order of their start tags, without what is inside them. -/
def openings : Element → List Element
  | ⟨name, ns, attributes, children, _, declarations⟩ =>
      ⟨name, ns, attributes, [], none, declarations⟩ :: openingsAll children

/-- The elements of several trees. -/
def openingsAll : List Element → List Element
  | [] => []
  | e :: rest => e.openings ++ openingsAll rest

end

theorem openingsAll_eq_flatMap (es : List Element) : openingsAll es = es.flatMap openings := by
  induction es with
  | nil => rfl
  | cons e rest ih => rw [openingsAll, ih, List.flatMap_cons]

theorem openings_eq (e : Element) : e.openings = e.bare :: e.children.flatMap openings := by
  cases e
  rw [openings, openingsAll_eq_flatMap, bare]

end Element

/-- The elements opened for an open element: itself, and what has been closed inside it. -/
def OpenElement.openings (o : OpenElement) : List Element :=
  o.element.bare :: o.closed.reverse.flatMap Element.openings

theorem OpenElement.openings_close (o : OpenElement) : o.close.openings = o.openings := by
  rw [Element.openings_eq, OpenElement.openings]
  rfl

theorem openings_of_openElement {scope : Scope} {content : List Char} {o : OpenElement}
    (hopen : openElement scope content = .ok o) :
    o.openings = [o.element] ∧ o.element.openings = [o.element] := by
  obtain ⟨inner, ns, declarations, given, -, rfl⟩ := openElement_eq_ok.mp hopen
  exact ⟨rfl, by rw [Element.openings_eq]; rfl⟩

namespace ReadState

/-- What a token opens. -/
def opening? (state : ReadState) : Token → Option Opening
  | .startTag content _ => (openElement state.scope content).toOption.map (Opening.mk content)
  | _ => none

/-- What a run of tokens opens, up to the first one that is refused. -/
def openings (state : ReadState) : List Token → List Opening
  | [] => []
  | token :: rest =>
      (state.opening? token).toList ++
        match state.step token with
        | .error _ => []
        | .ok next => next.openings rest

/-- The elements opened so far, in order. -/
def opened (state : ReadState) : List Element :=
  state.root.toList.flatMap Element.openings ++
    state.stack.reverse.flatMap OpenElement.openings

variable {state next : ReadState} {token : Token} {tokens : List Token}

theorem opening?_eq_some {opening : Opening} (hopening : state.opening? token = some opening) :
    openElement state.scope opening.tag = .ok opening.opened := by
  cases token with
  | startTag content closed =>
      obtain ⟨o, ho, rfl⟩ := Option.map_eq_some_iff.mp hopening
      exact toOption_eq_some.mp ho
  | text | reference | cdata | comment | instruction | doctype | endTag => contradiction

/-- What was opened was opened inside the bindings around it. -/
theorem exists_openElement_of_openings {opening : Opening}
    (hopening : opening ∈ state.openings tokens) :
    ∃ scope, openElement scope opening.tag = .ok opening.opened := by
  induction tokens generalizing state with
  | nil => contradiction
  | cons token rest ih =>
      rw [openings] at hopening
      rcases List.mem_append.mp hopening with hfirst | hrest
      · exact ⟨state.scope, opening?_eq_some (Option.mem_toList.mp hfirst)⟩
      · split at hrest
        · contradiction
        · exact ih hrest

theorem opened_attach {e : Element} (hattach : state.attach e = .ok next) :
    next.opened = state.opened ++ e.openings := by
  obtain ⟨stack, root⟩ := state
  cases stack with
  | nil =>
      cases root with
      | none =>
          obtain rfl := Except.ok.inj hattach
          simp [opened]
      | some _ => contradiction
  | cons top rest =>
      obtain rfl := Except.ok.inj hattach
      simp [opened, OpenElement.openings]

theorem opened_addText (chars : List Char) : (state.addText chars).opened = state.opened := by
  obtain ⟨stack, root⟩ := state
  cases stack with
  | nil => rfl
  | cons top rest => simp [opened, addText, OpenElement.openings]

/-- A token adds what it opens. -/
theorem opened_step (hstep : state.step token = .ok next) :
    next.opened =
      state.opened ++ (state.opening? token).toList.map fun opening =>
        opening.opened.element := by
  cases token with
  | text chars | cdata chars =>
      obtain rfl := Except.ok.inj hstep
      simp [opening?, opened_addText]
  | comment | instruction | doctype =>
      obtain rfl := Except.ok.inj hstep
      simp [opening?]
  | reference name =>
      rw [step.eq_def] at hstep
      dsimp only at hstep
      split at hstep
      · obtain rfl := Except.ok.inj hstep
        simp [opening?]
      · split at hstep
        · obtain rfl := Except.ok.inj hstep
          simp [opening?, opened_addText]
        · contradiction
  | startTag content closed =>
      rw [step] at hstep
      obtain ⟨o, hopen, hnext⟩ := bind_eq_ok.mp hstep
      obtain ⟨hopened, helement⟩ := openings_of_openElement hopen
      have hopening : state.opening? (.startTag content closed) = some ⟨content, o⟩ := by
        rw [opening?, hopen]
        rfl
      rw [hopening]
      split at hnext
      · rw [opened_attach hnext, helement]
        rfl
      · obtain rfl := Except.ok.inj hnext
        simp [opened, hopened]
  | endTag name =>
      obtain ⟨stack, root⟩ := state
      cases stack with
      | nil => contradiction
      | cons top rest =>
          simp only [step] at hstep
          split at hstep
          · rw [opened_attach hstep, OpenElement.openings_close]
            simp [opened, opening?]
          · contradiction

/-- A run adds what it opens. -/
theorem opened_run (hrun : tokens.foldlM step state = .ok next) :
    next.opened =
      state.opened ++ (state.openings tokens).map fun opening => opening.opened.element := by
  induction tokens generalizing state with
  | nil =>
      obtain rfl := Except.ok.inj hrun
      simp [openings]
  | cons token rest ih =>
      rw [List.foldlM_cons] at hrun
      obtain ⟨middle, hstep, hrun⟩ := bind_eq_ok.mp hrun
      rw [ih hrun, opened_step hstep, openings, hstep, List.map_append, List.append_assoc]

/-- Every start tag of a run opens something. -/
theorem tags_run (hrun : tokens.foldlM step state = .ok next) :
    (state.openings tokens).map Opening.tag = tokens.filterMap Token.startTag? := by
  induction tokens generalizing state with
  | nil => rfl
  | cons token rest ih =>
      rw [List.foldlM_cons] at hrun
      obtain ⟨middle, hstep, hrun⟩ := bind_eq_ok.mp hrun
      have hfirst : (state.opening? token).toList.map Opening.tag =
          (Token.startTag? token).toList := by
        cases token with
        | startTag content closed =>
            rw [step] at hstep
            obtain ⟨o, hopen, -⟩ := bind_eq_ok.mp hstep
            rw [opening?, hopen]
            rfl
        | text | reference | cdata | comment | instruction | doctype | endTag => rfl
      rw [openings, hstep, List.map_append, hfirst]
      simp only [ih hrun]
      cases hstart : Token.startTag? token with
      | none => simp [hstart]
      | some content => simp [hstart]

end ReadState

/-- Whether a tree comes from another one by permuting the attributes of its elements. -/
inductive Element.Shuffled : Element → Element → Prop where
  | refl {e : Element} : Element.Shuffled e e
  | attributes {e : Element} {attributes : List Attribute}
      (hperm : e.attributes.Perm attributes) : Element.Shuffled e { e with attributes }
  | inside {e child child' : Element} {front back : List Element}
      (hchildren : e.children = front ++ child :: back)
      (hinner : Element.Shuffled child child') :
      Element.Shuffled e { e with children := front ++ child' :: back }
  | trans {e e' e'' : Element} (hfirst : Element.Shuffled e e')
      (hsecond : Element.Shuffled e' e'') : Element.Shuffled e e''

/-- All children may be shuffled at once. -/
theorem Element.Shuffled.children {children children' : List Element}
    (hall : List.Forall₂ Element.Shuffled children children') (e : Element)
    (front : List Element) :
    Element.Shuffled { e with children := front ++ children }
      { e with children := front ++ children' } := by
  induction hall generalizing front with
  | nil => exact .refl
  | @cons child child' rest rest' hchild _ ih =>
      have hfirst : Element.Shuffled { e with children := front ++ child :: rest }
          { e with children := front ++ child' :: rest } := .inside rfl hchild
      have hrest := ih (front ++ [child'])
      rw [List.append_assoc, List.append_assoc] at hrest
      exact hfirst.trans hrest

/-- Whether two open elements differ in the order of attributes alone, so far. -/
structure OpenElement.Shuffled (o o' : OpenElement) : Prop where
  rawName : o'.rawName = o.rawName
  attributes : o.element.attributes.Perm o'.element.attributes
  element : o'.element = { o.element with attributes := o'.element.attributes }
  closed : List.Forall₂ Element.Shuffled o.closed o'.closed
  text : o'.text = o.text
  scope : o'.scope = o.scope

theorem OpenElement.Shuffled.close {o o' : OpenElement} (hshuffled : o.Shuffled o') :
    o.close.Shuffled o'.close := by
  have hinside : Element.Shuffled o.close { o.close with children := o'.closed.reverse } :=
    Element.Shuffled.children (List.rel_reverse hshuffled.closed) o.close []
  have hclose : o'.close = { o.close with
      children := o'.closed.reverse
      attributes := o'.element.attributes } := by
    rw [OpenElement.close, hshuffled.element, hshuffled.text]
    rfl
  rw [hclose]
  exact hinside.trans (.attributes hshuffled.attributes)

/-- Whether of two tokens the second is the first with its ordinary attributes permuted. -/
inductive Token.Shuffled : Token → Token → Prop where
  | other {token : Token} (hother : token.startTag? = none) : Token.Shuffled token token
  | startTag {content content' : List Char} {closed : Bool}
      (htag : ShuffledTag content content') :
      Token.Shuffled (.startTag content closed) (.startTag content' closed)

namespace ReadState

/-- Whether two states of the reader differ in the order of attributes alone. -/
structure Shuffled (state state' : ReadState) : Prop where
  stack : List.Forall₂ OpenElement.Shuffled state.stack state'.stack
  root : List.Forall₂ Element.Shuffled state.root.toList state'.root.toList

namespace Shuffled

variable {state state' next : ReadState}

theorem scope (hshuffled : state.Shuffled state') : state'.scope = state.scope := by
  obtain ⟨stack, root⟩ := state
  obtain ⟨stack', root'⟩ := state'
  cases hshuffled.stack with
  | nil => rfl
  | cons htop _ => exact htop.scope

theorem attach (hshuffled : state.Shuffled state') {e e' : Element} (he : e.Shuffled e')
    (hattach : state.attach e = .ok next) :
    ∃ next', state'.attach e' = .ok next' ∧ next.Shuffled next' := by
  obtain ⟨stack, root⟩ := state
  obtain ⟨stack', root'⟩ := state'
  cases hshuffled.stack with
  | nil =>
      cases root with
      | some _ => contradiction
      | none =>
          cases root' with
          | some _ => cases hshuffled.root
          | none =>
              obtain rfl := Except.ok.inj hattach
              exact ⟨_, rfl, .nil, .cons he .nil⟩
  | cons htop hrest =>
      obtain rfl := Except.ok.inj hattach
      exact ⟨_, rfl, .cons { htop with closed := .cons he htop.closed } hrest, hshuffled.root⟩

theorem addText (hshuffled : state.Shuffled state') (chars : List Char) :
    (state.addText chars).Shuffled (state'.addText chars) := by
  obtain ⟨stack, root⟩ := state
  obtain ⟨stack', root'⟩ := state'
  cases hshuffled.stack with
  | nil => exact hshuffled
  | cons htop hrest =>
      exact ⟨.cons { htop with text := congrArg (· ++ chars) htop.text } hrest, hshuffled.root⟩

/-- What a start tag does, it does with its attributes in another order, if it loses none. -/
theorem step_startTag (hshuffled : state.Shuffled state') {content content' : List Char}
    {closed : Bool} (htag : ShuffledTag content content')
    (hkeeps : ∀ opening ∈ state.opening? (.startTag content closed), opening.KeepsAttributes)
    (hstep : state.step (.startTag content closed) = .ok next) :
    ∃ next', state'.step (.startTag content' closed) = .ok next' ∧ next.Shuffled next' := by
  rw [ReadState.step] at hstep
  obtain ⟨o, hopen, hnext⟩ := bind_eq_ok.mp hstep
  have hkept : o.KeepsAttributes content := by
    apply hkeeps ⟨content, o⟩
    rw [opening?, hopen]
    rfl
  obtain ⟨attributes, hperm, hopen'⟩ := htag.openElement hopen hkept
  rw [ReadState.step, hshuffled.scope, hopen', ok_bind]
  cases closed with
  | true => exact hshuffled.attach (.attributes hperm) hnext
  | false =>
      obtain rfl := Except.ok.inj hnext
      have hopened : o.Shuffled { o with element := { o.element with attributes } } := by
        obtain ⟨inner, ns, declarations, given, -, rfl⟩ := openElement_eq_ok.mp hopen
        exact ⟨rfl, hperm, rfl, .nil, rfl, rfl⟩
      exact ⟨_, rfl, .cons hopened hshuffled.stack, hshuffled.root⟩

/-- A token does the same to both states. -/
theorem step (hshuffled : state.Shuffled state') {token token' : Token}
    (htoken : token.Shuffled token')
    (hkeeps : ∀ opening ∈ state.opening? token, opening.KeepsAttributes)
    (hstep : state.step token = .ok next) :
    ∃ next', state'.step token' = .ok next' ∧ next.Shuffled next' := by
  cases htoken with
  | startTag htag => exact hshuffled.step_startTag htag hkeeps hstep
  | other hother =>
      cases token with
      | startTag content closed => contradiction
      | text chars | cdata chars =>
          obtain rfl := Except.ok.inj hstep
          exact ⟨_, rfl, hshuffled.addText chars⟩
      | comment | instruction | doctype =>
          obtain rfl := Except.ok.inj hstep
          exact ⟨_, rfl, hshuffled⟩
      | reference name =>
          obtain ⟨stack, root⟩ := state
          obtain ⟨stack', root'⟩ := state'
          rw [ReadState.step.eq_def] at hstep ⊢
          cases hshuffled.stack with
          | nil =>
              obtain rfl := Except.ok.inj hstep
              exact ⟨_, rfl, hshuffled⟩
          | cons htop hrest =>
              dsimp only at hstep ⊢
              cases hresolve : resolveText? name with
              | none =>
                  rw [hresolve] at hstep
                  contradiction
              | some c =>
                  rw [hresolve] at hstep
                  obtain rfl := Except.ok.inj hstep
                  exact ⟨_, rfl, hshuffled.addText [c]⟩
      | endTag name =>
          obtain ⟨stack, root⟩ := state
          obtain ⟨stack', root'⟩ := state'
          cases hshuffled.stack with
          | nil => contradiction
          | cons htop hrest =>
              simp only [ReadState.step] at hstep ⊢
              rw [htop.rawName]
              split at hstep
              · rename_i hname
                rw [if_pos hname]
                have hbelow : Shuffled ⟨_, root⟩ ⟨_, root'⟩ := ⟨hrest, hshuffled.root⟩
                exact hbelow.attach htop.close hstep
              · contradiction

/-- So does a run of tokens, if nothing that it opens has lost an attribute. -/
theorem run (hshuffled : state.Shuffled state') {tokens tokens' : List Token}
    (htokens : List.Forall₂ Token.Shuffled tokens tokens')
    (hkeeps : ∀ opening ∈ state.openings tokens, opening.KeepsAttributes)
    (hrun : tokens.foldlM ReadState.step state = .ok next) :
    ∃ next', tokens'.foldlM ReadState.step state' = .ok next' ∧ next.Shuffled next' := by
  induction htokens generalizing state state' with
  | nil =>
      obtain rfl := Except.ok.inj hrun
      exact ⟨state', rfl, hshuffled⟩
  | @cons token token' rest rest' htoken _ ih =>
      rw [List.foldlM_cons] at hrun
      obtain ⟨middle, hstep, hrun⟩ := bind_eq_ok.mp hrun
      rw [openings, hstep] at hkeeps
      obtain ⟨middle', hstep', hmiddle⟩ := hshuffled.step htoken
        (fun opening hopening => hkeeps opening
          (List.mem_append_left _ (Option.mem_toList.mpr hopening))) hstep
      obtain ⟨next', hrun', hnext⟩ := ih hmiddle
        (fun opening hopening => hkeeps opening (List.mem_append_right _ hopening)) hrun
      refine ⟨next', ?_, hnext⟩
      rw [List.foldlM_cons, hstep', ok_bind, hrun']

/-- A state in which every element is closed is like one of the same kind. -/
theorem closed {root : Element} (hshuffled : Shuffled ⟨[], some root⟩ state') :
    ∃ root', state' = ⟨[], some root'⟩ ∧ root.Shuffled root' := by
  obtain ⟨stack', root'⟩ := state'
  obtain rfl : stack' = [] := List.forall₂_nil_left_iff.mp hshuffled.stack
  cases root' with
  | none => cases hshuffled.root
  | some root' =>
      cases hshuffled.root with
      | cons hroot _ => exact ⟨root', rfl, hroot⟩

end Shuffled

end ReadState

/-- What the start tags of a document open, in order. -/
def openings (bytes : ByteArray) : List Opening :=
  ReadState.initial.openings (tokenize (documentChars bytes)).1

/-- Whether of two documents the second is the first with the ordinary attributes of its start
tags permuted. -/
structure ShuffledText (bytes bytes' : ByteArray) : Prop where
  tokens : List.Forall₂ Token.Shuffled (tokenize (documentChars bytes)).1
    (tokenize (documentChars bytes')).1
  fault : (tokenize (documentChars bytes')).2 = (tokenize (documentChars bytes)).2

section Documents

variable {bytes bytes' : ByteArray} {document : Document}

/-- The elements of a tree are those that the start tags opened. -/
theorem openings_of_readDocument (hread : readDocument bytes = .ok document) :
    (openings bytes).map Opening.tag = startTags bytes ∧
      document.root.openings = (openings bytes).map fun opening => opening.opened.element := by
  obtain ⟨-, hrun⟩ := readDocument_eq_ok.mp hread
  refine ⟨ReadState.tags_run hrun, ?_⟩
  simpa [ReadState.opened, ReadState.initial, openings] using ReadState.opened_run hrun

/-- A document that loses no attribute can be written with its attributes in any order. -/
theorem ShuffledText.readDocument (hshuffled : ShuffledText bytes bytes')
    (hread : Xml.readDocument bytes = .ok document)
    (hkeeps : ∀ opening ∈ openings bytes, opening.KeepsAttributes) :
    ∃ document', Xml.readDocument bytes' = .ok document' ∧
      document.root.Shuffled document'.root := by
  obtain ⟨hfault, hrun⟩ := readDocument_eq_ok.mp hread
  have hinitial : ReadState.Shuffled .initial .initial := ⟨.nil, .nil⟩
  obtain ⟨state', hrun', hstate⟩ := hinitial.run hshuffled.tokens hkeeps hrun
  obtain ⟨root', rfl, hroot⟩ := hstate.closed
  exact ⟨⟨root'⟩, readDocument_eq_ok.mpr ⟨hshuffled.fault.trans hfault, hrun'⟩, hroot⟩

end Documents

end Epub.Xml
