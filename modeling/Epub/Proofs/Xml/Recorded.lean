/-
Recorded declarations.  The reader resolves names under the values of declarations
as they are written and records the values that these stand for.  Between the two
every name of a tree is accounted for: its namespace is what some declaration in
force says before its references are resolved.
-/
import Epub.Proofs.Xml.Building
import Epub.Proofs.Xml.Prefix
import Epub.Proofs.Xml.Scanning

namespace Epub.Xml

namespace Element

/-- Whether every element of a tree has a property inside the declarations recorded
around it.  Of several declarations of a prefix on one element the last one counts. -/
inductive EverywhereIn (P : Frames → Element → Prop) : Frames → Element → Prop where
  | intro {outer : Frames} {e : Element} (hhere : P outer e)
      (hbelow : ∀ child ∈ e.children, EverywhereIn P (e.declarations.reverse :: outer) child) :
      EverywhereIn P outer e

namespace EverywhereIn

variable {P Q : Frames → Element → Prop} {outer : Frames} {e child : Element}

theorem here (heverywhere : e.EverywhereIn P outer) : P outer e := by
  cases heverywhere with
  | intro hhere _ => exact hhere

theorem inside (heverywhere : e.EverywhereIn P outer) (hchild : child ∈ e.children) :
    child.EverywhereIn P (e.declarations.reverse :: outer) := by
  cases heverywhere with
  | intro _ hbelow => exact hbelow child hchild

/-- What holds of every element together with what holds inside its declarations. -/
theorem combine {R : Element → Prop} (hfirst : e.EverywhereIn P outer)
    (hsecond : e.Everywhere R) (himp : ∀ frames inner, P frames inner → R inner →
      Q frames inner) : e.EverywhereIn Q outer := by
  induction hfirst with
  | intro hhere _ ih =>
      exact ⟨himp _ _ hhere hsecond.here,
        fun child hchild => ih child hchild (hsecond.inside hchild)⟩

end EverywhereIn

/-- Whether the declarations recorded on an element and around it account for the
namespaces of its names, when `R` holds between a namespace and the URI of the
declaration it comes from. -/
structure IsDeclared (R : String → String → Prop) (outer : Frames) (e : Element) : Prop where
  ns : ∀ uri, e.ns = some uri → uri ≠ xmlNamespace → ∃ label declared,
    Frames.lookup? (e.declarations.reverse :: outer) label = some declared ∧ R uri declared
  attribute_ns : ∀ attr ∈ e.attributes, ∀ uri, attr.ns = some uri → uri ≠ xmlNamespace →
    ∃ label declared, label ≠ "" ∧
      Frames.lookup? (e.declarations.reverse :: outer) label = some declared ∧ R uri declared
  default : e.ns = none → ∀ declared,
    Frames.lookup? (e.declarations.reverse :: outer) "" = some declared → declared = ""

end Element

namespace Scope

variable {R : String → String → Prop} {scope next : Scope} {outer : Frames}

theorem lookup?_cons (d : NamespaceDecl) (scope : Scope) (label : String) :
    lookup? (d :: scope) label = if d.label = label then some d.uri else scope.lookup? label := by
  rw [lookup?, List.find?_cons]
  by_cases hlabel : d.label = label <;> simp [hlabel, lookup?]

theorem lookup?_frame_cons (d : NamespaceDecl) (frame : Frame) (outer : Frames) (label : String) :
    Frames.lookup? ((d :: frame) :: outer) label =
      if d.label = label then some d.uri else Frames.lookup? (frame :: outer) label := by
  rw [Frames.lookup?, List.flatten_cons, List.cons_append, List.find?_cons]
  by_cases hlabel : d.label = label <;> simp [hlabel, Frames.lookup?]

/-- A declaration is taken in unless it binds `xml` once more, and then the reserved
prefixes and their namespaces are left alone. -/
theorem bind_eq_ok {label : Option (List Char)} {uri : String}
    (hbind : scope.bind label uri = .ok next) :
    ((declarationOf label uri).label = "xml" ∧ uri = xmlNamespace ∧ next = scope) ∨
      ((declarationOf label uri).label ≠ "xml" ∧ (declarationOf label uri).label ≠ "xmlns" ∧
        ((declarationOf label uri).label = "" ∨ uri ≠ xmlNamespace ∧ uri ≠ xmlnsNamespace) ∧
        next = declarationOf label uri :: scope) := by
  cases label with
  | none =>
      cases hbind
      exact Or.inr ⟨by simp [declarationOf], by simp [declarationOf], Or.inl rfl, rfl⟩
  | some chars =>
      simp only [bind] at hbind
      split at hbind
      · rename_i hxml
        split at hbind
        · rename_i huri
          exact Or.inl ⟨hxml, huri, (Except.ok.inj hbind).symm⟩
        · contradiction
      · rename_i hxml
        split at hbind
        · contradiction
        · rename_i hxmlns
          split at hbind
          · contradiction
          · rename_i huri
            split at hbind
            · contradiction
            · rename_i hreserved
              exact Or.inr ⟨hxml, hxmlns, Or.inr ⟨huri, hreserved⟩, (Except.ok.inj hbind).symm⟩

/-- A prefix that resolves is bound to some characters. -/
theorem resolveLabel_eq_ok {label : List Char} {ns : Option String}
    (hresolve : scope.resolveLabel label = .ok ns) :
    ∃ uri, ns = some uri ∧ uri ≠ "" ∧ String.ofList label ≠ "" ∧
      scope.lookup? (String.ofList label) = some uri := by
  simp only [resolveLabel] at hresolve
  split at hresolve
  · contradiction
  · contradiction
  · rename_i uri hne hlookup
    cases hresolve
    split at hlookup
    · contradiction
    · rename_i hlabel
      refine ⟨uri, rfl, ?_, hlabel, hlookup⟩
      rintro rfl
      exact hne rfl

/-- Whether recorded declarations mirror the bindings of the reader, up to `R`.  The
prefix `xml` stands for its namespace whether it is declared or not. -/
structure IsMirrored (R : String → String → Prop) (scope : Scope) (frames : Frames) : Prop where
  rel : ∀ label, label ≠ "xml" → label ≠ "xmlns" →
    Option.Rel R (scope.lookup? label) (frames.lookup? label)
  xml : scope.lookup? "xml" = some xmlNamespace

theorem isMirrored_initial {frames : Frames} (hframes : ∀ d ∈ frames.flatten, d.label = "xml") :
    IsMirrored R initial frames := by
  refine ⟨fun label hxml hxmlns => ?_, rfl⟩
  have hscope : initial.lookup? label = none := by
    simp [lookup?, initial, Ne.symm hxml, Ne.symm hxmlns]
  have hnone : frames.lookup? label = none := by
    rw [Frames.lookup?, Option.map_eq_none_iff, List.find?_eq_none]
    intro d hd
    simp [hframes d hd, Ne.symm hxml]
  rw [hscope, hnone]
  exact .none

/-- One declaration keeps the mirror. -/
theorem IsMirrored.declare {frame : Frame} (hmirrored : scope.IsMirrored R (frame :: outer))
    {label : Option (List Char)} {uri value : String}
    (hbind : scope.bind label uri = .ok next) (hR : R uri value) :
    next.IsMirrored R ((declarationOf label value :: frame) :: outer) := by
  rcases bind_eq_ok hbind with ⟨hxml, rfl, rfl⟩ | ⟨hxml, hxmlns, -, rfl⟩
  · refine ⟨fun other hother hreserved => ?_, hmirrored.xml⟩
    have hne : (declarationOf label value).label ≠ other := fun heq => hother (heq ▸ hxml)
    rw [lookup?_frame_cons, if_neg hne]
    exact hmirrored.rel other hother hreserved
  · constructor
    · intro other hother hreserved
      rw [lookup?_cons, lookup?_frame_cons]
      by_cases heq : (declarationOf label uri).label = other
      · rw [if_pos heq, if_pos (show (declarationOf label value).label = other from heq)]
        exact .some hR
      · rw [if_neg heq, if_neg (show (declarationOf label value).label ≠ other from heq)]
        exact hmirrored.rel other hother hreserved
    · rw [lookup?_cons, if_neg hxml]
      exact hmirrored.xml

end Scope

/-- Whether the values of the declarations in a tag, as written and as recorded, are
related. -/
def RecordsValues (R : String → String → Prop) (content : List Char) : Prop :=
  ∀ raw ∈ (rawAttributes content).1, declaredLabel? raw.key ≠ none →
    ∀ chars value, raw.Means chars value → R (String.ofList chars) value

section Opened

variable {R : String → String → Prop} {scope : Scope} {outer : Frames} {content : List Char}
  {o : OpenElement}

theorem isMirrored_of_openElement (hmirrored : scope.IsMirrored R outer)
    (hvalues : RecordsValues R content) (hopen : openElement scope content = .ok o) :
    o.scope.IsMirrored R (o.element.declarations.reverse :: outer) := by
  apply IsInvariant.of_openElement
    (motive := fun scope e => scope.IsMirrored R (e.declarations.reverse :: outer)) hopen
  · constructor
    · intro raw hraw scope next e label chars value hlabel hmeans hbind hscope
      rw [List.reverse_append, List.reverse_singleton, List.singleton_append]
      apply hscope.declare hbind
      exact hvalues raw hraw (by simp [hlabel]) chars value hmeans
    · exact fun _ _ _ _ _ _ _ _ _ _ hscope => hscope
  · exact fun _ _ => ⟨hmirrored.rel, hmirrored.xml⟩

/-- A prefix other than the reserved ones resolves to what a recorded declaration
stands for. -/
theorem exists_declared_of_lookup (hmirrored : scope.IsMirrored R outer) {label uri : String}
    (hlookup : scope.lookup? label = some uri) (hxml : uri ≠ xmlNamespace)
    (hxmlns : label ≠ "xmlns") :
    ∃ declared, outer.lookup? label = some declared ∧ R uri declared := by
  have hlabel : label ≠ "xml" := by
    rintro rfl
    rw [hmirrored.xml] at hlookup
    exact hxml (Option.some.inj hlookup).symm
  have hrel := hmirrored.rel label hlabel hxmlns
  rw [hlookup] at hrel
  cases hdeclared : outer.lookup? label with
  | none =>
      rw [hdeclared] at hrel
      cases hrel
  | some declared =>
      rw [hdeclared] at hrel
      cases hrel with
      | some hR => exact ⟨declared, rfl, hR⟩

/-- What a name as written resolves to is recorded, unless it is the namespace of
`xml`. -/
theorem exists_declared_of_resolveLabel (hmirrored : scope.IsMirrored R outer)
    {label : List Char} {uri : String} (hresolve : scope.resolveLabel label = .ok (some uri))
    (hxml : uri ≠ xmlNamespace) (hxmlns : label ≠ "xmlns".toList) :
    ∃ label declared, label ≠ "" ∧ outer.lookup? label = some declared ∧ R uri declared := by
  obtain ⟨bound, huri, _, hlabel, hlookup⟩ := Scope.resolveLabel_eq_ok hresolve
  rw [← Option.some.inj huri] at hlookup
  have hname : String.ofList label ≠ "xmlns" := by
    intro heq
    rw [← heq, String.toList_ofList] at hxmlns
    exact hxmlns rfl
  obtain ⟨declared, hdeclared, hR⟩ := exists_declared_of_lookup hmirrored hlookup hxml hname
  exact ⟨String.ofList label, declared, hlabel, hdeclared, hR⟩

/-- The declarations on an opened element and around it account for its names. -/
theorem isDeclared_of_openElement (hempty : ∀ declared, R "" declared → declared = "")
    (hmirrored : scope.IsMirrored R outer) (hvalues : RecordsValues R content)
    (hlabel : (RawName.of (tagName content)).label ≠ some "xmlns".toList)
    (hopen : openElement scope content = .ok o) : o.element.IsDeclared R outer := by
  have hinner := isMirrored_of_openElement hmirrored hvalues hopen
  have hname := (name_of_openElement hopen).2
  have hattributes := (attributes_of_openElement hopen).2
  constructor
  · intro uri huri hxml
    rw [huri, Scope.resolveElement] at hname
    split at hname
    · have hdefault := Option.filter_eq_some_iff.mp (Except.ok.inj hname)
      exact ⟨"", exists_declared_of_lookup hinner hdefault.1 hxml (by decide)⟩
    · rename_i label hsome
      have hxmlns : label ≠ "xmlns".toList := fun heq => hlabel (hsome.trans (heq ▸ rfl))
      obtain ⟨label, declared, _, hdeclared⟩ :=
        exists_declared_of_resolveLabel hinner hname hxml hxmlns
      exact ⟨label, declared, hdeclared⟩
  · intro attr hattr uri huri hxml
    obtain ⟨key, hkey, _, hns⟩ := hattributes attr hattr
    rw [huri, Scope.resolveAttribute] at hns
    split at hns
    · cases hns
    · rename_i label hsome
      apply exists_declared_of_resolveLabel hinner hns hxml
      rintro rfl
      exact label_ne_xmlns hkey hsome
  · intro hnone declared hdeclared
    rw [hnone, Scope.resolveElement] at hname
    split at hname
    · -- without a prefix the default namespace counts, so it was taken back or never given
      have hdefault := Except.ok.inj hname
      have hrel := hinner.rel "" (by decide) (by decide)
      rw [hdeclared] at hrel
      cases hlookup : o.scope.lookup? "" with
      | none =>
          rw [hlookup] at hrel
          cases hrel
      | some uri =>
          rw [hlookup] at hrel hdefault
          have huri : uri = "" := by simpa using hdefault
          rw [huri] at hrel
          cases hrel with
          | some hR => exact hempty declared hR
    · obtain ⟨_, hsome, _⟩ := Scope.resolveLabel_eq_ok hname
      contradiction

end Opened

/-- In a tree put together from start tags every name is accounted for. -/
theorem Element.BuiltOf.everywhereIn_isDeclared {R : String → String → Prop}
    (hempty : ∀ declared, R "" declared → declared = "") {tags : List (List Char)}
    (hvalues : ∀ content ∈ tags, RecordsValues R content)
    (hlabels : ∀ content ∈ tags, (RawName.of (tagName content)).label ≠ some "xmlns".toList)
    {scope : Scope} {e : Element} (hbuilt : e.BuiltOf tags scope) {outer : Frames}
    (hmirrored : scope.IsMirrored R outer) : e.EverywhereIn (Element.IsDeclared R) outer := by
  induction hbuilt generalizing outer with
  | @intro scope content o children text htag hopen _ _ ih =>
      have hhere := isDeclared_of_openElement hempty hmirrored (hvalues content htag)
        (hlabels content htag) hopen
      have hinner := isMirrored_of_openElement hmirrored (hvalues content htag) hopen
      exact .intro ⟨hhere.ns, hhere.attribute_ns, hhere.default⟩
        fun child hchild => ih child hchild hinner

section References

/-- A reference stands for one character, and the value goes on behind it. -/
theorem unescapeFrom_reference_eq_ok {position : Nat} {rest resolved : List Char}
    (hresolve : unescapeFrom position ('&' :: rest) = .ok resolved) :
    ∃ c others next after, resolved = c :: others ∧ after.length < rest.length ∧
      unescapeFrom next after = .ok others := by
  rw [unescapeFrom, if_pos rfl] at hresolve
  dsimp only at hresolve
  split at hresolve
  · rename_i after hafter
    have hlength := congrArg List.length hafter
    rw [List.length_drop, List.length_cons] at hlength
    have hbehind : ∀ (first : Except ReferenceFault Char) (next : Nat),
        (first >>= fun c => unescapeFrom next after >>= fun others => pure (c :: others)) =
          .ok resolved →
        ∃ c others next after, resolved = c :: others ∧ after.length < rest.length ∧
          unescapeFrom next after = .ok others := by
      intro first next hboth
      obtain ⟨c, _, hboth⟩ := bind_eq_ok.mp hboth
      obtain ⟨others, hothers, hboth⟩ := bind_eq_ok.mp hboth
      exact ⟨c, others, next, after, (Except.ok.inj hboth).symm, by omega, hothers⟩
    split at hresolve
    · exact hbehind _ _ hresolve
    · split at hresolve
      · exact hbehind _ _ hresolve
      · exact hbehind _ _ hresolve
  · contradiction

/-- Resolving references makes a value shorter. -/
theorem length_of_unescapeFrom {position : Nat} {cs resolved : List Char}
    (hresolve : unescapeFrom position cs = .ok resolved) :
    resolved.length ≤ cs.length ∧ ('&' ∈ cs → resolved.length < cs.length) := by
  match cs with
  | [] =>
      rw [unescapeFrom] at hresolve
      cases hresolve
      simp
  | c :: rest =>
      by_cases hc : c = '&'
      · subst hc
        obtain ⟨c, others, next, after, rfl, hafter, hothers⟩ :=
          unescapeFrom_reference_eq_ok hresolve
        have hrest := (length_of_unescapeFrom hothers).1
        simp only [List.length_cons]
        omega
      · rw [unescapeFrom_cons position rest hc] at hresolve
        obtain ⟨others, hothers, rfl⟩ := map_eq_ok.mp hresolve
        obtain ⟨hle, hlt⟩ := length_of_unescapeFrom hothers
        refine ⟨Nat.succ_le_succ hle, fun hmem => Nat.succ_lt_succ (hlt ?_)⟩
        exact (List.mem_cons.mp hmem).resolve_left (Ne.symm hc)
termination_by cs.length
decreasing_by
  · simp only [List.length_cons]
    omega
  · simp

theorem unescapeFrom_of_plain (position : Nat) {cs : List Char} (hplain : '&' ∉ cs) :
    unescapeFrom position cs = .ok cs := by
  induction cs generalizing position with
  | nil => rw [unescapeFrom]
  | cons c rest ih =>
      rw [List.mem_cons, not_or] at hplain
      rw [unescapeFrom_cons position rest (Ne.symm hplain.1), ih _ hplain.2]
      rfl

/-- A value stands for itself exactly when there is no reference in it. -/
theorem unescape_eq_self_iff {uri declared : String}
    (hresolve : unescape uri.toList = .ok declared) :
    declared = uri ↔ '&' ∉ uri.toList := by
  obtain ⟨resolved, hfrom, rfl⟩ := map_eq_ok.mp hresolve
  constructor
  · rintro rfl hmem
    have hlt := (length_of_unescapeFrom hfrom).2 hmem
    rw [String.toList_ofList] at hlt
    exact Nat.lt_irrefl _ hlt
  · intro hplain
    rw [unescapeFrom_of_plain 0 hplain] at hfrom
    rw [← Except.ok.inj hfrom, String.ofList_toList]

end References

/-- In every document that is read, the namespace of a name is what a declaration in
force says as it is written.  What is recorded of that declaration has its references
resolved, so the two are the same text exactly when there are none. -/
theorem everywhereIn_isDeclared_of_readDocument {bytes : ByteArray} {document : Document}
    (hread : readDocument bytes = .ok document)
    (hlabels : ∀ content ∈ startTags bytes,
      (RawName.of (tagName content)).label ≠ some "xmlns".toList) :
    document.root.EverywhereIn (Element.IsDeclared fun uri declared =>
      unescape uri.toList = .ok declared ∧ (declared = uri ↔ '&' ∉ uri.toList)) [] := by
  apply Element.BuiltOf.everywhereIn_isDeclared _ _ hlabels (builtOf_of_readDocument hread)
  · exact Scope.isMirrored_initial (by simp)
  · rintro declared ⟨hresolve, hsame⟩
    exact hsame.mpr (by simp)
  · rintro content - raw - - chars value ⟨-, hvalue⟩
    have hresolve : unescape (String.ofList chars).toList = .ok value := by
      rw [String.toList_ofList]
      exact hvalue
    exact ⟨hresolve, unescape_eq_self_iff hresolve⟩

/-- A document whose declarations hold references, shadow each other and are taken
back. -/
def referring : ByteArray :=
  "<p:a xmlns:p='x&#34;y' xmlns='v'><b xmlns='' p:k='1'><p:c xmlns:p='w'/></b></p:a>".toUTF8

theorem everywhereIn_isDeclared_referring :
    ∃ document : Document, readDocument referring = .ok document ∧
      (∀ content ∈ startTags referring,
        (RawName.of (tagName content)).label ≠ some "xmlns".toList) ∧
      document.root.EverywhereIn (Element.IsDeclared fun uri declared =>
        unescape uri.toList = .ok declared ∧ (declared = uri ↔ '&' ∉ uri.toList)) [] := by
  obtain ⟨document, hread⟩ : ∃ document, readDocument referring = .ok document :=
    ⟨⟨⟨"a", some "x&#34;y", [],
      [⟨"b", none, [⟨"k", some "x&#34;y", "1"⟩],
        [⟨"c", some "w", [], [], none, [⟨"p", "w"⟩]⟩], none, [⟨"", ""⟩]⟩],
      none, [⟨"p", "x\"y"⟩, ⟨"", "v"⟩]⟩⟩, by decide +kernel⟩
  have hlabels : ∀ content ∈ startTags referring,
      (RawName.of (tagName content)).label ≠ some "xmlns".toList := by decide +kernel
  exact ⟨document, hread, hlabels, everywhereIn_isDeclared_of_readDocument hread hlabels⟩

/-- A namespace that is declared with a reference in it. -/
def ampersand : ByteArray :=
  "<e xmlns='a&amp;b'/>".toUTF8

/-- The namespace of a name need not be recorded: here the element is in the namespace
`a&amp;b`, and the only declaration is of `a&b`. -/
theorem not_everywhereIn_isDeclared_ampersand :
    ∃ document : Document, readDocument ampersand = .ok document ∧
      (∀ content ∈ startTags ampersand,
        (RawName.of (tagName content)).label ≠ some "xmlns".toList) ∧
      ¬document.root.EverywhereIn (Element.IsDeclared Eq) [] := by
  refine ⟨⟨⟨"e", some "a&amp;b", [], [], none, [⟨"", "a&b"⟩]⟩⟩, by decide +kernel,
    by decide +kernel, fun heverywhere => ?_⟩
  obtain ⟨label, declared, hlookup, rfl⟩ := heverywhere.here.ns "a&amp;b" rfl (by decide)
  obtain ⟨d, hd, _, huri⟩ := Frames.exists_of_lookup?_eq_some hlookup
  simp only [List.reverse_singleton, List.flatten_cons, List.flatten_nil, List.append_nil,
    List.mem_singleton] at hd
  subst hd
  exact absurd huri (by decide)

end Epub.Xml
