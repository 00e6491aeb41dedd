/-
Opened elements.  A start tag that is accepted is taken attribute by attribute:
each one either declares a prefix, which the bindings and the element both take
in, or is set on the element under the name it resolves to.  What these two steps
preserve holds of the opened element.
-/
import Epub.Proofs.Except
import Epub.Proofs.Xml.Tree
import Epub.Xml.Reader
import Mathlib.Data.List.TakeWhile

namespace Epub.Xml

namespace RawName

theorem of_plain {cs : List Char} (hcs : ∀ c ∈ cs, c ≠ ':') : of cs = ⟨none, cs⟩ := by
  have htake : cs.takeWhile (· ≠ ':') = cs :=
    List.takeWhile_eq_self_iff.mpr (by simpa using hcs)
  simp only [of, htake, List.drop_length]

theorem of_qualified (label : List Char) (hlabel : ∀ c ∈ label, c ≠ ':')
    (rest : List Char) : of (label ++ ':' :: rest) = ⟨some label, rest⟩ := by
  have htake : (label ++ ':' :: rest).takeWhile (· ≠ ':') = label := by
    rw [List.takeWhile_append_of_pos (by simpa using hlabel)]
    simp
  simp only [of, htake, List.drop_left]

/-- A name with a prefix is that prefix, a colon and the rest. -/
theorem of_eq_qualified {name label : List Char} (hlabel : (of name).label = some label) :
    name = label ++ ':' :: (of name).localPart := by
  by_cases hcolon : ':' ∈ name
  · obtain ⟨front, rest, rfl, hfront⟩ := List.eq_append_cons_of_mem hcolon
    have hcut := of_qualified front (fun c hc heq => hfront (heq ▸ hc)) rest
    rw [hcut] at hlabel ⊢
    rw [← Option.some.inj hlabel]
  · rw [of_plain fun c hc heq => hcolon (heq ▸ hc)] at hlabel
    contradiction

/-- A name without a prefix is all local. -/
theorem localPart_of_label_none {name : List Char} (hlabel : (of name).label = none) :
    (of name).localPart = name := by
  by_cases hcolon : ':' ∈ name
  · obtain ⟨front, rest, rfl, hfront⟩ := List.eq_append_cons_of_mem hcolon
    rw [of_qualified front fun c hc heq => hfront (heq ▸ hc)] at hlabel
    contradiction
  · rw [of_plain fun c hc heq => hcolon (heq ▸ hc)]

end RawName

/-- A key that declares a prefix is cut into `xmlns` and that prefix. -/
theorem declaredLabel?_eq_none {key : List Char} (hname : key ≠ "xmlns".toList)
    (hlabel : (RawName.of key).label ≠ some "xmlns".toList) :
    declaredLabel? key = none := by
  rw [declaredLabel?, if_neg hname, if_neg]
  intro hstart
  obtain ⟨rest, rfl⟩ := List.isPrefixOf_iff_prefix.mp hstart
  apply hlabel
  have hcut := RawName.of_qualified "xmlns".toList (by decide) rest
  have hsame : "xmlns:".toList ++ rest = "xmlns".toList ++ ':' :: rest := rfl
  rw [hsame, hcut]

/-- The prefix of an ordinary attribute is not the one of declarations. -/
theorem label_ne_xmlns {key : List Char} (hnone : declaredLabel? key = none) :
    (RawName.of key).label ≠ some "xmlns".toList := by
  intro hlabel
  have hkey := RawName.of_eq_qualified hlabel
  rw [declaredLabel?] at hnone
  split at hnone
  · contradiction
  · split at hnone
    · contradiction
    · rename_i hstart
      apply hstart
      rw [List.isPrefixOf_iff_prefix, hkey]
      exact List.prefix_append "xmlns:".toList _

/-- Whether a value as written is whole and stands for `value`. -/
def RawAttribute.Means (raw : RawAttribute) (chars : List Char) (value : String) : Prop :=
  raw.value = .ok chars ∧ unescape chars = .ok value

/-- The declaration that an attribute makes. -/
def declarationOf (label : Option (List Char)) (uri : String) : NamespaceDecl :=
  ⟨String.ofList (label.getD []), uri⟩

/-- What the reader makes of one attribute under the bindings of its tag. -/
inductive Takes (scope : Scope) (e : Element) (raw : RawAttribute) : Element → Prop where
  | declaration {label : Option (List Char)} {chars : List Char} {value : String}
      (hlabel : declaredLabel? raw.key = some label) (hmeans : raw.Means chars value) :
      Takes scope e raw
        { e with declarations := e.declarations ++ [declarationOf label value] }
  | setting {chars : List Char} {value : String} {ns : Option String}
      (hlabel : declaredLabel? raw.key = none) (hmeans : raw.Means chars value)
      (hns : scope.resolveAttribute (RawName.of raw.key) = .ok ns) :
      Takes scope e raw
        (e.setAttribute ⟨String.ofList (RawName.of raw.key).localPart, ns⟩ value)

theorem addAttributes_cons_eq_ok {scope : Scope} {keyFault : Option AttributeFault}
    {e read : Element} {seen : List (List Char × Nat)} {raw : RawAttribute}
    {rest : List RawAttribute} :
    addAttributes scope keyFault e seen (raw :: rest) = .ok read ↔
      seen.lookup raw.key = none ∧ ∃ next, Takes scope e raw next ∧
        addAttributes scope keyFault next (seen ++ [(raw.key, raw.position)]) rest =
          .ok read := by
  rw [addAttributes]
  constructor
  · intro hadd
    cases hseen : seen.lookup raw.key with
    | some earlier =>
        rw [hseen] at hadd
        contradiction
    | none =>
        rw [hseen] at hadd
        obtain ⟨chars, hchars, hadd⟩ := bind_eq_ok.mp hadd
        obtain ⟨value, hvalue, hadd⟩ := bind_eq_ok.mp hadd
        rw [mapError_eq_ok] at hchars hvalue
        cases hlabel : declaredLabel? raw.key with
        | some label =>
            rw [hlabel] at hadd
            exact ⟨rfl, _, .declaration hlabel ⟨hchars, hvalue⟩, hadd⟩
        | none =>
            rw [hlabel] at hadd
            obtain ⟨ns, hns, hadd⟩ := bind_eq_ok.mp hadd
            exact ⟨rfl, _, .setting hlabel ⟨hchars, hvalue⟩ hns, hadd⟩
  · rintro ⟨hseen, next, htakes, hadd⟩
    cases htakes with
    | declaration hlabel hmeans =>
        rw [hseen, hmeans.1]
        simpa only [hlabel, hmeans.2, Except.mapError, ok_bind, declarationOf] using hadd
    | setting hlabel hmeans hns =>
        rw [hseen, hmeans.1]
        simpa only [hlabel, hmeans.2, hns, Except.mapError, ok_bind] using hadd

/-- Whether a property of the bindings together with the element survives every
attribute of a tag.  Names are resolved under `inner`, the bindings of the whole
tag. -/
structure IsInvariant (inner : Scope) (raws : List RawAttribute)
    (motive : Scope → Element → Prop) : Prop where
  declare : ∀ raw ∈ raws, ∀ (scope next : Scope) (e : Element) (label : Option (List Char))
    (chars : List Char) (value : String), declaredLabel? raw.key = some label →
    raw.Means chars value → scope.bind label (String.ofList chars) = .ok next →
    motive scope e →
    motive next { e with declarations := e.declarations ++ [declarationOf label value] }
  set : ∀ raw ∈ raws, ∀ (scope : Scope) (e : Element) (chars : List Char) (value : String)
    (ns : Option String), declaredLabel? raw.key = none → raw.Means chars value →
    inner.resolveAttribute (RawName.of raw.key) = .ok ns → motive scope e →
    motive scope (e.setAttribute ⟨String.ofList (RawName.of raw.key).localPart, ns⟩ value)

namespace IsInvariant

variable {motive : Scope → Element → Prop} {inner : Scope} {raws : List RawAttribute}

theorem tail {raw : RawAttribute} (hinvariant : IsInvariant inner (raw :: raws) motive) :
    IsInvariant inner raws motive :=
  ⟨fun other hother => hinvariant.declare other (List.mem_cons_of_mem raw hother),
    fun other hother => hinvariant.set other (List.mem_cons_of_mem raw hother)⟩

theorem of_addAttributes (hinvariant : IsInvariant inner raws motive)
    {keyFault : Option AttributeFault} {scope : Scope} {e read : Element}
    {seen : List (List Char × Nat)} (hbind : scope.bindAll raws = .ok inner)
    (hadd : addAttributes inner keyFault e seen raws = .ok read)
    (hstart : motive scope e) : motive inner read := by
  induction raws generalizing scope e seen with
  | nil =>
      cases hbind
      cases keyFault with
      | none =>
          rw [← Except.ok.inj hadd]
          exact hstart
      | some _ => contradiction
  | cons raw rest ih =>
      obtain ⟨_, next, htakes, hadd⟩ := addAttributes_cons_eq_ok.mp hadd
      cases htakes with
      | @declaration label chars value hlabel hmeans =>
          rw [Scope.bindAll, hmeans.1] at hbind
          simp only [hlabel] at hbind
          obtain ⟨bound, hbound, hbind⟩ := bind_eq_ok.mp hbind
          apply ih hinvariant.tail hbind hadd
          exact hinvariant.declare raw List.mem_cons_self scope bound e label chars value hlabel
            hmeans hbound hstart
      | @setting chars value ns hlabel hmeans hns =>
          rw [Scope.bindAll, hmeans.1] at hbind
          simp only [hlabel] at hbind
          apply ih hinvariant.tail hbind hadd
          exact hinvariant.set raw List.mem_cons_self scope e chars value ns hlabel hmeans hns
            hstart

/-- An opened element starts out empty under the name of its tag and takes in the
attributes of the tag one by one. -/
theorem of_openElement {scope : Scope} {content : List Char} {o : OpenElement}
    (hopen : openElement scope content = .ok o)
    (hinvariant : IsInvariant o.scope (rawAttributes content).1 motive)
    (hstart : ∀ ns, o.scope.resolveElement (RawName.of (tagName content)) = .ok ns →
      motive scope
        (Element.empty (String.ofList (RawName.of (tagName content)).localPart) ns)) :
    motive o.scope o.element := by
  simp only [openElement] at hopen
  obtain ⟨inner, hbind, hopen⟩ := bind_eq_ok.mp hopen
  obtain ⟨ns, hns, hopen⟩ := bind_eq_ok.mp hopen
  obtain ⟨e, hadd, hopen⟩ := bind_eq_ok.mp hopen
  rw [mapError_eq_ok] at hbind
  cases hopen
  exact hinvariant.of_addAttributes hbind hadd (hstart ns hns)

/-- What does not depend on attributes and declarations survives all attributes. -/
theorem of_frame {motive : Element → Prop}
    (hframe : ∀ (e : Element) attributes declarations, motive e →
      motive { e with attributes, declarations }) :
    IsInvariant inner raws fun _ e => motive e :=
  ⟨fun _ _ _ _ e _ _ _ _ _ _ => hframe e e.attributes _,
    fun _ _ _ e _ _ _ _ _ _ => hframe e _ e.declarations⟩

end IsInvariant

section Opened

variable {scope : Scope} {content : List Char} {o : OpenElement}

/-- The name of an opened element is that of its tag, resolved. -/
theorem name_of_openElement (hopen : openElement scope content = .ok o) :
    o.element.name = String.ofList (RawName.of (tagName content)).localPart ∧
      o.scope.resolveElement (RawName.of (tagName content)) = .ok o.element.ns :=
  IsInvariant.of_openElement
    (motive := fun _ e => e.name = String.ofList (RawName.of (tagName content)).localPart ∧
      o.scope.resolveElement (RawName.of (tagName content)) = .ok e.ns)
    hopen (.of_frame fun _ _ _ hname => hname) fun _ hns => ⟨rfl, hns⟩

/-- Nothing has been read inside an opened element. -/
theorem fresh_of_openElement (hopen : openElement scope content = .ok o) :
    o.rawName = tagName content ∧ o.closed = [] ∧ o.text = [] := by
  simp only [openElement] at hopen
  obtain ⟨_, _, hopen⟩ := bind_eq_ok.mp hopen
  obtain ⟨_, _, hopen⟩ := bind_eq_ok.mp hopen
  obtain ⟨_, _, hopen⟩ := bind_eq_ok.mp hopen
  cases hopen
  exact ⟨rfl, rfl, rfl⟩

/-- An opened element has nothing inside it yet. -/
theorem empty_of_openElement (hopen : openElement scope content = .ok o) :
    o.element = { o.element with children := [], text := none } :=
  IsInvariant.of_openElement
    (motive := fun _ e => e = { e with children := [], text := none }) hopen
    (.of_frame fun e attributes declarations hempty => by rw [hempty]) fun _ _ => rfl

/-- The attributes of an opened element are under different keys, and each was
written under a name that resolves to its key. -/
theorem attributes_of_openElement (hopen : openElement scope content = .ok o) :
    (o.element.attributes.map Attribute.key).Nodup ∧
      ∀ attr ∈ o.element.attributes, ∃ key : List Char, declaredLabel? key = none ∧
        attr.name = String.ofList (RawName.of key).localPart ∧
        o.scope.resolveAttribute (RawName.of key) = .ok attr.ns := by
  apply IsInvariant.of_openElement
    (motive := fun _ e => (e.attributes.map Attribute.key).Nodup ∧
      ∀ attr ∈ e.attributes, ∃ key : List Char, declaredLabel? key = none ∧
        attr.name = String.ofList (RawName.of key).localPart ∧
        o.scope.resolveAttribute (RawName.of key) = .ok attr.ns) hopen
  · constructor
    · exact fun _ _ _ _ _ _ _ _ _ _ _ hattributes => hattributes
    · rintro raw - - e chars value ns hlabel - hns ⟨hnodup, hattributes⟩
      refine ⟨Element.nodup_setIn _ value hnodup, fun attr hattr => ?_⟩
      rcases Element.mem_setIn hattr with hnew | hold
      · obtain ⟨hname, hkeyNs⟩ := QName.mk.inj hnew
        exact ⟨raw.key, hlabel, hname, hkeyNs ▸ hns⟩
      · exact hattributes attr hold
  · exact fun _ _ => ⟨List.nodup_nil, by simp [Element.empty]⟩

end Opened

end Epub.Xml
