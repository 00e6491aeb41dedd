/-
Spelled names.  Under the declarations written on an element and around it, each
of its names as spelled stands for the name that the tree holds.
-/
import Epub.Proofs.Xml.Prefix
import Mathlib.Data.List.Forall2

namespace Epub.Xml

/-- Declarations that may stand together on one element. -/
structure Frame.IsProper (frame : Frame) : Prop where
  proper : ∀ d ∈ frame, d.IsProper
  nodup : (frame.map NamespaceDecl.label).Nodup

theorem Frame.nodup_declare {frame : Frame} (hnodup : (frame.map NamespaceDecl.label).Nodup)
    (label uri : String) :
    (List.map NamespaceDecl.label
      (frame.filter (·.label ≠ label) ++ [⟨label, uri⟩])).Nodup := by
  rw [List.map_append, List.nodup_append]
  refine ⟨hnodup.sublist (List.filter_sublist.map _), by simp, ?_⟩
  intro first hfirst second hsecond
  obtain ⟨d, hd, rfl⟩ := List.mem_map.mp hfirst
  have hsecond : second = label := by simpa using hsecond
  rw [hsecond]
  simpa using (List.mem_filter.mp hd).2

/-- One more declaration, in place of an earlier one of its prefix. -/
theorem Frame.IsProper.declare {frame : Frame} (hframe : frame.IsProper)
    {label uri : String} (hproper : NamespaceDecl.IsProper ⟨label, uri⟩) :
    Frame.IsProper (frame.filter (·.label ≠ label) ++ [⟨label, uri⟩]) := by
  refine ⟨fun d hd => ?_, Frame.nodup_declare hframe.nodup label uri⟩
  rcases List.mem_append.mp hd with hd | hd
  · exact hframe.proper d (List.mem_of_mem_filter hd)
  · rw [List.mem_singleton.mp hd]
    exact hproper

/-- Declarations that a tag can carry together. -/
structure Frame.IsBindable (frame : Frame) : Prop where
  bindable : ∀ d ∈ frame, d.IsBindable
  nodup : (frame.map NamespaceDecl.label).Nodup

theorem Frame.IsProper.isBindable {frame : Frame} (hframe : frame.IsProper) :
    frame.IsBindable :=
  ⟨fun d hd => (hframe.proper d hd).isBindable, hframe.nodup⟩

namespace Frames

variable {outer frames before after : Frames} {label uri written name : String}
  {ns : Option String} {key : QName}

/-- The declarations around an element with those on it. -/
def Extends (outer frames : Frames) : Prop :=
  ∃ inner : Frame, inner.IsProper ∧ frames = inner :: outer

theorem Extends.declare (hextends : outer.Extends frames)
    (hproper : NamespaceDecl.IsProper ⟨label, uri⟩) :
    outer.Extends (frames.declare label uri) := by
  obtain ⟨inner, hinner, rfl⟩ := hextends
  exact ⟨_, hinner.declare hproper, rfl⟩

theorem Extends.lookup?_declare (hextends : outer.Extends frames) (label uri : String)
    (other : String) :
    (frames.declare label uri).lookup? other =
      if other = label then some uri else frames.lookup? other := by
  obtain ⟨inner, _, rfl⟩ := hextends
  exact Frames.lookup?_declare inner outer label uri other

theorem IsSound.cons (hsound : outer.IsSound) {inner : Frame} (hinner : inner.IsBindable) :
    IsSound (inner :: outer) := by
  refine ⟨by simp, ?_, ?_⟩
  · have hnone : inner.find? (·.label = "xml") = none := by
      rw [List.find?_eq_none]
      intro d hd
      rcases (hinner.bindable d hd).label with hlabel | ⟨_, hlabel, _⟩
      · simp [hlabel]
      · simp [hlabel]
    rw [lookup?_cons, hnone]
    exact hsound.xml
  · intro d hd
    rw [List.flatten_cons, List.mem_append] at hd
    rcases hd with hd | hd
    · exact (hinner.bindable d hd).label.imp_right fun hlabel => ⟨hlabel.1, hlabel.2.2⟩
    · exact hsound.labels d hd

theorem Extends.isSound (hextends : outer.Extends frames) (hsound : outer.IsSound) :
    frames.IsSound := by
  obtain ⟨inner, hinner, rfl⟩ := hextends
  exact hsound.cons hinner.isBindable

/-- Whether prefixes keep the namespaces they stand for. -/
structure Keeps (before after : Frames) : Prop where
  bound : ∀ label uri, before.lookup? label = some uri → after.lookup? label = some uri
  default : after.lookup? "" = before.lookup? ""

theorem Keeps.refl (frames : Frames) : frames.Keeps frames :=
  ⟨fun _ _ hlookup => hlookup, rfl⟩

theorem Keeps.trans {last : Frames} (hfirst : before.Keeps after)
    (hsecond : after.Keeps last) : before.Keeps last :=
  ⟨fun label uri hlookup => hsecond.bound label uri (hfirst.bound label uri hlookup),
    hsecond.default.trans hfirst.default⟩

/-- A new prefix takes nothing away. -/
theorem Extends.keeps_declare (hextends : outer.Extends frames) (hlabel : label ≠ "")
    (hfree : frames.lookup? label = none) (uri : String) :
    frames.Keeps (frames.declare label uri) := by
  constructor
  · intro other bound hbound
    rw [hextends.lookup?_declare, if_neg]
    · exact hbound
    · rintro rfl
      rw [hfree] at hbound
      contradiction
  · rw [hextends.lookup?_declare, if_neg (Ne.symm hlabel)]

/-- Whether a name as written is `name` behind a prefix for `uri`. -/
def Qualifies (frames : Frames) (written name uri : String) : Prop :=
  ∃ label, IsLabel label ∧ frames.lookup? label = some uri ∧
    written = label ++ ":" ++ name

/-- Whether a name as written stands for this name of an element. -/
def NamesElement (frames : Frames) (written name : String) (ns : Option String) : Prop :=
  (written = name ∧ (frames.lookup? "").filter (· ≠ "") = ns) ∨
    ∃ uri, ns = some uri ∧ frames.Qualifies written name uri

/-- Whether a name as written stands for this name of an attribute. -/
def NamesAttribute (frames : Frames) (written : String) (key : QName) : Prop :=
  (written = key.name ∧ key.ns = none) ∨
    ∃ uri, key.ns = some uri ∧ frames.Qualifies written key.name uri

theorem Qualifies.keep (hqualifies : before.Qualifies written name uri)
    (hkeeps : before.Keeps after) : after.Qualifies written name uri := by
  obtain ⟨label, hlabel, hlookup, rfl⟩ := hqualifies
  exact ⟨label, hlabel, hkeeps.bound label uri hlookup, rfl⟩

theorem NamesElement.keep (hnames : before.NamesElement written name ns)
    (hkeeps : before.Keeps after) : after.NamesElement written name ns := by
  rcases hnames with ⟨rfl, hdefault⟩ | ⟨uri, huri, hqualifies⟩
  · exact Or.inl ⟨rfl, hkeeps.default ▸ hdefault⟩
  · exact Or.inr ⟨uri, huri, hqualifies.keep hkeeps⟩

theorem NamesAttribute.keep (hnames : before.NamesAttribute written key)
    (hkeeps : before.Keeps after) : after.NamesAttribute written key := by
  rcases hnames with hplain | ⟨uri, huri, hqualifies⟩
  · exact Or.inl hplain
  · exact Or.inr ⟨uri, huri, hqualifies.keep hkeeps⟩

theorem isProper_of_isLabel (hlabel : IsLabel label) (hxml : label ≠ "xml")
    (huri : IsNamespace uri) (hxmlns : uri ≠ xmlNamespace) :
    NamespaceDecl.IsProper ⟨label, uri⟩ :=
  ⟨Or.inr ⟨hlabel.1, hxml, hlabel.2⟩, Or.inr ⟨huri, hxmlns⟩⟩

theorem isLabel_numbered (n : Nat) : IsLabel (numbered n) :=
  ⟨isNCName_numbered n, numbered_ne n (by decide)⟩

theorem isLabel_of_usualLabel? (husual : usualLabel? uri = some label) :
    IsLabel label ∧ label ≠ "xml" := by
  simp only [usualLabel?] at husual
  split at husual
  · cases husual
    exact ⟨⟨by decide, by decide⟩, by decide⟩
  · split at husual
    · cases husual
      exact ⟨⟨by decide, by decide⟩, by decide⟩
    · contradiction

/-- A new prefix may be declared, and is not in use yet. -/
theorem exists_invent (choice : Choice) (uri : String) :
    ∃ label next, choice.invent uri = (label, ⟨choice.frames.declare label uri, next⟩) ∧
      IsLabel label ∧ label ≠ "xml" ∧ choice.frames.lookup? label = none := by
  simp only [Choice.invent]
  split
  · rename_i label husual
    rw [Option.filter_eq_some_iff, Option.isNone_iff_eq_none] at husual
    obtain ⟨husual, hfree⟩ := husual
    obtain ⟨hlabel, hxml⟩ := isLabel_of_usualLabel? husual
    exact ⟨label, choice.next, rfl, hlabel, hxml, hfree⟩
  · exact ⟨_, _, rfl, isLabel_numbered _, numbered_ne _ (by decide),
      lookup?_freeNumber choice.frames choice.next⟩

/-- A prefix for an attribute stands for its namespace once it is chosen. -/
theorem exists_attributeLabel {choice : Choice} (hsound : outer.IsSound)
    (hextends : outer.Extends choice.frames) (huri : IsNamespace uri)
    (hxml : uri ≠ xmlNamespace) :
    ∃ label after next, choice.attributeLabel uri = (label, ⟨after, next⟩) ∧
      outer.Extends after ∧ choice.frames.Keeps after ∧ IsLabel label ∧
      after.lookup? label = some uri := by
  simp only [Choice.attributeLabel]
  split
  · rename_i label hbound
    obtain ⟨hne, hlookup⟩ := boundLabel?_eq_some hbound
    exact ⟨label, choice.frames, choice.next, rfl, hextends, Keeps.refl _,
      (hextends.isSound hsound).isLabel hne hlookup, hlookup⟩
  · obtain ⟨label, next, hinvent, hlabel, hne, hfree⟩ := exists_invent choice uri
    refine ⟨label, _, next, hinvent, ?_, ?_, hlabel, ?_⟩
    · exact hextends.declare (isProper_of_isLabel hlabel hne huri hxml)
    · exact hextends.keeps_declare hlabel.ne_empty hfree uri
    · rw [hextends.lookup?_declare, if_pos rfl]

end Frames

open Frames

/-- Whether an attribute as spelled stands for one of the tree. -/
def Spells (frames : Frames) (spelling : Spelling) (attr : Attribute) : Prop :=
  frames.NamesAttribute spelling.1 attr.key ∧ spelling.2 = attr.value

theorem exists_spellAttribute {outer : Frames} {choice : Choice} {attr : Attribute}
    (hsound : outer.IsSound) (hextends : outer.Extends choice.frames)
    (hns : ∀ uri, attr.ns = some uri → IsNamespace uri) :
    ∃ spelling after next, spellAttribute choice attr = (spelling, ⟨after, next⟩) ∧
      outer.Extends after ∧ choice.frames.Keeps after ∧ Spells after spelling attr := by
  obtain ⟨name, ns, value⟩ := attr
  cases ns with
  | none =>
      exact ⟨_, choice.frames, choice.next, rfl, hextends, Keeps.refl _,
        Or.inl ⟨rfl, rfl⟩, rfl⟩
  | some uri =>
      by_cases hxml : uri = xmlNamespace
      · refine ⟨("xml:" ++ name, value), choice.frames, choice.next, ?_, hextends,
          Keeps.refl _, Or.inr ⟨uri, rfl, "xml", ⟨by decide, by decide⟩, ?_, ?_⟩, rfl⟩
        · simp [spellAttribute, hxml]
        · rw [hxml]
          exact (hextends.isSound hsound).xml
        · rfl
      · obtain ⟨label, after, next, hchosen, hafter, hkeeps, hlabel, hlookup⟩ :=
          exists_attributeLabel hsound hextends (hns uri rfl) hxml
        refine ⟨(label ++ ":" ++ name, value), after, next, ?_, hafter, hkeeps,
          Or.inr ⟨uri, rfl, label, hlabel, hlookup, rfl⟩, rfl⟩
        simp [spellAttribute, hxml, hchosen]

/-- Later prefixes leave the names spelled before as they are. -/
theorem exists_spellAttributes {outer : Frames} {attributes : List Attribute}
    (hsound : outer.IsSound)
    (hns : ∀ attr ∈ attributes, ∀ uri, attr.ns = some uri → IsNamespace uri)
    (choice : Choice) (hextends : outer.Extends choice.frames) :
    ∃ spelled after next,
      spellAttributes choice attributes = (spelled, ⟨after, next⟩) ∧
      outer.Extends after ∧ choice.frames.Keeps after ∧
      List.Forall₂ (Spells after) spelled attributes := by
  induction attributes generalizing choice with
  | nil => exact ⟨[], choice.frames, choice.next, rfl, hextends, Keeps.refl _, .nil⟩
  | cons attr rest ih =>
      obtain ⟨spelling, middle, next, hfirst, hmiddle, hkeeps, hspells⟩ :=
        exists_spellAttribute hsound hextends (hns attr List.mem_cons_self)
      obtain ⟨others, after, last, hrest, hafter, hkeeps', hothers⟩ :=
        ih (fun other hother => hns other (List.mem_cons_of_mem attr hother))
          ⟨middle, next⟩ hmiddle
      refine ⟨spelling :: others, after, last, ?_, hafter, hkeeps.trans hkeeps',
        .cons ⟨hspells.1.keep hkeeps', hspells.2⟩ hothers⟩
      simp [spellAttributes, hfirst, hrest]

theorem exists_spellName {outer frames : Frames} (name : String) {ns : Option String}
    (hsound : outer.IsSound) (hextends : outer.Extends frames)
    (hns : ∀ uri, ns = some uri → IsNamespace uri) :
    ∃ written after, spellName frames name ns = (written, after) ∧
      outer.Extends after ∧ after.NamesElement written name ns := by
  cases ns with
  | none =>
      by_cases hdefault : (frames.lookup? "").any (· ≠ "")
      · refine ⟨name, frames.declare "" "", ?_, ?_, Or.inl ⟨rfl, ?_⟩⟩
        · simp only [spellName, if_pos hdefault]
        · exact hextends.declare ⟨Or.inl rfl, Or.inl ⟨rfl, rfl⟩⟩
        · rw [hextends.lookup?_declare, if_pos rfl]
          rfl
      · refine ⟨name, frames, ?_, hextends, Or.inl ⟨rfl, ?_⟩⟩
        · simp only [spellName, if_neg hdefault]
        · cases hlookup : frames.lookup? "" with
          | none => rfl
          | some uri =>
              rw [hlookup] at hdefault
              simpa using hdefault
  | some uri =>
      have huri := hns uri rfl
      simp only [spellName, elementLabel?]
      by_cases hdefault : frames.lookup? "" = some uri
      · refine ⟨name, frames, by simp [hdefault], hextends, Or.inl ⟨rfl, ?_⟩⟩
        simp [hdefault, huri.nonempty]
      · rw [if_neg hdefault]
        cases hbound : frames.boundLabel? uri with
        | some label =>
            obtain ⟨hne, hlookup⟩ := boundLabel?_eq_some hbound
            refine ⟨label ++ ":" ++ name, frames, ?_, hextends, Or.inr ⟨uri, rfl, label,
              (hextends.isSound hsound).isLabel hne hlookup, hlookup, rfl⟩⟩
            split
            · rename_i hempty
              cases hempty
              exact absurd rfl hne
            · rename_i other hother
              cases hother
              rfl
            · contradiction
        | none =>
            -- The prefix `xml` is always there, so this is not its namespace.
            have hxml : uri ≠ xmlNamespace := by
              rintro rfl
              exact boundLabel?_ne_none (by decide) (hextends.isSound hsound).xml hbound
            refine ⟨name, frames.declare "" uri, rfl, ?_, Or.inl ⟨rfl, ?_⟩⟩
            · exact hextends.declare ⟨Or.inl rfl, Or.inr ⟨huri, hxml⟩⟩
            · rw [hextends.lookup?_declare, if_pos rfl]
              simp [huri.nonempty]

theorem spell_frames (choice : Choice) (e : Element) :
    (spell choice e).2.frames = choice.frames := by
  obtain ⟨name, ns, attributes, children, text, declarations⟩ := e
  rw [spell]

@[simp] theorem isEmpty_spellAll (choice : Choice) (es : List Element) :
    (spellAll choice es).1.isEmpty = es.isEmpty := by
  cases es <;> simp [spellAll]

theorem Element.IsProper.own_isProper {e : Element} (hproper : e.IsProper)
    (keep : NamespaceDecl → Bool) : Frame.IsProper (e.declarations.filter keep) :=
  ⟨fun d hd => hproper.declarations d (List.mem_of_mem_filter hd),
    hproper.labels_nodup.sublist (List.filter_sublist.map _)⟩

/-- An element is spelled by declarations that may stand on it, under which all
its names are right, and its children are spelled inside these declarations. -/
theorem exists_spell {choice : Choice} {e : Element} (hsound : choice.frames.IsSound)
    (hproper : e.IsProper) :
    ∃ written frame spelled inner, Frame.IsProper frame ∧
      Choice.frames inner = frame :: choice.frames ∧
      inner.frames.NamesElement written e.name e.ns ∧
      List.Forall₂ (Spells inner.frames) spelled e.attributes ∧
      (spell choice e).1 = ⟨written, frame.map spellDeclaration ++ spelled,
        (spellAll inner e.children).1, e.text.getD ""⟩ := by
  obtain ⟨name, ns, attributes, children, text, declarations⟩ := e
  have hown : choice.frames.Extends
      (declarations.filter
        (fun d => choice.frames.lookup? d.label ≠ some d.uri) :: choice.frames) :=
    ⟨_, hproper.own_isProper _, rfl⟩
  obtain ⟨written, middle, hname, hmiddle, hnames⟩ :=
    exists_spellName name hsound hown hproper.ns
  obtain ⟨spelled, after, next, hattributes, ⟨frame, hframe, rfl⟩, hkeeps, hspells⟩ :=
    exists_spellAttributes hsound hproper.attribute_ns ⟨middle, choice.next⟩
      hmiddle
  refine ⟨written, frame, spelled, ⟨frame :: choice.frames, next⟩, hframe, rfl,
    hnames.keep hkeeps, hspells, ?_⟩
  simp only [spell, hname, hattributes, List.headD_cons]

end Epub.Xml
