/-
Resolving names: a reader that has bound the declarations of the spelled tags
around a name takes it for the name that was spelled.
-/
import Epub.Proofs.Lists
import Epub.Proofs.Xml.Spelling
import Epub.Proofs.Xml.StartTag
import Epub.Proofs.Xml.TagText

namespace Epub.Xml

open Frames

theorem toList_qualified (label name : String) :
    (label ++ ":" ++ name).toList = label.toList ++ ':' :: name.toList := by
  rw [String.toList_append, String.toList_append, List.append_assoc]
  rfl

theorem isPlain_qualified {label name : String} (hlabel : isNCName label = true)
    (hname : isNCName name = true) : IsPlain (label ++ ":" ++ name).toList := by
  have hcolon : IsPlain [':'] := ⟨by decide, by decide⟩
  rw [toList_qualified]
  exact (isPlain_of_isNCName hlabel).append (hcolon.append (isPlain_of_isNCName hname))

theorem declaredLabel?_spellDeclaration (d : NamespaceDecl) :
    declaredLabel? (spellDeclaration d).1.toList =
      some (if d.label = "" then none else some d.label.toList) := by
  by_cases hlabel : d.label = ""
  · simp only [spellDeclaration, hlabel, ↓reduceIte]
    rfl
  · have hstart : "xmlns:".toList.isPrefixOf ("xmlns:" ++ d.label).toList = true := by
      rw [List.isPrefixOf_iff_prefix, String.toList_append]
      exact List.prefix_append _ _
    have hname : ("xmlns:" ++ d.label).toList ≠ "xmlns".toList := by
      intro heq
      have hlength := congrArg List.length heq
      rw [String.toList_append, List.length_append] at hlength
      have : "xmlns:".toList.length = "xmlns".toList.length + 1 := rfl
      omega
    simp only [spellDeclaration, hlabel, ↓reduceIte, declaredLabel?, hname, hstart]
    rw [String.toList_append]
    rfl

theorem escape_of_clean {s : String} (hclean : ∀ c ∈ s.toList, c ∉ escapedChars) :
    (escape s).toList = s.toList := by
  rw [toList_escape]
  generalize s.toList = cs at hclean
  induction cs with
  | nil => rfl
  | cons c rest ih =>
      rw [List.flatMap_cons, escapeChar_of_not_mem (hclean c List.mem_cons_self),
        ih fun d hd => hclean d (List.mem_cons_of_mem c hd)]
      rfl

/-- On one element the order of the declarations does not matter. -/
theorem Frame.find?_reverse {frame : Frame}
    (hnodup : (frame.map NamespaceDecl.label).Nodup) (label : String) :
    frame.reverse.find? (·.label = label) = frame.find? (·.label = label) := by
  cases hfound : frame.find? (·.label = label) with
  | none =>
      simp only [List.find?_eq_none, List.mem_reverse] at hfound ⊢
      exact hfound
  | some d =>
      have hd : d.label = label := by simpa using List.find?_some hfound
      have hnodup' : (frame.reverse.map NamespaceDecl.label).Nodup := by
        rw [List.map_reverse]
        exact List.nodup_reverse.mpr hnodup
      have hmem := List.mem_reverse.mpr (List.mem_of_find?_eq_some hfound)
      rw [← hd]
      exact find?_of_nodup_map hnodup' hmem

namespace Scope

variable {scope : Scope} {frames : Frames} {written name : String} {ns : Option String}

/-- Whether a reader's bindings and a writer's declarations say the same.  The
prefix `xmlns`, which the reader knows, is never declared. -/
def Agrees (scope : Scope) (frames : Frames) : Prop :=
  ∀ label, label ≠ "xmlns" → scope.lookup? label = frames.lookup? label

theorem agrees_initial : initial.Agrees Frames.initial := by
  intro label hlabel
  have hnot : ("xmlns" : String) ≠ label := Ne.symm hlabel
  by_cases hxml : "xml" = label
  · subst hxml
    rfl
  · simp [lookup?, initial, Frames.lookup?, Frames.initial, hnot, hxml]

theorem bind_of_isBindable (scope : Scope) {d : NamespaceDecl} (hd : d.IsBindable) :
    scope.bind (if d.label = "" then none else some d.label.toList) d.uri =
      .ok (d :: scope) := by
  obtain ⟨label, uri⟩ := d
  by_cases hempty : label = ""
  · subst hempty
    rfl
  · obtain ⟨_, hxml, hxmlns⟩ := hd.label.resolve_left hempty
    obtain ⟨huri, hreserved⟩ := hd.free.resolve_left hempty
    simp [hempty, bind, hxml, hxmlns, huri, hreserved]

/-- The declarations in front of a tag's attributes are bound, the last one
innermost. -/
theorem bindAll_of_spells {frame : Frame} (hframe : ∀ d ∈ frame, d.IsBindable)
    {spelled : List Spelling} (hspelled : ∀ s ∈ spelled, declaredLabel? s.1.toList = none)
    {raws : List RawAttribute}
    (hraws : List.Forall₂ RawAttribute.Spells raws (frame.map spellDeclaration ++ spelled))
    (scope : Scope) : scope.bindAll raws = .ok (frame.reverse ++ scope) := by
  induction frame generalizing raws scope with
  | nil =>
      simp only [List.map_nil, List.nil_append] at hraws
      induction hraws with
      | nil => rfl
      | @cons raw s _ _ hraw _ ih =>
          rw [bindAll, hraw.2, hraw.1]
          simp only [hspelled s List.mem_cons_self]
          exact ih fun other hother => hspelled other (List.mem_cons_of_mem s hother)
  | cons d rest ih =>
      simp only [List.map_cons, List.cons_append] at hraws
      obtain ⟨raw, others, hraw, hothers, rfl⟩ := List.forall₂_cons_right_iff.mp hraws
      have hd := hframe d List.mem_cons_self
      have hvalue : String.ofList (escape (spellDeclaration d).2).toList = d.uri := by
        have huri : (spellDeclaration d).2 = d.uri := by
          rw [spellDeclaration]
          split <;> rfl
        rw [huri, escape_of_clean hd.clean, String.ofList_toList]
      have hrest := ih (fun other hother => hframe other (List.mem_cons_of_mem d hother))
        hothers (d :: scope)
      rw [bindAll, hraw.2, hraw.1]
      simp only [declaredLabel?_spellDeclaration, hvalue, bind_of_isBindable scope hd]
      rw [List.reverse_cons, List.append_assoc]
      exact hrest

theorem Agrees.append {frame : Frame} (hagrees : scope.Agrees frames)
    (hnodup : (frame.map NamespaceDecl.label).Nodup) :
    Agrees (frame.reverse ++ scope) (frame :: frames) := by
  intro label hlabel
  rw [lookup?, List.find?_append, Frame.find?_reverse hnodup, Frames.lookup?_cons,
    ← hagrees label hlabel, lookup?]
  cases frame.find? (·.label = label) <;> rfl

theorem resolveLabel_of_lookup (hagrees : scope.Agrees frames) {label uri : String}
    (hlabel : IsLabel label) (hlookup : frames.lookup? label = some uri) (huri : uri ≠ "") :
    scope.resolveLabel label.toList = .ok (some uri) := by
  rw [resolveLabel, String.ofList_toList, if_neg hlabel.ne_empty,
    hagrees label hlabel.2, hlookup]
  split
  · contradiction
  · rename_i hempty
    exact absurd (Option.some.inj hempty) huri
  · rename_i hother
    rw [Option.some.inj hother]

theorem resolveElement_of_names (hagrees : scope.Agrees frames)
    (hnames : frames.NamesElement written name ns) (hname : isNCName name = true)
    (hns : ns ≠ some "") :
    (RawName.of written.toList).localPart = name.toList ∧
      scope.resolveElement (RawName.of written.toList) = .ok ns := by
  rcases hnames with ⟨rfl, hdefault⟩ | ⟨uri, huri, label, hlabel, hlookup, rfl⟩
  · rw [RawName.of_plain (ne_colon_of_isNCName hname)]
    refine ⟨rfl, ?_⟩
    rw [resolveElement, hagrees "" (by decide), hdefault]
  · rw [toList_qualified, RawName.of_qualified _ (ne_colon_of_isNCName hlabel.1)]
    refine ⟨rfl, ?_⟩
    rw [huri]
    exact resolveLabel_of_lookup hagrees hlabel hlookup fun hempty => hns (hempty ▸ huri)

theorem resolveAttribute_of_names (hagrees : scope.Agrees frames) {key : QName}
    (hnames : frames.NamesAttribute written key) (hname : isNCName key.name = true)
    (hns : key.ns ≠ some "") :
    (RawName.of written.toList).localPart = key.name.toList ∧
      scope.resolveAttribute (RawName.of written.toList) = .ok key.ns := by
  rcases hnames with ⟨rfl, hnone⟩ | ⟨uri, huri, label, hlabel, hlookup, rfl⟩
  · rw [RawName.of_plain (ne_colon_of_isNCName hname), hnone]
    exact ⟨rfl, rfl⟩
  · rw [toList_qualified, RawName.of_qualified _ (ne_colon_of_isNCName hlabel.1)]
    refine ⟨rfl, ?_⟩
    rw [huri]
    exact resolveLabel_of_lookup hagrees hlabel hlookup fun hempty => hns (hempty ▸ huri)

end Scope

/-- No attribute is spelled like a declaration. -/
theorem declaredLabel?_of_names {frames : Frames} {written : String} {key : QName}
    (hnames : frames.NamesAttribute written key) (hname : isNCName key.name = true)
    (hkey : key ≠ ⟨"xmlns", none⟩) : declaredLabel? written.toList = none := by
  obtain ⟨name, ns⟩ := key
  rcases hnames with ⟨rfl, rfl⟩ | ⟨uri, rfl, label, hlabel, _, rfl⟩
  · apply declaredLabel?_eq_none
    · intro heq
      exact hkey (by rw [String.toList_injective heq])
    · rw [RawName.of_plain (ne_colon_of_isNCName hname)]
      simp
  · have hcut := RawName.of_qualified _ (ne_colon_of_isNCName hlabel.1) name.toList
    apply declaredLabel?_eq_none
    · intro heq
      have hplain : RawName.of "xmlns".toList = ⟨none, "xmlns".toList⟩ := by decide
      rw [← heq, toList_qualified, hcut] at hplain
      simp at hplain
    · rw [toList_qualified, hcut]
      intro heq
      exact hlabel.2 (String.toList_injective (Option.some.inj heq))

theorem isPlain_of_namesElement {frames : Frames} {written name : String}
    {ns : Option String} (hnames : frames.NamesElement written name ns)
    (hname : isNCName name = true) : IsPlain written.toList := by
  rcases hnames with ⟨rfl, _⟩ | ⟨_, _, label, hlabel, _, rfl⟩
  · exact isPlain_of_isNCName hname
  · exact isPlain_qualified hlabel.1 hname

theorem isPlain_of_namesAttribute {frames : Frames} {written : String} {key : QName}
    (hnames : frames.NamesAttribute written key) (hname : isNCName key.name = true) :
    IsPlain written.toList := by
  rcases hnames with ⟨rfl, _⟩ | ⟨_, _, label, hlabel, _, rfl⟩
  · exact isPlain_of_isNCName hname
  · exact isPlain_qualified hlabel.1 hname

theorem NamespaceDecl.IsBindable.isPlain_spell {d : NamespaceDecl} (hd : d.IsBindable) :
    IsPlain (spellDeclaration d).1.toList := by
  by_cases hempty : d.label = ""
  · simp only [spellDeclaration, hempty, ↓reduceIte]
    exact ⟨by decide, by decide⟩
  · simp only [spellDeclaration, hempty, ↓reduceIte]
    have hsplit : "xmlns:" ++ d.label = "xmlns" ++ ":" ++ d.label := by
      rw [show "xmlns" ++ ":" = "xmlns:" from rfl]
    rw [hsplit]
    exact isPlain_qualified (by decide) (hd.label.resolve_left hempty).1

end Epub.Xml
