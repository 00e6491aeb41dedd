/-
Tables that can be resolved.  The tags of a table are resolved exactly when the marks of its
fields make sense, and then each field lives where its kind and its marks say.  Otherwise the
first field in declared order with something wrong decides the error.
-/
import Epub.Proofs.Except
import Epub.Proofs.Lists
import Epub.Schema.Tag

namespace Epub.Schema

variable {κ : Type}

/-- Where a field lives. -/
inductive FieldDecl.LivesIn (field : FieldDecl κ) : Placement → Prop where
  | text (hkind : field.kind = .value) (htext : field.isText = true) : LivesIn field .text
  | attr (hkind : field.kind = .value) (htext : field.isText = false) : LivesIn field .attr
  | childElement {type : κ} (hkind : field.kind = .element type) : LivesIn field .childElement
  | wrappedList {wrapper : String} (hlist : field.kind.isList = true)
      (hwrapper : field.wrapper = some wrapper) : LivesIn field .wrappedList
  | unwrappedList (hlist : field.kind.isList = true) (hwrapper : field.wrapper = none) :
      LivesIn field .unwrappedList
  | overflow (hkind : field.kind = .overflow) : LivesIn field .overflow

theorem FieldDecl.livesIn_placement (field : FieldDecl κ) : field.LivesIn field.placement := by
  have hlist : field.kind.isList = true →
      field.LivesIn (if field.wrapper.isSome then .wrappedList else .unwrappedList) := by
    intro hlist
    cases hwrapper : field.wrapper with
    | none => exact .unwrappedList hlist hwrapper
    | some wrapper => exact .wrappedList hlist hwrapper
  unfold placement
  split
  · rename_i hkind
    cases htext : field.isText with
    | false => exact .attr hkind htext
    | true => exact .text hkind htext
  · exact .childElement ‹_›
  · exact hlist (by rw [‹field.kind = _›]; rfl)
  · exact hlist (by rw [‹field.kind = _›]; rfl)
  · exact .overflow ‹_›

namespace Descriptor

variable {descriptor : Descriptor κ} {index : Nat} {field : FieldDecl κ} {fault : SchemaFault}

/-- Whether the marks of all fields make sense. -/
structure IsValid (descriptor : Descriptor κ) : Prop where
  texts : ∀ field ∈ descriptor.fields, field.isText = true → field.kind = .value
  oneText : ∀ (i j : Nat) (first second : FieldDecl κ), descriptor.fields[i]? = some first →
    descriptor.fields[j]? = some second → first.isText = true → second.isText = true → i = j
  wrappers : ∀ field ∈ descriptor.fields, field.wrapper ≠ none → field.kind.isList = true

/-- Whether `other` is the first text in declared order besides the field at `index`. -/
structure IsOtherText (descriptor : Descriptor κ) (index : Nat) (other : FieldDecl κ)
    (position : Nat) : Prop where
  stands : descriptor.fields[position]? = some other
  text : other.isText = true
  ne : position ≠ index
  first : ∀ earlier < position, ∀ field, descriptor.fields[earlier]? = some field →
    earlier ≠ index → field.isText = false

/-- What is wrong with the field at `index`.  Its text mark is looked at first, then the other
texts of the table, and its wrapper last. -/
inductive Refuses (descriptor : Descriptor κ) (index : Nat) (field : FieldDecl κ) :
    SchemaFault → Prop where
  | textOnNonValue (htext : field.isText = true) (hkind : field.kind ≠ .value) :
      Refuses descriptor index field (.textOnNonValue descriptor.name field.name)
  | textBefore {other : FieldDecl κ} {position : Nat} (htext : field.isText = true)
      (hkind : field.kind = .value) (hother : descriptor.IsOtherText index other position)
      (hbefore : position < index) :
      Refuses descriptor index field (.duplicateText descriptor.name other.name field.name)
  | textAfter {other : FieldDecl κ} {position : Nat} (htext : field.isText = true)
      (hkind : field.kind = .value) (hother : descriptor.IsOtherText index other position)
      (hafter : index < position) :
      Refuses descriptor index field (.duplicateText descriptor.name field.name other.name)
  | wrapperOnNonList
      (htext : field.isText = true → field.kind = .value ∧
        ∀ other position, ¬descriptor.IsOtherText index other position)
      (hwrapper : field.wrapper ≠ none) (hkind : field.kind.isList = false) :
      Refuses descriptor index field (.wrapperOnNonList descriptor.name field.name)

theorem otherText?_eq_some {other : FieldDecl κ} {position : Nat} :
    descriptor.otherText? index = some (other, position) ↔
      descriptor.IsOtherText index other position := by
  rw [otherText?, List.find?_eq_some_iff_getElem]
  simp only [List.getElem_zipIdx, List.length_zipIdx, Nat.zero_add, Prod.mk.injEq,
    Bool.and_eq_true, decide_eq_true_eq, Bool.not_eq_true', Bool.and_eq_false_imp,
    decide_eq_false_iff_not, not_not, ne_eq]
  constructor
  · rintro ⟨⟨htext, hne⟩, _, hlength, ⟨rfl, rfl⟩, hfirst⟩
    refine ⟨List.getElem?_eq_getElem hlength, htext, hne, ?_⟩
    intro earlier hlt field hfield hother
    obtain ⟨_, rfl⟩ := List.getElem?_eq_some_iff.mp hfield
    exact Bool.eq_false_iff.mpr fun hearlier => hother (hfirst earlier hlt hearlier)
  · rintro ⟨hstands, htext, hne, hfirst⟩
    obtain ⟨hlength, hat⟩ := List.getElem?_eq_some_iff.mp hstands
    refine ⟨⟨htext, hne⟩, position, hlength, ⟨hat, rfl⟩, ?_⟩
    intro earlier hlt hearlier
    by_contra hother
    have hnot := hfirst earlier hlt _ (List.getElem?_eq_getElem (by omega)) hother
    rw [hearlier] at hnot
    contradiction

theorem otherText?_eq_none :
    descriptor.otherText? index = none ↔
      ∀ other position, ¬descriptor.IsOtherText index other position := by
  rw [Option.eq_none_iff_forall_ne_some]
  simp only [ne_eq, Prod.forall, otherText?_eq_some]

/-- Another text is found wherever there is one. -/
theorem exists_isOtherText {other : FieldDecl κ} {position : Nat}
    (hstands : descriptor.fields[position]? = some other) (htext : other.isText = true)
    (hne : position ≠ index) : ∃ first place, descriptor.IsOtherText index first place := by
  by_contra hnone
  push Not at hnone
  have hmem : (other, position) ∈ descriptor.fields.zipIdx :=
    List.mem_zipIdx_iff_getElem?.mpr hstands
  have hnot := List.find?_eq_none.mp (otherText?_eq_none.mpr hnone) _ hmem
  simp [htext, hne] at hnot

theorem check_of_refuses (hrefuses : descriptor.Refuses index field fault) :
    descriptor.check index field = .error fault := by
  cases hrefuses with
  | textOnNonValue htext hkind =>
      have hvalue : field.kind.isValue = false := by
        cases hcase : field.kind <;> simp_all [FieldKind.isValue]
      simp only [check, htext, hvalue]
      rfl
  | textBefore htext hkind hother hbefore =>
      have hsome := otherText?_eq_some.mpr hother
      simp only [check, htext, hkind, hsome, if_pos hbefore]
      rfl
  | textAfter htext hkind hother hafter =>
      have hsome := otherText?_eq_some.mpr hother
      simp only [check, htext, hkind, hsome, if_neg (Nat.lt_asymm hafter)]
      rfl
  | wrapperOnNonList htext hwrapper hkind =>
      have hsome : field.wrapper.isSome = true := Option.isSome_iff_ne_none.mpr hwrapper
      cases hcase : field.isText with
      | false =>
          simp only [check, hcase, hsome, hkind]
          rfl
      | true =>
          obtain ⟨hvalue, hnone⟩ := htext hcase
          simp only [check, hcase, hvalue, otherText?_eq_none.mpr hnone, hsome]
          rfl

/-- The marks of a field with which nothing is wrong. -/
theorem marks_of_not_refuses (hnot : ∀ fault, ¬descriptor.Refuses index field fault) :
    (field.isText = true → field.kind = .value ∧
        ∀ other position, ¬descriptor.IsOtherText index other position) ∧
      (field.wrapper ≠ none → field.kind.isList = true) := by
  have htexts : field.isText = true → field.kind = .value ∧
      ∀ other position, ¬descriptor.IsOtherText index other position := by
    intro htext
    have hkind : field.kind = .value := by
      by_contra hkind
      exact hnot _ (.textOnNonValue htext hkind)
    refine ⟨hkind, fun other position hother => ?_⟩
    rcases Nat.lt_or_gt_of_ne hother.ne with hbefore | hafter
    · exact hnot _ (.textBefore htext hkind hother hbefore)
    · exact hnot _ (.textAfter htext hkind hother hafter)
  refine ⟨htexts, fun hwrapper => ?_⟩
  by_contra hlist
  exact hnot _ (.wrapperOnNonList htexts hwrapper (Bool.not_eq_true _ ▸ hlist))

theorem check_of_not_refuses (hnot : ∀ fault, ¬descriptor.Refuses index field fault) :
    descriptor.check index field = .ok () := by
  obtain ⟨htexts, hlist⟩ := marks_of_not_refuses hnot
  have hwrapper : (field.wrapper.isSome && !field.kind.isList) = false := by
    cases hcase : field.wrapper with
    | none => rfl
    | some wrapper => rw [hlist (by simp [hcase])]; rfl
  cases hcase : field.isText with
  | false =>
      simp only [check, hcase, hwrapper]
      rfl
  | true =>
      obtain ⟨hkind, hnone⟩ := htexts hcase
      rw [hkind] at hwrapper
      simp only [check, hcase, hkind, otherText?_eq_none.mpr hnone, hwrapper]
      rfl

theorem check_eq_error_iff :
    descriptor.check index field = .error fault ↔ descriptor.Refuses index field fault := by
  refine ⟨fun hcheck => ?_, check_of_refuses⟩
  by_cases hrefuses : ∃ other, descriptor.Refuses index field other
  · obtain ⟨other, hother⟩ := hrefuses
    obtain rfl : other = fault := Except.error.inj ((check_of_refuses hother).symm.trans hcheck)
    exact hother
  · rw [check_of_not_refuses (not_exists.mp hrefuses)] at hcheck
    contradiction

/-- A table is valid exactly if nothing is wrong with any of its fields. -/
theorem isValid_iff :
    descriptor.IsValid ↔ ∀ (index : Nat) (field : FieldDecl κ),
      descriptor.fields[index]? = some field → ∀ fault, ¬descriptor.Refuses index field fault := by
  constructor
  · intro hvalid index field hfield fault hrefuses
    have hmem := List.mem_of_getElem? hfield
    cases hrefuses with
    | textOnNonValue htext hkind => exact hkind (hvalid.texts field hmem htext)
    | textBefore htext _ hother _ =>
        exact hother.ne (hvalid.oneText _ _ _ _ hother.stands hfield hother.text htext)
    | textAfter htext _ hother _ =>
        exact hother.ne (hvalid.oneText _ _ _ _ hother.stands hfield hother.text htext)
    | wrapperOnNonList _ hwrapper hkind =>
        rw [hvalid.wrappers field hmem hwrapper] at hkind
        contradiction
  · intro hnot
    refine ⟨fun field hmem htext => ?_, fun i j first second hi hj hfirst hsecond => ?_,
      fun field hmem hwrapper => ?_⟩
    · obtain ⟨index, hfield⟩ := List.mem_iff_getElem?.mp hmem
      exact ((marks_of_not_refuses (hnot index field hfield)).1 htext).1
    · by_contra hne
      -- The check of either text finds another one, though it need not be this one.
      obtain ⟨other, position, hother⟩ := exists_isOtherText hj hsecond (Ne.symm hne)
      exact ((marks_of_not_refuses (hnot i first hi)).1 hfirst).2 other position hother
    · obtain ⟨index, hfield⟩ := List.mem_iff_getElem?.mp hmem
      exact (marks_of_not_refuses (hnot index field hfield)).2 hwrapper

theorem tag_eq_error_iff (hfield : descriptor.fields[index]? = some field) :
    descriptor.tag index = .error fault ↔ descriptor.Refuses index field fault := by
  simp only [tag, hfield, bind_eq_error, check_eq_error_iff]
  refine or_iff_left ?_
  rintro ⟨_, _, hpure⟩
  contradiction

theorem exists_tag_iff (hfield : descriptor.fields[index]? = some field) :
    (∃ tag, descriptor.tag index = .ok tag) ↔ ∀ fault, ¬descriptor.Refuses index field fault := by
  simp only [← tag_eq_error_iff hfield]
  cases descriptor.tag index <;> simp

/-- The tags are refused with what is wrong with the first field with which something is
wrong. -/
theorem tags_eq_error_iff :
    descriptor.tags = .error fault ↔
      ∃ (index : Nat) (field : FieldDecl κ), descriptor.fields[index]? = some field ∧
        descriptor.Refuses index field fault ∧
        ∀ earlier < index, ∀ other, descriptor.fields[earlier]? = some other →
          ∀ fault, ¬descriptor.Refuses earlier other fault := by
  rw [tags, mapM_eq_error_iff]
  constructor
  · rintro ⟨index, position, hposition, hfail, hbefore⟩
    obtain ⟨hlength, rfl⟩ := List.getElem?_eq_some_iff.mp hposition
    rw [List.length_range] at hlength
    rw [List.getElem_range] at hfail
    have hfield := List.getElem?_eq_getElem hlength
    refine ⟨index, _, hfield, (tag_eq_error_iff hfield).mp hfail, ?_⟩
    intro earlier hlt other hother
    rw [← exists_tag_iff hother]
    exact hbefore earlier hlt earlier (List.getElem?_range (by omega))
  · rintro ⟨index, field, hfield, hrefuses, hbefore⟩
    obtain ⟨hlength, -⟩ := List.getElem?_eq_some_iff.mp hfield
    refine ⟨index, index, List.getElem?_range hlength,
      (tag_eq_error_iff hfield).mpr hrefuses, ?_⟩
    intro earlier hlt position hposition
    obtain ⟨_, rfl⟩ := List.getElem?_eq_some_iff.mp hposition
    rw [List.getElem_range]
    have hother := List.getElem?_eq_getElem (Nat.lt_trans hlt hlength)
    exact (exists_tag_iff hother).mpr (hbefore earlier hlt _ hother)

/-- Tables whose tags can be resolved give every field its tag. -/
theorem eq_of_tags {tags : List Tag} (htags : descriptor.tags = .ok tags) :
    tags = descriptor.fields.map FieldDecl.tag := by
  have hall := mapM_eq_ok_iff.mp htags
  have hlength := hall.length_eq
  rw [List.length_range] at hlength
  apply List.ext_getElem
  · rw [List.length_map, hlength]
  · intro index hindex hfield
    rw [List.length_map] at hfield
    have htag := List.forall₂_iff_get.mp hall
    have hat := htag.2 index (by simpa using hfield) hindex
    simp only [List.get_eq_getElem, List.getElem_range, Descriptor.tag,
      List.getElem?_eq_getElem hfield] at hat
    obtain ⟨_, _, hpure⟩ := bind_eq_ok.mp hat
    rw [List.getElem_map]
    exact (Except.ok.inj hpure).symm

theorem exists_tags_iff : (∃ tags, descriptor.tags = .ok tags) ↔ descriptor.IsValid := by
  constructor
  · rintro ⟨tags, htags⟩
    refine isValid_iff.mpr fun index field hfield => ?_
    obtain ⟨hlength, -⟩ := List.getElem?_eq_some_iff.mp hfield
    obtain ⟨tag, -, htag⟩ :=
      exists_of_forall₂ (mapM_eq_ok_iff.mp htags) (List.mem_range.mpr hlength)
    exact (exists_tag_iff hfield).mp ⟨tag, htag⟩
  · intro hvalid
    cases htags : descriptor.tags with
    | ok tags => exact ⟨tags, rfl⟩
    | error fault =>
        obtain ⟨index, field, hfield, hrefuses, -⟩ := tags_eq_error_iff.mp htags
        exact absurd hrefuses (isValid_iff.mp hvalid index field hfield fault)

/-- In a table whose tags can be resolved at most one field is a text. -/
theorem text_unique {tags : List Tag} (htags : descriptor.tags = .ok tags) :
    descriptor.fields.Pairwise fun first second =>
      ¬(first.isText = true ∧ second.isText = true) := by
  have hvalid := exists_tags_iff.mp ⟨tags, htags⟩
  rw [List.pairwise_iff_getElem]
  rintro i j hi hj hlt ⟨hfirst, hsecond⟩
  have hsame := hvalid.oneText i j _ _ (List.getElem?_eq_getElem hi)
    (List.getElem?_eq_getElem hj) hfirst hsecond
  exact Nat.ne_of_lt hlt hsame

/-- The tags of a table are resolved exactly if it is valid.  Then each field has the tag of
the place where it lives, and is required if it has no default; otherwise the first field with
which something is wrong decides the error. -/
theorem tags_outcome (descriptor : Descriptor κ) :
    ((∃ tags, descriptor.tags = .ok tags) ↔ descriptor.IsValid) ∧
    (∀ tags, descriptor.tags = .ok tags →
      List.Forall₂ (fun field tag => field.LivesIn tag.placement ∧
        (tag.required = true ↔ field.hasDefault = false)) descriptor.fields tags) ∧
    ∀ fault, descriptor.tags = .error fault ↔
      ∃ (index : Nat) (field : FieldDecl κ), descriptor.fields[index]? = some field ∧
        descriptor.Refuses index field fault ∧
        ∀ earlier < index, ∀ other, descriptor.fields[earlier]? = some other →
          ∀ fault, ¬descriptor.Refuses earlier other fault := by
  refine ⟨exists_tags_iff, fun tags htags => ?_, fun fault => tags_eq_error_iff⟩
  rw [eq_of_tags htags, List.forall₂_map_right_iff, List.forall₂_same]
  intro field _
  refine ⟨field.livesIn_placement, ?_⟩
  simp [FieldDecl.tag]

/-- A list marked as text, and two texts behind it, of which the second has a wrapper. -/
def entangledMarks : Descriptor Unit :=
  ⟨"broken", .inherited,
    [.value "id", .text "a", (.asText (.list "item" ())), .wrapped (.text "b") "bs"], []⟩

theorem tags_outcome_entangled :
    entangledMarks.Refuses 2 (.asText (.list "item" ())) (.textOnNonValue "broken" "item") ∧
      entangledMarks.tags = .error (.duplicateText "broken" "a" "item") := by
  refine ⟨.textOnNonValue rfl (by simp [FieldDecl.asText, FieldDecl.list, FieldDecl.plain]), ?_⟩
  have hother : entangledMarks.IsOtherText 1 (.asText (.list "item" ())) 2 :=
    otherText?_eq_some.mp rfl
  refine ((tags_outcome entangledMarks).2.2 _).mpr
    ⟨1, .text "a", rfl, .textAfter rfl rfl hother (by decide), ?_⟩
  intro earlier hlt other hstands fault hrefuses
  obtain rfl : earlier = 0 := by omega
  obtain rfl := Option.some.inj hstands
  cases hrefuses <;> contradiction

end Descriptor

end Epub.Schema
