/-
Attributes by position and by name.  Where no two attributes are equal, the one a
tag reads can be told by its name, and so can those that no tag reads.  Where attributes
are taken away, tags that lose none of theirs read the same ones.
-/
import Epub.Binding.Located
import Epub.Proofs.Lists
import Epub.Proofs.SortedMap
import Mathlib.Data.List.Nodup

namespace Epub

namespace Binding

open Epub.Schema Epub.Xml

/-- The attribute that an entry stands for. -/
def entryAttribute (entry : QName × String) : Attribute :=
  ⟨entry.1.name, entry.1.ns, entry.2⟩

@[simp] theorem entryAttribute_key (entry : QName × String) :
    (entryAttribute entry).key = entry.1 := rfl

theorem OtherAttributes.of_map_entryAttribute (other : OtherAttributes) :
    OtherAttributes.of (other.entries.map entryAttribute) = other := by
  have hentries : (other.entries.map entryAttribute).map
      (fun attr => (attr.key, attr.value)) = other.entries := by
    rw [List.map_map]
    exact List.map_id' _
  rw [OtherAttributes.of, hentries]
  exact SortedMap.ofList_entries other

section Reading

variable {e : Element} {name : String} {rule : NamespaceRule} {attr : Attribute}

theorem attributeMatches_iff {own : Option String} :
    attributeMatches name rule own attr = true ↔
      attr.name = name ∧ rule.admits own attr.ns = true := by
  rw [attributeMatches, Bool.and_eq_true, decide_eq_true_eq]

theorem exists_of_attributeIndex? {index : Nat}
    (hindex : attributeIndex? e name rule = some index) :
    ∃ attr, e.attributes[index]? = some attr ∧ findAttribute? e name rule = some attr := by
  have hlt : index < e.attributes.length := by
    simp only [attributeIndex?, Option.or_eq_some_iff] at hindex
    rcases hindex with hindex | ⟨_, hindex⟩
    · exact (List.findIdx?_eq_some_iff_getElem.mp hindex).1
    · exact (List.findIdx?_eq_some_iff_getElem.mp hindex).1
  refine ⟨e.attributes[index], List.getElem?_eq_getElem hlt, ?_⟩
  rw [findAttribute?, hindex]
  exact List.getElem?_eq_getElem hlt

/-- What is read fits, and it is unqualified if anything unqualified fits. -/
theorem spec_of_findAttribute? (hfound : findAttribute? e name rule = some attr) :
    attr ∈ e.attributes ∧ attributeMatches name rule e.ns attr = true ∧
      (attr.ns = none ∨ ∀ other ∈ e.attributes,
        attributeMatches name rule e.ns other = true → other.ns ≠ none) := by
  obtain ⟨index, hindex, hattr⟩ := Option.bind_eq_some_iff.mp hfound
  refine ⟨List.mem_of_getElem? hattr, ?_⟩
  simp only [attributeIndex?, Option.or_eq_some_iff] at hindex
  rcases hindex with hindex | ⟨hnone, hindex⟩
  · obtain ⟨hlt, hfits, _⟩ := List.findIdx?_eq_some_iff_getElem.mp hindex
    rw [List.getElem?_eq_getElem hlt, Option.some.injEq] at hattr
    rw [hattr, Bool.and_eq_true] at hfits
    exact ⟨hfits.1, Or.inl (Option.isNone_iff_eq_none.mp hfits.2)⟩
  · obtain ⟨hlt, hfits, _⟩ := List.findIdx?_eq_some_iff_getElem.mp hindex
    rw [List.getElem?_eq_getElem hlt, Option.some.injEq] at hattr
    rw [hattr] at hfits
    refine ⟨hfits, Or.inr fun other hother hmatches hns => ?_⟩
    have hnot := List.findIdx?_eq_none_iff.mp hnone other hother
    simp [hmatches, hns] at hnot

theorem findAttribute?_eq_none_iff :
    findAttribute? e name rule = none ↔
      ∀ other ∈ e.attributes, attributeMatches name rule e.ns other = false := by
  constructor
  · intro hnone other hother
    by_contra hmatches
    cases hindex : attributeIndex? e name rule with
    | some index =>
        obtain ⟨_, _, hfound⟩ := exists_of_attributeIndex? hindex
        rw [hnone] at hfound
        contradiction
    | none =>
        simp only [attributeIndex?, Option.or_eq_none_iff] at hindex
        exact hmatches (List.findIdx?_eq_none_iff.mp hindex.2 other hother)
  · intro hall
    cases hfound : findAttribute? e name rule with
    | none => rfl
    | some attr =>
        obtain ⟨hmem, hmatches, _⟩ := spec_of_findAttribute? hfound
        rw [hall attr hmem] at hmatches
        contradiction

/-- An attribute is read if all others that fit are qualified and it is not. -/
theorem findAttribute?_eq_some (hmem : attr ∈ e.attributes)
    (hmatches : attributeMatches name rule e.ns attr = true)
    (hothers : ∀ other ∈ e.attributes, attributeMatches name rule e.ns other = true →
      other = attr ∨ (attr.ns = none ∧ other.ns ≠ none)) :
    findAttribute? e name rule = some attr := by
  cases hfound : findAttribute? e name rule with
  | none =>
      rw [findAttribute?_eq_none_iff.mp hfound attr hmem] at hmatches
      contradiction
  | some other =>
      obtain ⟨hother, hfits, hunqualified⟩ := spec_of_findAttribute? hfound
      rcases hothers other hother hfits with rfl | ⟨hattr, hns⟩
      · rfl
      · rcases hunqualified with hnone | hall
        · exact absurd hnone hns
        · exact absurd hattr (hall attr hmem hmatches)

/-- The namespaces that a tag admits, besides none, are one. -/
theorem eq_of_admits {own ns ns' : Option String} (hadmits : rule.admits own ns = true)
    (hadmits' : rule.admits own ns' = true) (hsome : ns ≠ none) (hsome' : ns' ≠ none) :
    ns = ns' := by
  cases rule <;> simp_all [NamespaceRule.admits]

/-- Where no two attributes are under one key, what is read does not depend on their
order: the attribute alone fits, or the only other one that fits is qualified and it is
not. -/
theorem findAttribute?_eq_some_iff (hkeys : (e.attributes.map Attribute.key).Nodup) :
    findAttribute? e name rule = some attr ↔
      attr ∈ e.attributes ∧ attributeMatches name rule e.ns attr = true ∧
        ∀ other ∈ e.attributes, attributeMatches name rule e.ns other = true →
          other = attr ∨ (attr.ns = none ∧ other.ns ≠ none) := by
  constructor
  · intro hfound
    obtain ⟨hmem, hmatches, hunqualified⟩ := spec_of_findAttribute? hfound
    refine ⟨hmem, hmatches, fun other hother hfits => ?_⟩
    by_cases hsame : other = attr
    · exact Or.inl hsame
    · right
      rw [attributeMatches_iff] at hmatches
      have hns : other.ns ≠ attr.ns := by
        intro hns
        apply hsame
        apply List.inj_on_of_nodup_map hkeys hother hmem
        rw [Attribute.key, Attribute.key, hns, (attributeMatches_iff.mp hfits).1, hmatches.1]
      rcases hunqualified with hnone | hall
      · exact ⟨hnone, fun hother => hns (hother.trans hnone.symm)⟩
      · have hqualified := hall attr hmem (attributeMatches_iff.mpr hmatches)
        exact absurd (eq_of_admits (attributeMatches_iff.mp hfits).2 hmatches.2
          (hall other hother hfits) hqualified) hns
  · rintro ⟨hmem, hmatches, hothers⟩
    exact findAttribute?_eq_some hmem hmatches hothers

theorem mem_of_mem_unclaimedAttributes {tags : List Tag}
    (hattr : attr ∈ unclaimedAttributes e tags) : attr ∈ e.attributes := by
  obtain ⟨entry, hentry, rfl⟩ := List.mem_map.mp hattr
  exact List.fst_mem_of_mem_zipIdx (List.mem_filter.mp hentry).1

/-- Where no two attributes are equal, an attribute is left over when no tag
reads it. -/
theorem unclaimedAttributes_eq (hnodup : e.attributes.Nodup) (tags : List Tag) :
    unclaimedAttributes e tags = e.attributes.filter fun attr =>
      decide (∀ tag ∈ tags, tag.placement = .attr →
        findAttribute? e tag.name tag.rule ≠ some attr) := by
  have hclaimed : ∀ entry ∈ e.attributes.zipIdx,
      decide (entry.2 ∉ claimedIndices e tags) =
        decide (∀ tag ∈ tags, tag.placement = .attr →
          findAttribute? e tag.name tag.rule ≠ some entry.1) := by
    rintro ⟨attr, index⟩ hentry
    have hat : e.attributes[index]? = some attr := List.mem_zipIdx_iff_getElem?.mp hentry
    apply decide_eq_decide.mpr
    simp only [claimedIndices, List.mem_filterMap, List.mem_filter, decide_eq_true_eq,
      not_exists, not_and, and_imp]
    refine forall_congr' fun tag => forall_congr' fun _ => forall_congr' fun _ => not_congr ?_
    constructor
    · intro hindex
      obtain ⟨other, hother, hfound⟩ := exists_of_attributeIndex? hindex
      rw [hat, Option.some.injEq] at hother
      rw [hfound, hother]
    · intro hfound
      obtain ⟨other, hindex, hother⟩ := Option.bind_eq_some_iff.mp hfound
      have hlt := (List.getElem?_eq_some_iff.mp hat).1
      rw [hindex, (List.getElem?_inj hlt hnodup).mp (hat.trans hother.symm)]
  have hmap : (e.attributes.zipIdx.filter fun entry =>
      decide (∀ tag ∈ tags, tag.placement = .attr →
        findAttribute? e tag.name tag.rule ≠ some entry.1)).map Prod.fst =
      (e.attributes.zipIdx.map Prod.fst).filter fun attr =>
        decide (∀ tag ∈ tags, tag.placement = .attr →
          findAttribute? e tag.name tag.rule ≠ some attr) := by
    rw [List.filter_map]
    rfl
  rw [unclaimedAttributes]
  rw [List.filter_congr hclaimed, hmap, List.zipIdx_map_fst]

end Reading

section Fewer

variable {e : Element} {name : String} {rule : NamespaceRule} {keeps : Attribute → Bool}

/-- Where only some attributes are kept, but all that fit, the tag reads the same one. -/
theorem attributeIndex?_filter (hkept : ∀ attr ∈ e.attributes,
      attributeMatches name rule e.ns attr = true → keeps attr = true) :
    attributeIndex? { e with attributes := e.attributes.filter keeps } name rule =
      (attributeIndex? e name rule).map fun index => (e.attributes.take index).countP keeps := by
  have hunqualified : ∀ attr ∈ e.attributes,
      (attributeMatches name rule e.ns attr && attr.ns.isNone) = true → keeps attr = true := by
    intro attr hattr hfits
    exact hkept attr hattr (Bool.and_eq_true_iff.mp hfits).1
  simp only [attributeIndex?, findIdx?_filter hkept, findIdx?_filter hunqualified, Option.map_or]

theorem findAttribute?_filter (hkept : ∀ attr ∈ e.attributes,
      attributeMatches name rule e.ns attr = true → keeps attr = true) :
    findAttribute? { e with attributes := e.attributes.filter keeps } name rule =
      findAttribute? e name rule := by
  cases hindex : attributeIndex? e name rule with
  | none =>
      rw [findAttribute?, findAttribute?, attributeIndex?_filter hkept, hindex]
      rfl
  | some index =>
      obtain ⟨attr, hattr, hfound⟩ := exists_of_attributeIndex? hindex
      obtain ⟨hmem, hfits, _⟩ := spec_of_findAttribute? hfound
      rw [hfound, findAttribute?, attributeIndex?_filter hkept, hindex]
      exact getElem?_filter hattr (hkept attr hmem hfits)

/-- Where all that fit are gone, the tag reads none. -/
theorem findAttribute?_filter_of_gone (hgone : ∀ attr ∈ e.attributes,
      attributeMatches name rule e.ns attr = true → keeps attr = false) :
    findAttribute? { e with attributes := e.attributes.filter keeps } name rule = none := by
  rw [findAttribute?_eq_none_iff]
  intro attr hattr
  obtain ⟨hmem, hkept⟩ := List.mem_filter.mp hattr
  apply Bool.eq_false_iff.mpr
  intro hfits
  rw [hgone attr hmem hfits] at hkept
  contradiction

theorem mem_claimedIndices {tags : List Tag} {index : Nat} :
    index ∈ claimedIndices e tags ↔
      ∃ tag ∈ tags, tag.placement = .attr ∧ attributeIndex? e tag.name tag.rule = some index := by
  simp only [claimedIndices, List.mem_filterMap, List.mem_filter, decide_eq_true_eq, and_assoc]

/-- Where each tag keeps all attributes that fit it, or none, those that are left over are
kept as they are. -/
theorem unclaimedAttributes_filter {tags : List Tag}
    (hkeeps : ∀ tag ∈ tags, tag.placement = .attr →
      (∀ attr ∈ e.attributes, attributeMatches tag.name tag.rule e.ns attr = true →
        keeps attr = true) ∨
      ∀ attr ∈ e.attributes, attributeMatches tag.name tag.rule e.ns attr = true →
        keeps attr = false) :
    unclaimedAttributes { e with attributes := e.attributes.filter keeps } tags =
      (unclaimedAttributes e tags).filter keeps := by
  have hclaimed : ∀ attr index, e.attributes[index]? = some attr → keeps attr = true →
      ((e.attributes.take index).countP keeps ∈
        claimedIndices { e with attributes := e.attributes.filter keeps } tags ↔
          index ∈ claimedIndices e tags) := by
    intro attr index hattr hkept
    rw [mem_claimedIndices, mem_claimedIndices]
    refine exists_congr fun tag => and_congr_right fun htag => and_congr_right fun hplace => ?_
    rcases hkeeps tag htag hplace with hall | hnone
    · rw [attributeIndex?_filter hall, Option.map_eq_some_iff]
      constructor
      · rintro ⟨place, hplace, hsame⟩
        obtain ⟨other, hother, hfound⟩ := exists_of_attributeIndex? hplace
        obtain ⟨hmem, hfits, _⟩ := spec_of_findAttribute? hfound
        rw [← countP_take_inj hother hattr (hall other hmem hfits) hkept hsame, hplace]
      · exact fun hindex => ⟨index, hindex, rfl⟩
    · constructor
      · intro hindex
        obtain ⟨other, _, hfound⟩ := exists_of_attributeIndex? hindex
        rw [findAttribute?_filter_of_gone hnone] at hfound
        contradiction
      · intro hindex
        obtain ⟨other, hother, hfound⟩ := exists_of_attributeIndex? hindex
        obtain ⟨hmem, hfits, _⟩ := spec_of_findAttribute? hfound
        rw [hattr, Option.some.injEq] at hother
        rw [hother, hnone other hmem hfits] at hkept
        contradiction
  have hsame : ∀ entry ∈ e.attributes.zipIdx.filter fun entry => keeps entry.1,
      decide ((e.attributes.take entry.2).countP keeps ∉
        claimedIndices { e with attributes := e.attributes.filter keeps } tags) =
          decide (entry.2 ∉ claimedIndices e tags) := by
    intro entry hentry
    obtain ⟨hmem, hkept⟩ := List.mem_filter.mp hentry
    exact decide_eq_decide.mpr
      (not_congr (hclaimed entry.1 entry.2 (List.mem_zipIdx_iff_getElem?.mp hmem) hkept))
  calc unclaimedAttributes { e with attributes := e.attributes.filter keeps } tags
      = ((e.attributes.zipIdx.filter fun entry => keeps entry.1).filter fun entry =>
          decide ((e.attributes.take entry.2).countP keeps ∉
            claimedIndices { e with attributes := e.attributes.filter keeps } tags)).map
              Prod.fst := by
        rw [unclaimedAttributes, zipIdx_filter, List.filter_map, List.map_map]
        rfl
    _ = ((e.attributes.zipIdx.filter fun entry => decide (entry.2 ∉ claimedIndices e tags)).filter
          fun entry => keeps entry.1).map Prod.fst := by
        rw [List.filter_congr hsame, List.filter_comm]
    _ = (unclaimedAttributes e tags).filter keeps := by
        rw [unclaimedAttributes, List.filter_map]
        rfl

end Fewer
end Binding

end Epub
