/-
Reading looks at what a tree says and at nothing else: declarations do not matter,
and neither do texts without a character.
-/
import Epub.Proofs.Binding.Reading

namespace Epub.Binding

open Epub.Schema Epub.Xml

variable {κ : Type}

/-- Replace the elements among what was found. -/
def Located.map (f : Element → Element) : Located κ → Located κ
  | .text raw => .text raw
  | .element e => .element (f e)
  | .items path found => .items path (found.map f)
  | .variants path found => .variants path (found.map fun pair => (pair.1, f pair.2))
  | .overflow other => .overflow other

section Locate

variable {family : Family κ} {typeName path : String} {tags : List Tag} {e : Element}

theorem named_content (e : Element) (name : String) (ns : Option String) :
    e.content.Named name ns ↔ e.Named name ns := by
  rw [Element.Named, Element.Named, Element.content_name, Element.content_ns]

theorem childrenNamed_content (e : Element) (name : String) (ns : Option String) :
    e.content.childrenNamed name ns = (e.childrenNamed name ns).map Element.content := by
  rw [Element.childrenNamed, Element.childrenNamed, Element.content_children, List.filter_map]
  congr 1
  apply List.filter_congr
  intro child _
  exact decide_eq_decide.mpr (named_content child name ns)

theorem singleChild_content (path : String) (e : Element) (name : String)
    (ns : Option String) :
    singleChild path e.content name ns =
      (singleChild path e name ns).map (Option.map Element.content) := by
  rw [singleChild, singleChild, childrenNamed_content]
  rcases e.childrenNamed name ns with _ | ⟨child, _ | ⟨_, _⟩⟩
  · rfl
  · rfl
  · rfl

theorem variantsOf_cons (family : Family κ) (types : List κ) (path : String)
    (parent : Option String) (child : Element) (rest : List Element) :
    variantsOf family types path parent (child :: rest) =
      match types.find? fun type => (family type).descriptor.isVariant parent child with
      | some type => (variantsOf family types path parent rest).map ((type, child) :: ·)
      | none => .error (.decode (.unknownVariant child.name path)) := by
  rw [variantsOf, List.mapM_cons]
  cases types.find? fun type => (family type).descriptor.isVariant parent child with
  | none => rfl
  | some type =>
      rw [← variantsOf]
      cases variantsOf family types path parent rest <;> rfl

theorem variantsOf_content (family : Family κ) (types : List κ) (path : String)
    (parent : Option String) (candidates : List Element) :
    variantsOf family types path parent (candidates.map Element.content) =
      (variantsOf family types path parent candidates).map
        (List.map fun pair => (pair.1, pair.2.content)) := by
  induction candidates with
  | nil => rfl
  | cons child rest ih =>
      have hvariant : (fun type => (family type).descriptor.isVariant parent child.content) =
          fun type => (family type).descriptor.isVariant parent child := by
        funext type
        exact decide_eq_decide.mpr (named_content child _ _)
      rw [List.map_cons, variantsOf_cons, variantsOf_cons, hvariant, ih, Element.content_name]
      cases types.find? fun type => (family type).descriptor.isVariant parent child with
      | none => rfl
      | some type =>
          cases variantsOf family types path parent rest <;> rfl

theorem itemsUnder_content (family : Family κ) (typeName : String) (field : FieldDecl κ)
    (tag : Tag) (isSibling : Element → Bool)
    (hsibling : ∀ child : Element, isSibling child.content = isSibling child) (path : String)
    (container : Element) :
    itemsUnder family typeName field tag isSibling path container.content =
      (itemsUnder family typeName field tag isSibling path container).map
        (Located.map Element.content) := by
  rw [itemsUnder, itemsUnder]
  cases field.kind with
  | list type =>
      simp only [childrenNamed_content, Element.content_ns]
      rfl
  | variants types =>
      have hcandidates : (container.content.children.filter fun child => !isSibling child) =
          (container.children.filter fun child => !isSibling child).map Element.content := by
        rw [Element.content_children, List.filter_map]
        congr 1
        apply List.filter_congr
        intro child _
        simp [hsibling]
      simp only [hcandidates, variantsOf_content, Element.content_ns]
      generalize variantsOf family types path container.ns _ = found
      cases found <;> rfl
  | value => rfl
  | element type => rfl
  | overflow => rfl

theorem claimedByOther_content (tags : List Tag) (index : Option Nat) (parent : Option String)
    (child : Element) :
    claimedByOther tags index parent child.content = claimedByOther tags index parent child := by
  have hclaims : ∀ tag : Tag, tag.claims parent child.content = tag.claims parent child := by
    intro tag
    rw [Tag.claims, Tag.claims]
    congr 1
    funext name
    exact decide_eq_decide.mpr (named_content child name _)
  simp only [claimedByOther, hclaims]

theorem isEmpty_map (located : Located κ) (f : Element → Element) :
    (located.map f).isEmpty = located.isEmpty := by
  cases located <;> simp [Located.map, Located.isEmpty]

/-- What a tree says decides what is found. -/
theorem locate_content (index : Nat) (field : FieldDecl κ) (tag : Tag) (path : String)
    (e : Element) :
    locate family typeName tags index field tag path e.content =
      (locate family typeName tags index field tag path e).map
        (Option.map (Located.map Element.content)) := by
  rw [locate, locate]
  cases tag.placement with
  | attr =>
      have hfound : findAttribute? e.content tag.name tag.rule =
          findAttribute? e tag.name tag.rule := by
        simp [findAttribute?, attributeIndex?]
      rw [hfound]
      cases findAttribute? e tag.name tag.rule <;> rfl
  | text =>
      have htext : e.content.ownText? = e.ownText? := by
        rw [Element.ownText?, Element.content_eq]
        simp [Element.ownText?]
      rw [htext]
      cases e.ownText? <;> rfl
  | childElement =>
      simp only [singleChild_content, Element.content_ns]
      cases singleChild path e tag.name (tag.rule.effective e.ns) with
      | error error => rfl
      | ok found => cases found <;> rfl
  | wrappedList =>
      simp only [singleChild_content, Element.content_ns]
      cases singleChild path e tag.wrapperName (tag.rule.effective e.ns) with
      | error error => rfl
      | ok found =>
          cases found with
          | none => rfl
          | some wrapper =>
              have hpath : childPath path wrapper.content = childPath path wrapper := by
                simp [childPath]
              have hitems := itemsUnder_content family typeName field tag
                (fun _ => false) (fun _ => rfl) (childPath path wrapper) wrapper
              simp only [Except.map, Option.map_some, ok_bind, hpath, hitems]
              generalize itemsUnder family typeName field tag _ _ wrapper = found
              cases found <;> rfl
  | unwrappedList =>
      simp only [Element.content_ns,
        itemsUnder_content family typeName field tag _
          (claimedByOther_content tags (some index) e.ns)]
      generalize itemsUnder family typeName field tag _ path e = found
      cases found with
      | error error => rfl
      | ok located =>
          simp only [Except.map, ok_bind, isEmpty_map]
          cases hempty : located.isEmpty <;> simp [pure, Except.pure]
  | overflow =>
      have hunclaimed : unclaimedAttributes e.content tags = unclaimedAttributes e tags := by
        simp [unclaimedAttributes, claimedIndices, attributeIndex?]
      rw [hunclaimed]
      cases hempty : (OtherAttributes.of (unclaimedAttributes e tags)).isEmpty <;>
        simp [Except.map, hempty, Located.map]

end Locate

section Read

variable [DecidableEq κ] {family : Family κ}

/-- What is taken of an element depends on what the elements in it are read as. -/
theorem outcome_take_content (typeName : String) (tag : Tag) (path : String)
    (accessor : Accessor κ) {located : Located κ}
    (hread : ∀ child ∈ located.elements, ∀ key path,
      (readElement family key path child.content).outcome =
        (readElement family key path child).outcome) :
    (take typeName tag path accessor (located.map Element.content)
      fun child _ key path => readElement family key path child).outcome =
    (take typeName tag path accessor located
      fun child _ key path => readElement family key path child).outcome := by
  have hpath : ∀ path (child : Element), childPath path child.content = childPath path child := by
    simp [childPath]
  cases located with
  | text raw => cases accessor <;> rfl
  | overflow other => cases accessor <;> rfl
  | element child =>
      cases accessor with
      | element type =>
          simp only [Located.map, take, Traced.outcome_bind, hpath]
          rw [hread child List.mem_cons_self]
      | _ => rfl
  | items place found =>
      cases accessor with
      | list type =>
          rw [Located.map, take_list, take_list, Traced.outcome_map, Traced.outcome_map,
            List.mapM_map, Traced.outcome_mapM_congr]
          intro item hitem
          rw [Function.comp_apply, hpath, hread item hitem]
      | _ => rfl
  | variants place found =>
      cases accessor with
      | variants types =>
          rw [Located.map, take_variants, take_variants, Traced.outcome_map, Traced.outcome_map,
            List.mapM_map, Traced.outcome_mapM_congr]
          intro pair hpair
          have hitem := hread pair.2 (List.mem_map_of_mem hpair)
          by_cases hmem : pair.1 ∈ types
          · simp [hmem, hpath, hitem]
          · simp [hmem]
      | _ => rfl

theorem outcome_readSlot_content {typeName : String} {tags : List Tag} {path : String}
    {e : Element} {field : (BoundField κ × Tag) × Nat}
    (hread : ∀ child : Element, sizeOf child < sizeOf e → ∀ key path,
      (readElement family key path child.content).outcome =
        (readElement family key path child).outcome) :
    (readSlot family typeName tags path e.content field).outcome =
      (readSlot family typeName tags path e field).outcome := by
  rw [readSlot, readSlot, locate_content]
  cases hlocate : locate family typeName tags field.2 field.1.1.field field.1.2 path e with
  | error error => rfl
  | ok found =>
      cases found with
      | none => rfl
      | some located =>
          simp only [Except.map, Option.map_some, Traced.outcome_map]
          rw [outcome_take_content _ _ _ _ fun child hchild =>
            hread child (sizeOf_located_lt hlocate hchild)]

/-- What a tree says decides what it is read as. -/
theorem outcome_readElement_content (family : Family κ) (key : κ) (path : String) (e : Element) :
    (readElement family key path e.content).outcome =
      (readElement family key path e).outcome := by
  have hslot : ∀ typeName tags field,
      (readSlot family typeName tags path e.content field).outcome =
        (readSlot family typeName tags path e field).outcome := fun _ _ _ =>
    outcome_readSlot_content fun child _ key path =>
      outcome_readElement_content family key path child
  rw [readElement_eq, readElement_eq]
  simp only [Traced.outcome_bind, Traced.outcome_lift, Traced.outcome_mapM, hslot,
    Traced.outcome_noteAll, Traced.outcome_pure]
termination_by sizeOf e

/-- Documents that say the same are read as the same. -/
theorem outcome_readDocument_congr (family : Family κ) (key : κ) {left right : Document}
    (hsame : left.root.content = right.root.content) :
    (readDocument family key left).outcome = (readDocument family key right).outcome := by
  have hname : left.root.name = right.root.name := by
    rw [← Element.content_name left.root, hsame, Element.content_name]
  have hns : left.root.ns = right.root.ns := by
    rw [← Element.content_ns left.root, hsame, Element.content_ns]
  have hroot : (readRoot family key left.root).outcome =
      (readRoot family key right.root).outcome := by
    rw [readRoot, readRoot, hname, ← outcome_readElement_content family key _ left.root, hsame,
      outcome_readElement_content]
  rw [readDocument, readDocument]
  simp only [Traced.outcome_bind, hname, hns]
  split
  · rw [hroot]
  · rfl

end Read

end Epub.Binding
