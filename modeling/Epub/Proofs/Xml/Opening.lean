/-
Opening an element: the start tag of a spelled element gives back the name and the
attributes of the element, and leaves the bindings that its spelling relied on.
-/
import Epub.Proofs.Lists
import Epub.Proofs.Xml.Resolving

namespace Epub.Xml

open Frames

section Attributes

variable {scope : Scope} {e : Element} {seen : List (List Char × Nat)}
  {raw : RawAttribute} {spelling : Spelling} {rest : List RawAttribute}

theorem addAttributes_declaration {label : Option (List Char)}
    (hunseen : seen.lookup spelling.1.toList = none) (hraw : raw.Spells spelling)
    (hlabel : declaredLabel? spelling.1.toList = some label) :
    addAttributes scope none e seen (raw :: rest) =
      addAttributes scope none
        { e with declarations := e.declarations ++ [⟨String.ofList (label.getD []), spelling.2⟩] }
        (seen ++ [(spelling.1.toList, raw.position)]) rest := by
  rw [addAttributes, hraw.1, hraw.2, hunseen]
  simp only [hlabel, Except.mapError, bind, Except.bind, unescape_escape]

theorem addAttributes_attribute {ns : Option String}
    (hunseen : seen.lookup spelling.1.toList = none) (hraw : raw.Spells spelling)
    (hlabel : declaredLabel? spelling.1.toList = none)
    (hns : scope.resolveAttribute (RawName.of spelling.1.toList) = .ok ns) :
    addAttributes scope none e seen (raw :: rest) =
      addAttributes scope none
        (e.setAttribute
          ⟨String.ofList (RawName.of spelling.1.toList).localPart, ns⟩ spelling.2)
        (seen ++ [(spelling.1.toList, raw.position)]) rest := by
  rw [addAttributes, hraw.1, hraw.2, hunseen]
  simp only [hlabel, Except.mapError, bind, Except.bind, unescape_escape, hns]

end Attributes

theorem lookup_append_of_ne {seen : List (List Char × Nat)} {key other : List Char}
    (hseen : seen.lookup other = none) (hne : other ≠ key) (position : Nat) :
    (seen ++ [(key, position)]).lookup other = none := by
  have hnot : (other == key) = false := by simpa using hne
  rw [List.lookup_append, hseen, List.lookup_cons, hnot]
  rfl

/-- Attributes that stand for those of a tree are added in order. -/
theorem addAttributes_of_spells {scope : Scope} {frames : Frames}
    (hagrees : scope.Agrees frames) {spelled : List Spelling} {attributes : List Attribute}
    (hspells : List.Forall₂ (Spells frames) spelled attributes)
    (hnames : ∀ attr ∈ attributes, isNCName attr.name = true)
    (hnss : ∀ attr ∈ attributes, attr.ns ≠ some "")
    (hkeys : ∀ attr ∈ attributes, attr.key ≠ ⟨"xmlns", none⟩)
    {raws : List RawAttribute} (hraws : List.Forall₂ RawAttribute.Spells raws spelled)
    {e : Element} {seen : List (List Char × Nat)}
    (hunseen : ∀ s ∈ spelled, seen.lookup s.1.toList = none)
    (hspelled : (spelled.map Prod.fst).Nodup)
    (hnodup : ((e.attributes ++ attributes).map Attribute.key).Nodup) :
    addAttributes scope none e seen raws =
      .ok { e with attributes := e.attributes ++ attributes } := by
  induction hspells generalizing raws e seen with
  | nil =>
      cases hraws
      cases e
      simp [addAttributes]
  | @cons s attr spelled attributes hs _ ih =>
      obtain ⟨raw, others, hraw, hothers, rfl⟩ := List.forall₂_cons_right_iff.mp hraws
      have hname := hnames attr List.mem_cons_self
      obtain ⟨hlocal, hns⟩ := Scope.resolveAttribute_of_names hagrees hs.1 hname
        (hnss attr List.mem_cons_self)
      have hlabel := declaredLabel?_of_names hs.1 hname (hkeys attr List.mem_cons_self)
      have hfresh : ∀ other ∈ e.attributes, other.key ≠ attr.key := by
        intro other hother heq
        rw [List.map_append, List.nodup_append] at hnodup
        exact hnodup.2.2 _ (List.mem_map_of_mem hother) _
          (List.mem_map_of_mem List.mem_cons_self) heq
      have hset : e.setAttribute
          ⟨String.ofList (RawName.of s.1.toList).localPart, attr.key.ns⟩ s.2 =
            { e with attributes := e.attributes ++ [attr] } := by
        rw [hlocal, String.ofList_toList, hs.2]
        exact congrArg (fun attributes => { e with attributes })
          (Element.setIn_of_fresh hfresh attr.value)
      rw [List.map_cons, List.nodup_cons] at hspelled
      rw [addAttributes_attribute (hunseen s List.mem_cons_self) hraw hlabel hns, hset,
        ih (fun other hother => hnames other (List.mem_cons_of_mem attr hother))
          (fun other hother => hnss other (List.mem_cons_of_mem attr hother))
          (fun other hother => hkeys other (List.mem_cons_of_mem attr hother))
          hothers ?_ hspelled.2 (by simpa using hnodup)]
      · simp
      · intro other hother
        apply lookup_append_of_ne (hunseen other (List.mem_cons_of_mem s hother))
        intro heq
        exact hspelled.1 (String.toList_injective heq ▸ List.mem_map_of_mem hother)

/-- Declarations are recorded in order, and the attributes follow them. -/
theorem addAttributes_of_declarations (scope : Scope) {frame : Frame}
    {spelled : List Spelling} {raws : List RawAttribute}
    (hraws : List.Forall₂ RawAttribute.Spells raws (frame.map spellDeclaration ++ spelled))
    (e : Element) (seen : List (List Char × Nat))
    (hunseen : ∀ s ∈ frame.map spellDeclaration ++ spelled, seen.lookup s.1.toList = none)
    (hnodup : ((frame.map spellDeclaration ++ spelled).map Prod.fst).Nodup) :
    ∃ seen' others, List.Forall₂ RawAttribute.Spells others spelled ∧
      (∀ s ∈ spelled, seen'.lookup s.1.toList = none) ∧
      addAttributes scope none e seen raws =
        addAttributes scope none { e with declarations := e.declarations ++ frame }
          seen' others := by
  induction frame generalizing raws e seen with
  | nil => exact ⟨seen, raws, hraws, hunseen, by cases e; simp⟩
  | cons d rest ih =>
      simp only [List.map_cons, List.cons_append, List.nodup_cons] at hraws hunseen hnodup
      obtain ⟨raw, others, hraw, hothers, rfl⟩ := List.forall₂_cons_right_iff.mp hraws
      have hd : (⟨String.ofList ((if d.label = "" then none else some d.label.toList).getD []),
          (spellDeclaration d).2⟩ : NamespaceDecl) = d := by
        obtain ⟨label, uri⟩ := d
        by_cases hempty : label = ""
        · subst hempty
          rfl
        · simp [spellDeclaration, hempty]
      rw [addAttributes_declaration (hunseen _ List.mem_cons_self) hraw
        (declaredLabel?_spellDeclaration d), hd]
      have hrest := ih hothers { e with declarations := e.declarations ++ [d] }
        (seen ++ [((spellDeclaration d).1.toList, raw.position)]) ?_ hnodup.2
      · simpa using hrest
      · intro s hs
        apply lookup_append_of_ne (hunseen s (List.mem_cons_of_mem _ hs))
        intro heq
        exact hnodup.1 (String.toList_injective heq ▸ List.mem_map_of_mem hs)

theorem nodup_spelledDeclarations {frame : Frame}
    (hframe : (frame.map NamespaceDecl.label).Nodup) :
    ((frame.map spellDeclaration).map Prod.fst).Nodup := by
  let declared := fun label : String => if label = "" then none else some label.toList
  have hdeclared : Function.Injective declared := by
    intro label other heq
    by_cases hlabel : label = "" <;> by_cases hother : other = ""
    · rw [hlabel, hother]
    · simp [declared, hlabel, hother] at heq
    · simp [declared, hlabel, hother] at heq
    · simp only [declared, hlabel, hother, ↓reduceIte, Option.some.injEq] at heq
      exact String.toList_injective heq
  apply List.Nodup.of_map (fun written => declaredLabel? written.toList)
  have hsame : ((frame.map spellDeclaration).map Prod.fst).map
      (fun written => declaredLabel? written.toList) =
        (frame.map NamespaceDecl.label).map (fun label => some (declared label)) := by
    simp only [List.map_map]
    exact List.map_congr_left fun d _ => declaredLabel?_spellDeclaration d
  rw [hsame]
  exact List.Nodup.map (fun _ _ heq => hdeclared (Option.some.inj heq)) hframe

theorem nodup_spelledAttributes {scope : Scope} {frames : Frames}
    (hagrees : scope.Agrees frames) {spelled : List Spelling} {e : Element}
    (hproper : e.HasProperNames) (hspells : List.Forall₂ (Spells frames) spelled e.attributes) :
    (spelled.map Prod.fst).Nodup := by
  -- A spelling determines the key, and the keys differ.
  let resolved := fun written : String =>
    ((RawName.of written.toList).localPart,
      (scope.resolveAttribute (RawName.of written.toList)).toOption)
  let expected := fun key : QName => (key.name.toList, some key.ns)
  have hexpected : Function.Injective expected := by
    intro key other heq
    obtain ⟨hname, hns⟩ := Prod.mk.inj heq
    cases key
    cases other
    rw [QName.mk.injEq]
    exact ⟨String.toList_injective hname, Option.some.inj hns⟩
  have hsame : (spelled.map Prod.fst).map resolved =
      (e.attributes.map Attribute.key).map expected := by
    have hnames := hproper.attribute_name
    have hnss := hproper.attribute_ns
    generalize e.attributes = attributes at hspells hnames hnss
    induction hspells with
    | nil => rfl
    | @cons s attr spelled attributes hs _ ih =>
        obtain ⟨hlocal, hns⟩ := Scope.resolveAttribute_of_names hagrees hs.1
          (hnames attr List.mem_cons_self) (hnss attr List.mem_cons_self)
        have hrest := ih (fun other hother => hnames other (List.mem_cons_of_mem attr hother))
          (fun other hother => hnss other (List.mem_cons_of_mem attr hother))
        have hfirst : resolved s.1 = expected attr.key := by
          simp only [resolved, expected, hlocal, hns, Except.toOption]
        simp only [List.map_cons, hfirst, hrest]
  apply List.Nodup.of_map resolved
  rw [hsame]
  exact List.Nodup.map hexpected hproper.keys_nodup

theorem declaredLabel?_of_spells {frames : Frames} {spelled : List Spelling} {e : Element}
    (hproper : e.HasProperNames) (hspells : List.Forall₂ (Spells frames) spelled e.attributes) :
    ∀ s ∈ spelled, declaredLabel? s.1.toList = none ∧ IsPlain s.1.toList := by
  intro s hs
  obtain ⟨attr, hattr, hspell⟩ := exists_of_forall₂ hspells hs
  have hname := hproper.attribute_name attr hattr
  exact ⟨declaredLabel?_of_names hspell.1 hname (hproper.not_declaration attr hattr),
    isPlain_of_namesAttribute hspell.1 hname⟩

theorem isPlain_spelled {frames : Frames} {frame : Frame} (hframe : frame.IsBindable)
    {spelled : List Spelling} {e : Element} (hproper : e.HasProperNames)
    (hspells : List.Forall₂ (Spells frames) spelled e.attributes) :
    ∀ s ∈ frame.map spellDeclaration ++ spelled, IsPlain s.1.toList := by
  intro s hs
  rcases List.mem_append.mp hs with hs | hs
  · obtain ⟨d, hd, rfl⟩ := List.mem_map.mp hs
    exact (hframe.bindable d hd).isPlain_spell
  · exact (declaredLabel?_of_spells hproper hspells s hs).2

/-- The spellings of all declarations and attributes of an element differ. -/
theorem nodup_spelled {scope : Scope} {frames : Frames} (hagrees : scope.Agrees frames)
    {frame : Frame} (hframe : (frame.map NamespaceDecl.label).Nodup)
    {spelled : List Spelling} {e : Element} (hproper : e.HasProperNames)
    (hspells : List.Forall₂ (Spells frames) spelled e.attributes) :
    ((frame.map spellDeclaration ++ spelled).map Prod.fst).Nodup := by
  rw [List.map_append, List.nodup_append]
  refine ⟨nodup_spelledDeclarations hframe, nodup_spelledAttributes hagrees hproper hspells, ?_⟩
  rintro written hdeclaration _ hattribute rfl
  simp only [List.map_map, List.mem_map, Function.comp_apply] at hdeclaration
  obtain ⟨d, _, rfl⟩ := hdeclaration
  obtain ⟨s, hs, hsame⟩ := List.mem_map.mp hattribute
  have hnone := (declaredLabel?_of_spells hproper hspells s hs).1
  rw [hsame, declaredLabel?_spellDeclaration] at hnone
  contradiction

/-- The tag of a spelled element opens that element, without its children and its
text, and inside it the declarations of the tag are in force. -/
theorem openElement_of_spelled {scope : Scope} {frame : Frame} {frames : Frames}
    (hagrees : scope.Agrees frames) (hframe : frame.IsBindable)
    {e : Element} (hproper : e.HasProperNames) {written : String}
    (hname : NamesElement (frame :: frames) written e.name e.ns) {spelled : List Spelling}
    (hspells : List.Forall₂ (Spells (frame :: frames)) spelled e.attributes) :
    openElement scope (written.toList ++
        (frame.map spellDeclaration ++ spelled).flatMap spellingChars) =
      .ok ⟨written.toList, ⟨e.name, e.ns, e.attributes, [], none, frame⟩, [], [],
        frame.reverse ++ scope⟩ := by
  have hinner := hagrees.append hframe.nodup
  have hspelled := declaredLabel?_of_spells hproper hspells
  have hplain := isPlain_of_namesElement hname hproper.name
  obtain ⟨raws, hraws, hforall⟩ :=
    rawAttributes_append hplain (isPlain_spelled hframe hproper hspells)
  have hbind := Scope.bindAll_of_spells hframe.bindable (fun s hs => (hspelled s hs).1) hforall
    scope
  obtain ⟨hlocal, hns⟩ := Scope.resolveElement_of_names hinner hname hproper.name hproper.ns
  have hnodup := nodup_spelled hinner hframe.nodup hproper hspells
  obtain ⟨seen, others, hothers, hunseen, hdeclared⟩ := addAttributes_of_declarations
    (frame.reverse ++ scope) hforall (Element.empty e.name e.ns) [] (fun _ _ => rfl) hnodup
  have hadded := addAttributes_of_spells hinner hspells hproper.attribute_name
    hproper.attribute_ns hproper.not_declaration hothers hunseen
    (nodup_spelledAttributes hinner hproper hspells)
    (e := { Element.empty e.name e.ns with declarations := frame })
    (by simpa [Element.empty] using hproper.keys_nodup)
  simp only [openElement, tagName_append _ hplain, hraws, hbind, hlocal, hns,
    Except.mapError, bind, Except.bind, String.ofList_toList, hdeclared]
  simp only [Element.empty, List.nil_append] at hadded ⊢
  rw [hadded]
  rfl

end Epub.Xml
