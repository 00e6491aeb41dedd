/-
The attributes of one start tag.  The reader takes them in one pass, but those that declare
prefixes and the others do not meet there: what it keeps is all the declarations in order, and
the ordinary attributes set one after the other.  So the ordinary ones may be written in any
order, unless two of them resolve to one name.
-/
import Epub.Proofs.Lists
import Epub.Proofs.Xml.StartTag
import Mathlib.Data.List.Perm.Basic

namespace Epub.Xml

namespace RawAttribute

instance : DecidableEq RawAttribute := fun left right =>
  decidable_of_iff
    (left.key = right.key ∧ left.position = right.position ∧ left.value = right.value)
    ⟨fun ⟨hkey, hposition, hvalue⟩ => by
        cases left
        cases right
        simp_all,
      fun hsame => by simp [hsame]⟩

/-- Whether an attribute declares no prefix. -/
def isOrdinary (raw : RawAttribute) : Bool :=
  (declaredLabel? raw.key).isNone

/-- The attribute without the position at which it stands. -/
def unplaced (raw : RawAttribute) : RawAttribute :=
  { raw with position := 0 }

/-- Whether an attribute as written is this attribute under the bindings of its tag. -/
structure Sets (scope : Scope) (raw : RawAttribute) (attr : Attribute) : Prop where
  name : attr.name = String.ofList (RawName.of raw.key).localPart
  ns : scope.resolveAttribute (RawName.of raw.key) = .ok attr.ns
  value : ∃ chars, raw.Means chars attr.value

/-- Whether an attribute as written is this declaration. -/
structure Declares (raw : RawAttribute) (d : NamespaceDecl) : Prop where
  label : ∃ label, declaredLabel? raw.key = some label ∧ d.label = String.ofList (label.getD [])
  value : ∃ chars, raw.Means chars d.uri

variable {scope : Scope} {raw : RawAttribute} {attr : Attribute}

instance (scope : Scope) (raw : RawAttribute) (attr : Attribute) :
    Decidable (raw.Sets scope attr) :=
  decidable_of_iff
    (attr.name = String.ofList (RawName.of raw.key).localPart ∧
      scope.resolveAttribute (RawName.of raw.key) = .ok attr.ns ∧
      ∃ chars ∈ raw.value.toOption, unescape chars = .ok attr.value)
    ⟨fun ⟨hname, hns, chars, hchars, hvalue⟩ =>
        ⟨hname, hns, chars, toOption_eq_some.mp hchars, hvalue⟩,
      fun ⟨hname, hns, chars, hchars, hvalue⟩ =>
        ⟨hname, hns, chars, toOption_eq_some.mpr hchars, hvalue⟩⟩

/-- An attribute as written is at most one attribute. -/
theorem rightUnique_sets (scope : Scope) : Relator.RightUnique (Sets scope) := by
  rintro raw ⟨name, ns, value⟩ ⟨name', ns', value'⟩ ⟨hname, hns, chars, hchars, hvalue⟩
    ⟨hname', hns', chars', hchars', hvalue'⟩
  obtain rfl : chars = chars' := Except.ok.inj (hchars.symm.trans hchars')
  obtain rfl : value = value' := Except.ok.inj (hvalue.symm.trans hvalue')
  obtain rfl : ns = ns' := Except.ok.inj (hns.symm.trans hns')
  obtain rfl : name = name' := hname.trans hname'.symm
  rfl

theorem Sets.exists_value (hsets : raw.Sets scope attr) : ∃ chars, raw.value = .ok chars := by
  obtain ⟨chars, hchars, _⟩ := hsets.value
  exact ⟨chars, hchars⟩

theorem Declares.exists_value {d : NamespaceDecl} (hdeclares : raw.Declares d) :
    ∃ chars, raw.value = .ok chars := by
  obtain ⟨chars, hchars, _⟩ := hdeclares.value
  exact ⟨chars, hchars⟩

theorem sets_unplaced : raw.unplaced.Sets scope attr ↔ raw.Sets scope attr :=
  ⟨fun ⟨hname, hns, hvalue⟩ => ⟨hname, hns, hvalue⟩,
    fun ⟨hname, hns, hvalue⟩ => ⟨hname, hns, hvalue⟩⟩

theorem declares_unplaced {d : NamespaceDecl} : raw.unplaced.Declares d ↔ raw.Declares d :=
  ⟨fun ⟨hlabel, hvalue⟩ => ⟨hlabel, hvalue⟩, fun ⟨hlabel, hvalue⟩ => ⟨hlabel, hvalue⟩⟩

end RawAttribute

/-- The ordinary attributes of a start tag, in order. -/
def ordinaryAttributes (content : List Char) : List RawAttribute :=
  (rawAttributes content).1.filter RawAttribute.isOrdinary

/-- The attributes of a start tag that declare prefixes, in order. -/
def declaringAttributes (content : List Char) : List RawAttribute :=
  (rawAttributes content).1.filter fun raw => !raw.isOrdinary

namespace Element

/-- Attributes set one after the other.  One under the name of an earlier one gives that its
value. -/
def setAll (attributes given : List Attribute) : List Attribute :=
  given.foldl (fun attributes attr => setIn attr.key attr.value attributes) attributes

theorem setAll_of_nodup {attributes given : List Attribute}
    (hnodup : ((attributes ++ given).map Attribute.key).Nodup) :
    setAll attributes given = attributes ++ given := by
  induction given generalizing attributes with
  | nil => exact (List.append_nil attributes).symm
  | cons attr rest ih =>
      have hsplit : attributes ++ attr :: rest = attributes ++ [attr] ++ rest := by simp
      have hfresh : ∀ other ∈ attributes, other.key ≠ attr.key := by
        intro other hother
        rw [List.map_append, List.nodup_append] at hnodup
        exact hnodup.2.2 other.key (List.mem_map_of_mem hother) attr.key
          (List.mem_map_of_mem List.mem_cons_self)
      have hset : setIn attr.key attr.value attributes = attributes ++ [attr] :=
        setIn_of_fresh hfresh attr.value
      rw [setAll, List.foldl_cons, hset]
      rw [hsplit] at hnodup ⊢
      exact ih hnodup

theorem nodup_setAll {attributes : List Attribute}
    (hnodup : (attributes.map Attribute.key).Nodup) (given : List Attribute) :
    ((setAll attributes given).map Attribute.key).Nodup := by
  induction given generalizing attributes with
  | nil => exact hnodup
  | cons attr rest ih => exact ih (nodup_setIn attr.key attr.value hnodup)

/-- Setting attributes loses none of them exactly when they are under different names. -/
theorem setAll_nil_eq_iff {given : List Attribute} :
    setAll [] given = given ↔ (given.map Attribute.key).Nodup := by
  constructor
  · intro hkept
    rw [← hkept]
    have hnone : (([] : List Attribute).map Attribute.key).Nodup := List.nodup_nil
    exact nodup_setAll hnone given
  · intro hnodup
    exact setAll_of_nodup hnodup

/-- The element with declarations and attributes added. -/
def taking (e : Element) (declarations : List NamespaceDecl) (given : List Attribute) :
    Element :=
  { e with
    declarations := e.declarations ++ declarations
    attributes := setAll e.attributes given }

@[simp] theorem taking_nil (e : Element) : e.taking [] [] = e := by
  cases e
  simp [taking, setAll]

theorem taking_taking (e : Element) (declarations others : List NamespaceDecl)
    (given more : List Attribute) :
    (e.taking declarations given).taking others more =
      e.taking (declarations ++ others) (given ++ more) := by
  simp [taking, setAll, List.foldl_append]

end Element

/-- What the reader makes of several attributes in turn. -/
inductive TakesAll (scope : Scope) : Element → List RawAttribute → Element → Prop where
  | nil {e : Element} : TakesAll scope e [] e
  | cons {e next read : Element} {raw : RawAttribute} {rest : List RawAttribute}
      (hfirst : Takes scope e raw next) (hrest : TakesAll scope next rest read) :
      TakesAll scope e (raw :: rest) read

section Taking

variable {scope : Scope} {e next read : Element} {raw : RawAttribute}
  {raws : List RawAttribute}

theorem takesAll_nil_iff : TakesAll scope e [] read ↔ read = e := by
  constructor
  · intro htakes
    cases htakes
    rfl
  · rintro rfl
    exact .nil

theorem takesAll_cons_iff :
    TakesAll scope e (raw :: raws) read ↔
      ∃ next, Takes scope e raw next ∧ TakesAll scope next raws read := by
  constructor
  · intro htakes
    cases htakes with
    | cons hfirst hrest => exact ⟨_, hfirst, hrest⟩
  · rintro ⟨next, hfirst, hrest⟩
    exact .cons hfirst hrest

/-- Attributes are added when each can be taken and no key is used twice. -/
theorem addAttributes_eq_ok {keyFault : Option AttributeFault} {seen : List (List Char × Nat)}
    (hseen : (seen.map Prod.fst).Nodup) :
    addAttributes scope keyFault e seen raws = .ok read ↔
      keyFault = none ∧ (seen.map Prod.fst ++ raws.map RawAttribute.key).Nodup ∧
        TakesAll scope e raws read := by
  induction raws generalizing e seen with
  | nil =>
      rw [addAttributes.eq_def, takesAll_nil_iff]
      cases keyFault with
      | some _ => simp
      | none => simpa [eq_comm] using fun _ => hseen
  | cons raw rest ih =>
      have hsplit : seen.map Prod.fst ++ (raw :: rest).map RawAttribute.key =
          (seen ++ [(raw.key, raw.position)]).map Prod.fst ++ rest.map RawAttribute.key := by
        simp
      have hunseen : seen.lookup raw.key = none ↔ raw.key ∉ seen.map Prod.fst := by
        rw [List.lookup_eq_none_iff]
        simp only [List.mem_map, bne_iff_ne, ne_eq]
        grind
      have hgrown : raw.key ∉ seen.map Prod.fst ↔
          ((seen ++ [(raw.key, raw.position)]).map Prod.fst).Nodup := by
        rw [List.map_append, List.map_singleton, (List.perm_append_singleton _ _).nodup_iff,
          List.nodup_cons]
        exact (and_iff_left hseen).symm
      rw [addAttributes_cons_eq_ok, hsplit, hunseen, takesAll_cons_iff]
      constructor
      · rintro ⟨hnot, next, hfirst, hadd⟩
        obtain ⟨hfault, hnodup, hrest⟩ := (ih (hgrown.mp hnot)).mp hadd
        exact ⟨hfault, hnodup, next, hfirst, hrest⟩
      · rintro ⟨hfault, hnodup, next, hfirst, hrest⟩
        have hnext := (List.nodup_append.mp hnodup).1
        exact ⟨hgrown.mpr hnext, next, hfirst, (ih hnext).mpr ⟨hfault, hnodup, hrest⟩⟩

theorem takes_iff_of_ordinary (hordinary : raw.isOrdinary = true) :
    Takes scope e raw next ↔ ∃ attr, raw.Sets scope attr ∧ next = e.taking [] [attr] := by
  have hlabel : declaredLabel? raw.key = none := Option.isNone_iff_eq_none.mp hordinary
  constructor
  · intro htakes
    cases htakes with
    | declaration hsome _ =>
        rw [hlabel] at hsome
        contradiction
    | @setting chars value ns _ hmeans hns =>
        refine ⟨⟨String.ofList (RawName.of raw.key).localPart, ns, value⟩,
          ⟨rfl, hns, chars, hmeans⟩, ?_⟩
        simp [Element.taking, Element.setAll, Element.setAttribute, Attribute.key]
  · rintro ⟨attr, ⟨hname, hns, chars, hmeans⟩, rfl⟩
    have hset : e.taking [] [attr] =
        e.setAttribute ⟨String.ofList (RawName.of raw.key).localPart, attr.ns⟩ attr.value := by
      simp [Element.taking, Element.setAll, Element.setAttribute, Attribute.key, hname]
    rw [hset]
    exact .setting hlabel hmeans hns

theorem takes_iff_of_declaring (hdeclaring : ¬raw.isOrdinary = true) :
    Takes scope e raw next ↔ ∃ d, raw.Declares d ∧ next = e.taking [d] [] := by
  constructor
  · intro htakes
    cases htakes with
    | setting hnone _ _ => exact absurd (Option.isNone_iff_eq_none.mpr hnone) hdeclaring
    | @declaration label chars value hlabel hmeans =>
        exact ⟨declarationOf label value, ⟨⟨label, hlabel, rfl⟩, chars, hmeans⟩, rfl⟩
  · rintro ⟨⟨shown, uri⟩, ⟨⟨label, hlabel, hshown⟩, chars, hmeans⟩, rfl⟩
    obtain rfl : shown = String.ofList (label.getD []) := hshown
    exact .declaration hlabel hmeans

/-- Declarations and ordinary attributes are taken independently of each other. -/
theorem takesAll_iff :
    TakesAll scope e raws read ↔ ∃ declarations given,
      List.Forall₂ RawAttribute.Declares (raws.filter fun raw => !raw.isOrdinary) declarations ∧
      List.Forall₂ (RawAttribute.Sets scope) (raws.filter RawAttribute.isOrdinary) given ∧
      read = e.taking declarations given := by
  induction raws generalizing e with
  | nil => simp [takesAll_nil_iff]
  | cons raw rest ih =>
      by_cases hordinary : raw.isOrdinary = true
      · rw [takesAll_cons_iff, List.filter_cons_of_pos hordinary,
          List.filter_cons_of_neg (by simp [hordinary])]
        simp only [takes_iff_of_ordinary hordinary, ih, List.forall₂_cons_left_iff]
        constructor
        · rintro ⟨_, ⟨attr, hset, rfl⟩, declarations, given, hdeclares, hsets, rfl⟩
          exact ⟨declarations, attr :: given, hdeclares, ⟨attr, given, hset, hsets, rfl⟩,
            Element.taking_taking ..⟩
        · rintro ⟨declarations, _, hdeclares, ⟨attr, given, hset, hsets, rfl⟩, rfl⟩
          exact ⟨_, ⟨attr, hset, rfl⟩, declarations, given, hdeclares, hsets,
            (Element.taking_taking e [] declarations [attr] given).symm⟩
      · rw [takesAll_cons_iff, List.filter_cons_of_neg hordinary,
          List.filter_cons_of_pos (by simp [hordinary])]
        simp only [takes_iff_of_declaring hordinary, ih, List.forall₂_cons_left_iff]
        constructor
        · rintro ⟨_, ⟨d, hdeclare, rfl⟩, declarations, given, hdeclares, hsets, rfl⟩
          exact ⟨d :: declarations, given, ⟨d, declarations, hdeclare, hdeclares, rfl⟩, hsets,
            Element.taking_taking ..⟩
        · rintro ⟨_, given, ⟨d, declarations, hdeclare, hdeclares, rfl⟩, hsets, rfl⟩
          exact ⟨_, ⟨d, hdeclare, rfl⟩, declarations, given, hdeclares, hsets,
            (Element.taking_taking e [d] declarations [] given).symm⟩

end Taking

section Binding

variable {scope : Scope} {raws : List RawAttribute}

/-- Attributes that declare nothing bind nothing. -/
theorem Scope.bindAll_declaring (hvalues : ∀ raw ∈ raws, ∃ chars, raw.value = .ok chars) :
    scope.bindAll (raws.filter fun raw => !raw.isOrdinary) = scope.bindAll raws := by
  induction raws generalizing scope with
  | nil => rfl
  | cons raw rest ih =>
      obtain ⟨chars, hchars⟩ := hvalues raw List.mem_cons_self
      have hrest : ∀ scope : Scope, scope.bindAll (rest.filter fun raw => !raw.isOrdinary) =
          scope.bindAll rest :=
        fun _ => ih fun other hother => hvalues other (List.mem_cons_of_mem raw hother)
      cases hlabel : declaredLabel? raw.key with
      | none =>
          have hordinary : raw.isOrdinary = true := by simp [RawAttribute.isOrdinary, hlabel]
          rw [List.filter_cons_of_neg (by simp [hordinary]), hrest, bindAll, hchars]
          simp only [hlabel]
      | some label =>
          have hdeclaring : raw.isOrdinary = false := by simp [RawAttribute.isOrdinary, hlabel]
          rw [List.filter_cons_of_pos (by simp [hdeclaring]), bindAll, bindAll, hchars]
          simp only [hlabel, hrest]

theorem Scope.bindAll_unplaced (scope : Scope) (raws : List RawAttribute) :
    scope.bindAll (raws.map RawAttribute.unplaced) = scope.bindAll raws := by
  induction raws generalizing scope with
  | nil => rfl
  | cons raw rest ih =>
      rw [List.map_cons, bindAll, bindAll]
      simp only [RawAttribute.unplaced, ih]

end Binding

/-- What a start tag that is accepted comes to: the bindings inside it, the namespace of its
name, its declarations and its ordinary attributes, both in order. -/
structure Opens (scope : Scope) (content : List Char) (inner : Scope) (ns : Option String)
    (declarations : List NamespaceDecl) (given : List Attribute) : Prop where
  fault : (rawAttributes content).2 = none
  keys : ((rawAttributes content).1.map RawAttribute.key).Nodup
  bind : scope.bindAll (rawAttributes content).1 = .ok inner
  name : inner.resolveElement (RawName.of (tagName content)) = .ok ns
  declares : List.Forall₂ RawAttribute.Declares (declaringAttributes content) declarations
  sets : List.Forall₂ (RawAttribute.Sets inner) (ordinaryAttributes content) given

/-- The element that a start tag opens, with everything that was written set in turn. -/
def openedWith (content : List Char) (inner : Scope) (ns : Option String)
    (declarations : List NamespaceDecl) (given : List Attribute) : OpenElement :=
  ⟨tagName content,
    (Element.empty (String.ofList (RawName.of (tagName content)).localPart) ns).taking
      declarations given, [], [], inner⟩

theorem openElement_eq_ok {scope : Scope} {content : List Char} {o : OpenElement} :
    openElement scope content = .ok o ↔ ∃ inner ns declarations given,
      Opens scope content inner ns declarations given ∧
        o = openedWith content inner ns declarations given := by
  have hadded : ∀ inner e read,
      addAttributes inner (rawAttributes content).2 e [] (rawAttributes content).1 = .ok read ↔
        (rawAttributes content).2 = none ∧
          ((rawAttributes content).1.map RawAttribute.key).Nodup ∧
          ∃ declarations given,
            List.Forall₂ RawAttribute.Declares (declaringAttributes content) declarations ∧
            List.Forall₂ (RawAttribute.Sets inner) (ordinaryAttributes content) given ∧
            read = e.taking declarations given := by
    intro inner e read
    have hnone : (([] : List (List Char × Nat)).map Prod.fst).Nodup := List.nodup_nil
    rw [addAttributes_eq_ok hnone, takesAll_iff]
    rfl
  rw [openElement]
  simp only [bind_eq_ok, mapError_eq_ok, hadded]
  constructor
  · rintro ⟨inner, hbind, ns, hname, _,
      ⟨hfault, hkeys, declarations, given, hdeclares, hsets, rfl⟩, hopened⟩
    exact ⟨inner, ns, declarations, given, ⟨hfault, hkeys, hbind, hname, hdeclares, hsets⟩,
      (Except.ok.inj hopened).symm⟩
  · rintro ⟨inner, ns, declarations, given, hopens, rfl⟩
    exact ⟨inner, hopens.bind, ns, hopens.name, _, ⟨hopens.fault, hopens.keys, declarations,
      given, hopens.declares, hopens.sets, rfl⟩, rfl⟩

/-- Whether an opened element has one attribute for each that is written in its tag, with the
value it has there. -/
def OpenElement.KeepsAttributes (content : List Char) (o : OpenElement) : Prop :=
  List.Forall₂ (RawAttribute.Sets o.scope) (ordinaryAttributes content) o.element.attributes

section Opened

variable {scope : Scope} {content : List Char} {o : OpenElement}

/-- What becomes of the ordinary attributes of a start tag: each stands for an attribute, these
are set in turn, and none is lost exactly when they have different names. -/
theorem attributes_eq_of_openElement (hopen : openElement scope content = .ok o) :
    ∃ given, List.Forall₂ (RawAttribute.Sets o.scope) (ordinaryAttributes content) given ∧
      o.element.attributes = Element.setAll [] given ∧
      (o.KeepsAttributes content ↔ (given.map Attribute.key).Nodup) := by
  obtain ⟨inner, ns, declarations, given, hopens, rfl⟩ := openElement_eq_ok.mp hopen
  refine ⟨given, hopens.sets, rfl, ?_⟩
  have hkept : (openedWith content inner ns declarations given).KeepsAttributes content ↔
      Element.setAll [] given = given := by
    constructor
    · intro hkeeps
      exact List.right_unique_forall₂' (RawAttribute.rightUnique_sets inner) hkeeps
        hopens.sets
    · intro hsame
      rw [← hsame] at hopens
      exact hopens.sets
  exact hkept.trans Element.setAll_nil_eq_iff

end Opened

/-- The values of a tag whose attributes all stand for something are whole. -/
theorem exists_value_of_sets {scope : Scope} {content : List Char}
    {declarations : List NamespaceDecl} {given : List Attribute}
    (hdeclares : List.Forall₂ RawAttribute.Declares (declaringAttributes content) declarations)
    (hsets : List.Forall₂ (RawAttribute.Sets scope) (ordinaryAttributes content) given) :
    ∀ raw ∈ (rawAttributes content).1, ∃ chars, raw.value = .ok chars := by
  intro raw hraw
  by_cases hordinary : raw.isOrdinary = true
  · obtain ⟨_, _, hset⟩ := exists_of_forall₂ hsets (List.mem_filter.mpr ⟨hraw, hordinary⟩)
    exact hset.exists_value
  · have hdeclaring : (!raw.isOrdinary) = true := by simp [hordinary]
    obtain ⟨_, _, hdeclare⟩ :=
      exists_of_forall₂ hdeclares (List.mem_filter.mpr ⟨hraw, hdeclaring⟩)
    exact hdeclare.exists_value

/-- Whether of two start tags the second is the first with its ordinary attributes permuted. -/
structure ShuffledTag (content content' : List Char) : Prop where
  name : tagName content' = tagName content
  declaring : (declaringAttributes content').map RawAttribute.unplaced =
    (declaringAttributes content).map RawAttribute.unplaced
  ordinary : ((ordinaryAttributes content).map RawAttribute.unplaced).Perm
    ((ordinaryAttributes content').map RawAttribute.unplaced)
  fault : (rawAttributes content').2 = (rawAttributes content).2

instance (content content' : List Char) : Decidable (ShuffledTag content content') :=
  decidable_of_iff
    (tagName content' = tagName content ∧
      (declaringAttributes content').map RawAttribute.unplaced =
        (declaringAttributes content).map RawAttribute.unplaced ∧
      ((ordinaryAttributes content).map RawAttribute.unplaced).Perm
        ((ordinaryAttributes content').map RawAttribute.unplaced) ∧
      (rawAttributes content').2 = (rawAttributes content).2)
    ⟨fun ⟨hname, hdeclaring, hordinary, hfault⟩ => ⟨hname, hdeclaring, hordinary, hfault⟩,
      fun h => ⟨h.name, h.declaring, h.ordinary, h.fault⟩⟩

namespace ShuffledTag

variable {scope inner : Scope} {content content' : List Char} {ns : Option String}
  {declarations : List NamespaceDecl} {given : List Attribute} {o : OpenElement}

/-- The same keys are written in both tags. -/
theorem keys_perm (hshuffled : ShuffledTag content content') :
    ((rawAttributes content).1.map RawAttribute.key).Perm
      ((rawAttributes content').1.map RawAttribute.key) := by
  have hkeys : ∀ raws : List RawAttribute,
      raws.map RawAttribute.key = (raws.map RawAttribute.unplaced).map RawAttribute.key := by
    intro raws
    rw [List.map_map]
    rfl
  have hsplit : ∀ content, ((rawAttributes content).1.map RawAttribute.key).Perm
      (((ordinaryAttributes content).map RawAttribute.unplaced).map RawAttribute.key ++
        ((declaringAttributes content).map RawAttribute.unplaced).map RawAttribute.key) := by
    intro content
    rw [← hkeys, ← hkeys, ← List.map_append]
    exact ((List.filter_append_perm _ _).map _).symm
  refine (hsplit content).trans (List.Perm.trans ?_ (hsplit content').symm)
  rw [hshuffled.declaring]
  exact (hshuffled.ordinary.map _).append_right _

/-- What is accepted of the one tag is accepted of the other. -/
theorem opens (hshuffled : ShuffledTag content content')
    (hopens : Opens scope content inner ns declarations given) :
    ∃ given', given.Perm given' ∧ Opens scope content' inner ns declarations given' := by
  have hdeclares : List.Forall₂ RawAttribute.Declares (declaringAttributes content')
      declarations := by
    have hmapped : ∀ raws, List.Forall₂ RawAttribute.Declares
        (raws.map RawAttribute.unplaced) declarations ↔
          List.Forall₂ RawAttribute.Declares raws declarations := by
      intro raws
      rw [List.forall₂_map_left_iff]
      simp only [RawAttribute.declares_unplaced]
    rw [← hmapped, hshuffled.declaring, hmapped]
    exact hopens.declares
  obtain ⟨given', hsets, hperm⟩ : ∃ given',
      List.Forall₂ (RawAttribute.Sets inner) (ordinaryAttributes content') given' ∧
        given'.Perm given := by
    have hmapped : ∀ raws given, List.Forall₂ (RawAttribute.Sets inner)
        (raws.map RawAttribute.unplaced) given ↔
          List.Forall₂ (RawAttribute.Sets inner) raws given := by
      intro raws given
      rw [List.forall₂_map_left_iff]
      simp only [RawAttribute.sets_unplaced]
    obtain ⟨given', hsets, hperm⟩ := List.perm_comp_forall₂ hshuffled.ordinary.symm
      ((hmapped _ _).mpr hopens.sets)
    exact ⟨given', (hmapped _ _).mp hsets, hperm⟩
  -- the bindings come from the declarations alone
  have hbind : scope.bindAll (rawAttributes content').1 = .ok inner := by
    rw [← Scope.bindAll_declaring (exists_value_of_sets hdeclares hsets),
      ← Scope.bindAll_unplaced]
    have hfirst := hopens.bind
    rw [← Scope.bindAll_declaring (exists_value_of_sets hopens.declares hopens.sets),
      ← Scope.bindAll_unplaced] at hfirst
    have hsame := hshuffled.declaring
    rw [declaringAttributes, declaringAttributes] at hsame
    rw [hsame, hfirst]
  refine ⟨given', hperm.symm, hshuffled.fault.trans hopens.fault,
    hshuffled.keys_perm.nodup_iff.mp hopens.keys, hbind, ?_, hdeclares, hsets⟩
  rw [hshuffled.name]
  exact hopens.name

/-- If the first tag loses no attribute, the second opens the same element with the attributes
in another order. -/
theorem openElement (hshuffled : ShuffledTag content content')
    (hopen : openElement scope content = .ok o) (hkeeps : o.KeepsAttributes content) :
    ∃ attributes, o.element.attributes.Perm attributes ∧
      Xml.openElement scope content' = .ok { o with element := { o.element with attributes } } := by
  obtain ⟨inner, ns, declarations, given, hopens, rfl⟩ := openElement_eq_ok.mp hopen
  obtain ⟨given', hperm, hopens'⟩ := hshuffled.opens hopens
  obtain ⟨_, hsets, hset, hkept⟩ := attributes_eq_of_openElement hopen
  obtain rfl := List.right_unique_forall₂' (RawAttribute.rightUnique_sets inner) hsets
    hopens.sets
  have hnodup := hkept.mp hkeeps
  have hnodup' := (hperm.map Attribute.key).nodup_iff.mp hnodup
  refine ⟨Element.setAll [] given', ?_, openElement_eq_ok.mpr
    ⟨inner, ns, declarations, given', hopens', ?_⟩⟩
  · rw [hset, Element.setAll_nil_eq_iff.mpr hnodup, Element.setAll_nil_eq_iff.mpr hnodup']
    exact hperm
  · simp only [openedWith, hshuffled.name]
    rfl

end ShuffledTag

end Epub.Xml
