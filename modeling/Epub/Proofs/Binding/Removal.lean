/-
Removal of what is required.  Where a required field shares with no other field what it
looks for, an element without it is refused as missing it, whatever the fields before it
find; and the error is that of every element around it that could be read before.
-/
import Epub.Proofs.Binding.Fields

namespace Epub.Binding

open Epub.Schema Epub.Xml

variable {κ : Type}

/-- Whether a field looks for an attribute of an element: its tag fits, or it has to have
leftover attributes, and this is one of them. -/
def looksFor (family : Family κ) (key : κ) (field : FieldDecl κ) (e : Element)
    (attr : Attribute) : Bool :=
  match field.placement with
  | .attr => attributeMatches field.tag.name field.rule e.ns attr
  | .overflow => !field.hasDefault && decide (attr ∈ unclaimedAttributes e (family key).tags)
  | _ => false

/-- Whether no other field looks for what the field at `index` looks for in an element. -/
structure StandsAlone (family : Family κ) (key : κ) (index : Nat) (field : FieldDecl κ)
    (e : Element) : Prop where
  attributes : ∀ other bound, (family key).fields[other]? = some bound → other ≠ index →
    ∀ attr ∈ e.attributes, looksFor family key field e attr = true →
      looksFor family key bound.field e attr = false
  children : ∀ other bound, (family key).fields[other]? = some bound → other ≠ index →
    ∀ child ∈ e.children, considers family key index field e.ns child = true →
      considers family key other bound.field e.ns child = false

/-- An element without what the field at `index` looks for. -/
def withoutField (family : Family κ) (key : κ) (index : Nat) (field : FieldDecl κ)
    (e : Element) : Element :=
  { e with
    attributes := e.attributes.filter fun attr => !looksFor family key field e attr
    children := e.children.filter fun child => !considers family key index field e.ns child
    text := if field.placement = .text then none else e.text }

/-- Whether an error says that what a tag stands for is missing at `path`. -/
inductive SaysMissing (tag : Tag) (path : String) : DecodeFault → Prop where
  | attr (hplace : tag.placement = .attr ∨ tag.placement = .overflow) :
      SaysMissing tag path (.missingAttribute tag.missingName path)
  | text (hplace : tag.placement = .text) : SaysMissing tag path (.missingText path)
  | element (hchild : tag.childName? = some tag.missingName) :
      SaysMissing tag path (.missingElement tag.missingName path)

theorem saysMissing (tag : Tag) (path : String) :
    SaysMissing tag path (missing tag path) := by
  rw [missing]
  split
  · rename_i hplace
    have hname : tag.missingName = tag.name := by simp [Tag.missingName, hplace]
    exact hname ▸ .attr (Or.inl hplace)
  · rename_i hplace
    have hname : tag.missingName = tag.name := by simp [Tag.missingName, hplace]
    exact hname ▸ .attr (Or.inr hplace)
  · rename_i hplace
    exact .text hplace
  · apply SaysMissing.element
    cases hplace : tag.placement <;> simp_all [Tag.childName?, Tag.missingName]

section Without

variable {family : Family κ} {key : κ} {index : Nat} {bound : BoundField κ} {e : Element}

/-- The attributes that are left over are those that were, less those that are taken away. -/
theorem unclaimedAttributes_withoutField (hbound : (family key).fields[index]? = some bound)
    (halone : StandsAlone family key index bound.field e) :
    unclaimedAttributes (withoutField family key index bound.field e) (family key).tags =
      (unclaimedAttributes e (family key).tags).filter fun attr =>
        !looksFor family key bound.field e attr := by
  apply unclaimedAttributes_filter
  intro tag htag hattr
  obtain ⟨field, hfield, rfl⟩ := List.mem_map.mp htag
  obtain ⟨other, hother⟩ := List.mem_iff_getElem?.mp hfield
  have hplace : field.field.placement = .attr := hattr
  have hlooks : ∀ attr, looksFor family key field.field e attr =
      attributeMatches field.field.tag.name field.field.tag.rule e.ns attr := by
    intro attr
    simp only [looksFor, hplace]
    rfl
  simp only [← hlooks]
  by_cases hsame : other = index
  · right
    intro attr _ hfits
    obtain rfl : field = bound := Option.some.inj (hother.symm.trans (hsame ▸ hbound))
    rw [hfits]
    rfl
  · left
    intro attr hmem hfits
    by_contra hgone
    have hnot := halone.attributes other field hother hsame attr hmem (by simpa using hgone)
    exact Bool.false_ne_true (hnot.symm.trans hfits)

/-- In a table that makes sense no other field is the text. -/
theorem placement_ne_text {tags : List Tag} (htags : (family key).descriptor.tags = .ok tags)
    (hbound : (family key).fields[index]? = some bound) (htext : bound.field.placement = .text)
    {other : Nat} {field : BoundField κ} (hfield : (family key).fields[other]? = some field)
    (hne : other ≠ index) : field.field.placement ≠ .text := by
  intro hplace
  have hunique := List.pairwise_iff_getElem.mp (Descriptor.text_unique htags)
  have hown : (family key).descriptor.fields[index]? = some bound.field := by
    simp [BoundType.descriptor, hbound]
  have hother : (family key).descriptor.fields[other]? = some field.field := by
    simp [BoundType.descriptor, hfield]
  obtain ⟨hindex, hat⟩ := List.getElem?_eq_some_iff.mp hown
  obtain ⟨hplaced, hat'⟩ := List.getElem?_eq_some_iff.mp hother
  have hfirst := (value_of_text htext).2
  have hsecond := (value_of_text hplace).2
  rw [← hat] at hfirst
  rw [← hat'] at hsecond
  rcases Nat.lt_or_gt_of_ne hne with hlt | hlt
  · exact hunique other index hplaced hindex hlt ⟨hsecond, hfirst⟩
  · exact hunique index other hindex hplaced hlt ⟨hfirst, hsecond⟩

variable [DecidableEq κ]

/-- The field itself finds nothing. -/
theorem readField_withoutField (hbound : (family key).fields[index]? = some bound)
    (hrequired : bound.field.hasDefault = false)
    (halone : StandsAlone family key index bound.field e) (path : String) :
    readField family key path (withoutField family key index bound.field e) index bound =
      .error (.decode (missing bound.field.tag path)) := by
  have habsent : absent bound.field path = .error (.decode (missing bound.field.tag path)) := by
    simp [absent, hrequired]
  rw [← habsent]
  rcases placement_cases bound.field with hplace | hplace | hplace | ⟨name, hname⟩
  · have hnone : findAttribute? (withoutField family key index bound.field e)
        bound.field.tag.name bound.field.rule = none := by
      apply findAttribute?_filter_of_gone
      intro attr _ hfits
      simp [looksFor, hplace, hfits]
    simp only [readField, hplace, hnone]
  · simp [readField, hplace, withoutField, Element.ownText?]
  · have hnone : unclaimedAttributes (withoutField family key index bound.field e)
        (family key).tags = [] := by
      rw [unclaimedAttributes_withoutField hbound halone, List.filter_eq_nil_iff]
      intro attr hattr
      simp [looksFor, hplace, hrequired, hattr]
    simp only [readField, hplace, hnone]
    rfl
  · have hnone : (withoutField family key index bound.field e).children.filter
        (considers family key index bound.field e.ns) = [] := by
      simp [withoutField]
    rw [readField_of_childName? hname, readChildren]
    simp only [withoutField] at hnone ⊢
    rw [hnone]

/-- Any other field that was read still is. -/
theorem exists_readField_withoutField {tags : List Tag}
    (htags : (family key).descriptor.tags = .ok tags)
    (hbound : (family key).fields[index]? = some bound)
    (halone : StandsAlone family key index bound.field e) {other : Nat} {field : BoundField κ}
    (hfield : (family key).fields[other]? = some field) (hne : other ≠ index) {path : String}
    {slot : Option (FieldValue κ)}
    (hread : readField family key path e other field = .ok slot) :
    ∃ slot', readField family key path (withoutField family key index bound.field e) other field =
      .ok slot' := by
  rcases placement_cases field.field with hplace | hplace | hplace | ⟨name, hname⟩
  · have hsame : findAttribute? (withoutField family key index bound.field e)
        field.field.tag.name field.field.rule =
          findAttribute? e field.field.tag.name field.field.rule := by
      apply findAttribute?_filter
      intro attr hattr hfits
      by_contra hgone
      have hnot := halone.attributes other field hfield hne attr hattr (by simpa using hgone)
      simp only [looksFor, hplace, hfits] at hnot
      contradiction
    refine ⟨slot, ?_⟩
    simpa only [readField, hplace, hsame] using hread
  · have hsame : (withoutField family key index bound.field e).text = e.text := by
      apply if_neg
      intro htext
      exact placement_ne_text htags hbound htext hfield hne hplace
    refine ⟨slot, ?_⟩
    simpa only [readField, hplace, Element.ownText?, hsame] using hread
  · by_cases hdefault : field.field.hasDefault = true
    · -- there may be fewer leftover attributes now, but none are needed
      simp only [readField, hplace, absent, hdefault, ↓reduceIte]
      split
      · exact ⟨none, rfl⟩
      · exact ⟨_, rfl⟩
    · have hsame : unclaimedAttributes (withoutField family key index bound.field e)
          (family key).tags = unclaimedAttributes e (family key).tags := by
        rw [unclaimedAttributes_withoutField hbound halone, List.filter_eq_self]
        intro attr hattr
        by_contra hgone
        have hnot := halone.attributes other field hfield hne attr
          (mem_of_mem_unclaimedAttributes hattr) (by simpa using hgone)
        simp [looksFor, hplace, hdefault, hattr] at hnot
      refine ⟨slot, ?_⟩
      simpa only [readField, hplace, hsame] using hread
  · have hsame : (withoutField family key index bound.field e).children.filter
        (considers family key other field.field e.ns) =
          e.children.filter (considers family key other field.field e.ns) := by
      rw [withoutField, List.filter_filter]
      apply List.filter_congr
      intro child hchild
      by_cases hgone : considers family key index bound.field e.ns child = true
      · rw [halone.children other field hfield hne child hchild hgone, Bool.false_and]
      · rw [Bool.eq_false_iff.mpr hgone, Bool.not_false, Bool.and_true]
    refine ⟨slot, ?_⟩
    rw [readField_of_childName? hname] at hread ⊢
    rw [← hread, readChildren, readChildren, ← hsame]
    rfl

end Without

/-- Whether at most one field reads a child.  The items of a list are its own. -/
def ReadOnce (family : Family κ) : Role κ → Element → Element → Prop
  | .value key, e, child => ∀ index index' bound bound' role role',
      (family key).fields[index]? = some bound → (family key).fields[index']? = some bound' →
      Takes family key index bound.field e role child →
      Takes family key index' bound'.field e role' child → index = index'
  | .wrapper _, _, _ => True

/-- Whether of two elements at `place`, read in a role, the second is the first with `inner'`
for `inner`, read as `key` at `path`, where each element on the way is read by one field. -/
inductive Replaces (family : Family κ) (key : κ) (path : String) (inner inner' : Element) :
    Role κ → String → Element → Element → Prop where
  | here : Replaces family key path inner inner' (.value key) path inner inner'
  | inside {role innerRole : Role κ} {place : String} {e child child' : Element}
      {front back : List Element} (hchildren : e.children = front ++ child :: back)
      (hgives : Gives family role e innerRole child) (honce : ReadOnce family role e child)
      (hinner : Replaces family key path inner inner' innerRole (childPath place child)
        child child') :
      Replaces family key path inner inner' role place e
        { e with children := front ++ child' :: back }

section Each

variable {ρ : Type} {tell : Element → Option ρ}
  {read : ρ → String → Element → Except Error (List (Record κ))} {records : List (Record κ)}
  {role : ρ} {path : String} {error : Error} {child child' : Element} {front back : List Element}

/-- Where all children have been read, one that is put in the place of another and cannot be
read is to blame. -/
theorem readEach_of_replaced
    (hread : readEach tell read path (front ++ child :: back) = .ok records)
    (hrole : tell child' = some role)
    (hfail : read role (childPath path child') child' = .error error) :
    readEach tell read path (front ++ child' :: back) = .error error := by
  obtain ⟨told, htold, hrecords⟩ := bind_eq_ok.mp hread
  rw [tellAll_append] at htold
  obtain ⟨before, hbefore, htold⟩ := bind_eq_ok.mp htold
  obtain ⟨after, hafter, htold⟩ := bind_eq_ok.mp htold
  cases Except.ok.inj htold
  -- what was told of the other children is told again
  have hlater : ∃ later, tellAll tell path back = .ok later := by
    rw [tellAll_cons] at hafter
    split at hafter
    · obtain ⟨later, hlater, _⟩ := map_eq_ok.mp hafter
      exact ⟨later, hlater⟩
    · contradiction
  obtain ⟨later, hlater⟩ := hlater
  have htold : tellAll tell path (front ++ child' :: back) =
      .ok (before ++ (role, child') :: later) := by
    rw [tellAll_append, hbefore, tellAll_cons, hrole, hlater]
    rfl
  -- and those in front of the new one are read again
  obtain ⟨parts, hparts, _⟩ := bind_eq_ok.mp hrecords
  rw [List.mapM_append] at hparts
  obtain ⟨first, hfirst, _⟩ := bind_eq_ok.mp hparts
  rw [readEach, htold, ok_bind, List.mapM_append, hfirst, List.mapM_cons, hfail]
  rfl

/-- The same among the children that a filter keeps. -/
theorem readEach_filter_of_replaced {keeps : Element → Bool} (hkept : keeps child = true)
    (hkept' : keeps child' = true)
    (hread : readEach tell read path ((front ++ child :: back).filter keeps) = .ok records)
    (hrole : tell child' = some role)
    (hfail : read role (childPath path child') child' = .error error) :
    readEach tell read path ((front ++ child' :: back).filter keeps) = .error error := by
  rw [List.filter_append, List.filter_cons_of_pos hkept] at hread
  rw [List.filter_append, List.filter_cons_of_pos hkept']
  exact readEach_of_replaced hread hrole hfail

end Each

section Around

variable [DecidableEq κ] {family : Family κ} {key : κ} {path place : String} {error : Error}
  {e child child' : Element} {front back : List Element}

section Fields

variable {index : Nat} {bound : BoundField κ} {role : Role κ} {record : Record κ}
  {slot : Option (FieldValue κ)}

/-- A child that a field considers has been read in some role. -/
theorem exists_takes_of_readField (hread : readField family key place e index bound = .ok slot)
    (hchild : child ∈ e.children)
    (hconsiders : considers family key index bound.field e.ns child = true) :
    ∃ role part, Takes family key index bound.field e role child ∧
      readAs family role (childPath place child) child = .ok part := by
  have hfound : child ∈ e.children.filter (considers family key index bound.field e.ns) :=
    List.mem_filter.mpr ⟨hchild, hconsiders⟩
  obtain ⟨name, hname⟩ := exists_childName?_of_considers hconsiders
  rw [readField_of_childName? hname] at hread
  rcases readChildren_eq_ok hread with ⟨hnil, _⟩ | ⟨records, _, _, hrecords⟩
  · exact absurd hnil (List.ne_nil_of_mem hfound)
  · obtain ⟨role, part, hrole, hpart⟩ := exists_ok_of_readEach hrecords hfound
    exact ⟨role, part, takes_of_considers hchild hconsiders hrole, hpart⟩

/-- A field that does not consider either of two children does not tell them apart. -/
theorem readField_of_replaced (hchildren : e.children = front ++ child :: back)
    (hnot : considers family key index bound.field e.ns child = false)
    (hnot' : considers family key index bound.field e.ns child' = false) :
    readField family key place { e with children := front ++ child' :: back } index bound =
      readField family key place e index bound := by
  have hsame : (front ++ child' :: back).filter (considers family key index bound.field e.ns) =
      e.children.filter (considers family key index bound.field e.ns) := by
    simp [hchildren, List.filter_append, hnot, hnot']
  simp only [readField, readChildren, hsame]
  rfl

/-- The field that reads a child fails with what another one in its place fails with. -/
theorem readField_error_of_replaced (hchildren : e.children = front ++ child :: back)
    (htakes : Takes family key index bound.field e role child)
    (hread : readField family key place e index bound = .ok slot)
    (hsame : elementKey child' = elementKey child)
    (hfail : readAs family role (childPath place child') child' = .error error) :
    readField family key place { e with children := front ++ child' :: back } index bound =
      .error error := by
  have hconsiders := htakes.considers
  have hconsiders' := (considers_congr hsame).trans hconsiders
  have hfound : child ∈ e.children.filter (considers family key index bound.field e.ns) :=
    List.mem_filter.mpr ⟨htakes.mem_children, hconsiders⟩
  obtain ⟨name, hname⟩ := exists_childName?_of_considers hconsiders
  rw [readField_of_childName? hname] at hread ⊢
  rcases readChildren_eq_ok hread with ⟨hnil, _⟩ | ⟨records, _, hsingle, hrecords⟩
  · exact absurd hnil (List.ne_nil_of_mem hfound)
  · rw [hchildren] at hrecords hsingle
    rw [readChildren_of_found, map_eq_error]
    · exact readEach_filter_of_replaced hconsiders hconsiders' hrecords
        ((roleOf?_congr hsame).trans htakes.roleOf?) hfail
    · simp [List.filter_append, hconsiders']
    · intro hplace
      obtain ⟨only, honly⟩ := hsingle hplace
      rw [List.filter_append, List.filter_cons_of_pos hconsiders] at honly
      refine ⟨child', ?_⟩
      rw [List.filter_append, List.filter_cons_of_pos hconsiders']
      rcases List.append_eq_singleton_iff.mp honly with ⟨hfront, hback⟩ | ⟨_, hnil⟩
      · rw [hfront, (List.cons.inj hback).2]
        rfl
      · contradiction

/-- An element is refused for the child that cannot be read. -/
theorem readElement_of_replaced (hfamily : IsBound family key)
    (hread : (readElement family key place e).outcome = .ok record)
    (hchildren : e.children = front ++ child :: back)
    (hbound : (family key).fields[index]? = some bound)
    (htakes : Takes family key index bound.field e role child)
    (honce : ReadOnce family (.value key) e child) (hsame : elementKey child' = elementKey child)
    (hfail : readAs family role (childPath place child') child' = .error error) :
    (readElement family key place { e with children := front ++ child' :: back }).outcome =
      .error error := by
  obtain ⟨_, htags, _, _⟩ := exists_slots_of_readElement hfamily hread
  apply readElement_eq_error_of_first hfamily htags hbound
  · intro other field hlt hfield
    obtain ⟨slot, _, hslot⟩ := exists_slot_of_readElement hfamily hread hfield
    have hnot : considers family key other field.field e.ns child = false := by
      by_contra hconsiders
      rw [Bool.not_eq_false] at hconsiders
      obtain ⟨role', _, htakes', _⟩ :=
        exists_takes_of_readField hslot htakes.mem_children hconsiders
      have hindex := honce other index field bound role' role hfield hbound htakes' htakes
      omega
    refine ⟨slot, ?_⟩
    rw [readField_of_replaced hchildren hnot ((considers_congr hsame).trans hnot), hslot]
  · obtain ⟨slot, _, hslot⟩ := exists_slot_of_readElement hfamily hread hbound
    exact readField_error_of_replaced hchildren htakes hslot hsame hfail

end Fields

/-- Where one element is put in the place of another and cannot be read, that is why nothing
around it can. -/
theorem readAs_of_replaces {inner inner' : Element} {role : Role κ} {e' : Element}
    {records : List (Record κ)} (hreplaces : Replaces family key path inner inner' role place e e')
    (hsame : elementKey inner' = elementKey inner)
    (hfail : readAs family (.value key) path inner' = .error error)
    (hfamily : role.IsBound family) (hread : readAs family role place e = .ok records) :
    elementKey e' = elementKey e ∧ readAs family role place e' = .error error := by
  induction hreplaces generalizing records with
  | here => exact ⟨hsame, hfail⟩
  | @inside role innerRole place e child child' front back hchildren hgives honce _ ih =>
      refine ⟨rfl, ?_⟩
      have hinside := hfamily.inside hgives
      have hpath : ∀ {other : Element}, elementKey other = elementKey child →
          childPath place other = childPath place child := by
        intro other hother
        rw [childPath, childPath, show other.name = child.name from congrArg QName.name hother]
      cases hgives with
      | @item field type _ _ hchild hitem =>
          have hfound : child ∈ e.children.filter (listsItem field e.ns) :=
            List.mem_filter.mpr ⟨hchild, hitem.listsItem⟩
          obtain ⟨type', part, htype, hpart⟩ := exists_ok_of_readEach hread hfound
          rw [hitem.memberType?, Option.some.injEq] at htype
          subst htype
          obtain ⟨hkey, hfails⟩ := ih hinside hpart
          rw [readAs, hchildren] at hread
          rw [← hpath hkey] at hfails
          exact readEach_filter_of_replaced hitem.listsItem
            ((listsItem_congr hkey).trans hitem.listsItem) hread
            ((memberType?_congr hkey).trans hitem.memberType?) hfails
      | @field outer index bound _ _ _ hbound htakes =>
          obtain ⟨record, hrecord, _⟩ := map_eq_ok.mp hread
          obtain ⟨slot, _, hslot⟩ := exists_slot_of_readElement hfamily hrecord hbound
          obtain ⟨role', part, htakes', hpart⟩ :=
            exists_takes_of_readField hslot htakes.mem_children htakes.considers
          have hrole := htakes'.roleOf?
          rw [htakes.roleOf?, Option.some.injEq] at hrole
          subst hrole
          obtain ⟨hkey, hfails⟩ := ih hinside hpart
          rw [← hpath hkey] at hfails
          rw [readAs, readValue, map_eq_error]
          exact readElement_of_replaced hfamily hrecord hchildren hbound htakes honce hkey hfails

end Around

/-- An element that can be read, without what a required field alone looks for, is refused as
missing just that, at its own path, before anything else is found wrong with it.  Any other
element that can be read, and in which it is put in the place of the one it comes from, is
refused with the same error, if each element on the way there is read by one field. -/
theorem readElement_withoutField [DecidableEq κ] {family : Family κ} {key : κ} {path : String}
    {e : Element} {record : Record κ} {index : Nat} {bound : BoundField κ}
    (hfamily : IsBound family key)
    (hread : (readElement family key path e).outcome = .ok record)
    (hbound : (family key).fields[index]? = some bound)
    (hrequired : bound.field.hasDefault = false)
    (halone : StandsAlone family key index bound.field e) :
    ∃ fault, SaysMissing bound.field.tag path fault ∧
      (readElement family key path (withoutField family key index bound.field e)).outcome =
        .error (.decode fault) ∧
      ∀ outerKey outer outer' whole, IsBound family outerKey →
        (readRoot family outerKey outer).outcome = .ok whole →
        Replaces family key path e (withoutField family key index bound.field e)
          (.value outerKey) ("/" ++ outer.name) outer outer' →
        (readRoot family outerKey outer').outcome = .error (.decode fault) := by
  obtain ⟨_, htags, _, _⟩ := exists_slots_of_readElement hfamily hread
  have hfail : (readElement family key path
      (withoutField family key index bound.field e)).outcome =
        .error (.decode (missing bound.field.tag path)) := by
    apply readElement_eq_error_of_first hfamily htags hbound _
      (readField_withoutField hbound hrequired halone path)
    intro other field hlt hfield
    obtain ⟨slot, _, hslot⟩ := exists_slot_of_readElement hfamily hread hfield
    exact exists_readField_withoutField htags hbound halone hfield (Nat.ne_of_lt hlt) hslot
  refine ⟨_, saysMissing bound.field.tag path, hfail, ?_⟩
  intro outerKey outer outer' whole houter hwhole hreplaces
  obtain ⟨hsame, hfails⟩ := readAs_of_replaces hreplaces rfl (map_eq_error.mpr hfail) houter
    (map_eq_ok.mpr ⟨whole, hwhole, rfl⟩)
  have hname : outer'.name = outer.name := congrArg QName.name hsame
  rw [readRoot, hname]
  exact map_eq_error.mp hfails

/-- A section with its label in two spellings. -/
def labelledSection : Element :=
  sectionOf [⟨"label", some "urn:sections", "two"⟩, ⟨"depth", none, "2"⟩, ⟨"label", none, "2"⟩] []

/-- The sections in a section, of which the second one is given. -/
def besides (inner : Element) : Element :=
  innerOf [sectionOf [⟨"label", none, "0"⟩] [], inner]

/-- A section around another one. -/
def sectionAround (inner : Element) : Element :=
  sectionOf [⟨"label", none, "1"⟩] [besides inner]

/-- The label of a section. -/
def sectionLabel : BoundField Unit := .text (FieldDecl.value "label")

theorem replaces_sectionAround (inner : Element) :
    Replaces sections () "/section/inner/section" labelledSection inner (.value ()) "/section"
      (sectionAround labelledSection) (sectionAround inner) := by
  have hconsiders : ∀ index < (sections ()).fields.length, ∀ bound ∈ (sections ()).fields[index]?,
      considers sections () index bound.field (some "urn:sections") (besides labelledSection) =
        true → index = 3 := by decide
  have hthird : ∀ {index : Nat} {bound : BoundField Unit} {role : Role Unit},
      (sections ()).fields[index]? = some bound →
      Takes sections () index bound.field (sectionAround labelledSection) role
        (besides labelledSection) → index = 3 :=
    fun hbound htakes => hconsiders _ (List.getElem?_eq_some_iff.mp hbound).1 _ hbound
      htakes.considers
  have hpath : childPath (childPath "/section" (besides labelledSection)) labelledSection =
      "/section/inner/section" := by decide
  have hitem : Replaces sections () "/section/inner/section" labelledSection inner
      (.wrapper (((FieldDecl.list "inner" ()).wrapped "inner").itemsNamed "section").optional)
      (childPath "/section" (besides labelledSection)) (besides labelledSection)
      (besides inner) := by
    apply @Replaces.inside _ _ _ _ _ _ _ _ _ _ _ _ [_] [] rfl
      (.item (by simp [besides, innerOf]) (.named rfl (by decide))) trivial
    rw [hpath]
    exact .here
  apply @Replaces.inside _ _ _ _ _ _ _ _ _ _ _ _ [] [] rfl _ _ hitem
  · exact .field (rfl : (sections ()).fields[3]? = _)
      (.wrapper rfl (List.mem_singleton_self _) (by decide))
  · intro index index' bound bound' role role' hbound hbound' htakes htakes'
    rw [hthird hbound htakes, hthird hbound' htakes']

theorem readElement_withoutField_label :
    IsBound sections () ∧ StandsAlone sections () 0 sectionLabel.field labelledSection ∧
      withoutField sections () 0 sectionLabel.field labelledSection =
        sectionOf [⟨"depth", none, "2"⟩] [] ∧
      ∃ fault, SaysMissing sectionLabel.field.tag "/section/inner/section" fault ∧
        (readElement sections () "/section/inner/section"
          (sectionOf [⟨"depth", none, "2"⟩] [])).outcome = .error (.decode fault) ∧
        (readRoot sections () (sectionAround (sectionOf [⟨"depth", none, "2"⟩] []))).outcome =
          .error (.decode fault) := by
  have hothers : ∀ other < (sections ()).fields.length, ∀ bound ∈ (sections ()).fields[other]?,
      other ≠ 0 → (∀ attr ∈ labelledSection.attributes,
        looksFor sections () sectionLabel.field labelledSection attr = true →
          looksFor sections () bound.field labelledSection attr = false) ∧
        ∀ child ∈ labelledSection.children,
          considers sections () 0 sectionLabel.field labelledSection.ns child = true →
            considers sections () other bound.field labelledSection.ns child = false := by
    decide
  have halone : StandsAlone sections () 0 sectionLabel.field labelledSection :=
    ⟨fun other bound hbound hne => (hothers other (List.getElem?_eq_some_iff.mp hbound).1 bound
        hbound hne).1,
      fun other bound hbound hne => (hothers other (List.getElem?_eq_some_iff.mp hbound).1 bound
        hbound hne).2⟩
  have hwithout : withoutField sections () 0 sectionLabel.field labelledSection =
      sectionOf [⟨"depth", none, "2"⟩] [] := by decide
  have hlabel : (sections ()).fields[0]? = some sectionLabel := rfl
  obtain ⟨record, hread, _⟩ := exists_ok_of_any (by decide +kernel :
    (readElement sections () "/section/inner/section" labelledSection).outcome.toOption.any
      (fun _ => true) = true)
  obtain ⟨whole, hwhole, _⟩ := exists_ok_of_any (by decide +kernel :
    (readRoot sections () (sectionAround labelledSection)).outcome.toOption.any
      (fun _ => true) = true)
  obtain ⟨fault, hsays, hfail, haround⟩ :=
    readElement_withoutField wellBound_sections.isBound hread hlabel rfl halone
  rw [hwithout] at hfail haround
  exact ⟨wellBound_sections.isBound, halone, hwithout, fault, hsays, hfail,
    haround () _ _ whole wellBound_sections.isBound hwhole (replaces_sectionAround _)⟩

end Epub.Binding
