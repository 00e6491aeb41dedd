/-
Properties of whole trees, and what a tree holds besides its declarations.
-/
import Epub.Xml.Element

namespace Epub.Xml

namespace Element

/-- Every element of the tree has the property. -/
inductive Everywhere (P : Element → Prop) : Element → Prop where
  | intro {e : Element} (hhere : P e)
      (hbelow : ∀ child ∈ e.children, Everywhere P child) : Everywhere P e

namespace Everywhere

variable {P Q : Element → Prop} {e child : Element}

theorem here (heverywhere : e.Everywhere P) : P e := by
  cases heverywhere with
  | intro hhere _ => exact hhere

theorem inside (heverywhere : e.Everywhere P) (hchild : child ∈ e.children) :
    child.Everywhere P := by
  cases heverywhere with
  | intro _ hbelow => exact hbelow child hchild

theorem mono (heverywhere : e.Everywhere P) (himp : ∀ inner, P inner → Q inner) :
    e.Everywhere Q := by
  induction heverywhere with
  | intro hhere _ ih => exact ⟨himp _ hhere, ih⟩

theorem combine (hfirst : e.Everywhere P) (hsecond : e.Everywhere Q) :
    e.Everywhere fun inner => P inner ∧ Q inner := by
  induction hfirst with
  | intro hhere _ ih =>
      exact ⟨⟨hhere, hsecond.here⟩, fun child hchild => ih child hchild (hsecond.inside hchild)⟩

end Everywhere

mutual

/-- Whether every element of a tree has a property can be computed. -/
def decEverywhere (P : Element → Prop) [DecidablePred P] :
    (e : Element) → Decidable (e.Everywhere P)
  | ⟨name, ns, attributes, children, text, declarations⟩ =>
      match (inferInstance : Decidable (P ⟨name, ns, attributes, children, text, declarations⟩)),
        decEverywhereAll P children with
      | isTrue hhere, isTrue hbelow => isTrue ⟨hhere, hbelow⟩
      | isFalse hhere, _ => isFalse fun heverywhere => hhere heverywhere.here
      | _, isFalse hbelow =>
          isFalse fun heverywhere => hbelow fun _ hchild => heverywhere.inside hchild

/-- The same for the trees of a list. -/
def decEverywhereAll (P : Element → Prop) [DecidablePred P] :
    (es : List Element) → Decidable (∀ e ∈ es, e.Everywhere P)
  | [] => isTrue (by simp)
  | head :: tail =>
      match decEverywhere P head, decEverywhereAll P tail with
      | isTrue hhead, isTrue htail => isTrue (List.forall_mem_cons.mpr ⟨hhead, htail⟩)
      | isFalse hhead, _ => isFalse fun hall => hhead (hall head List.mem_cons_self)
      | _, isFalse htail =>
          isFalse fun hall => htail fun e he => hall e (List.mem_cons_of_mem head he)

end

instance (P : Element → Prop) [DecidablePred P] (e : Element) :
    Decidable (e.Everywhere P) :=
  decEverywhere P e

/-- Induction over trees: a property passes from the children to the element. -/
theorem inductionOn {motive : Element → Prop} (e : Element)
    (hstep : ∀ inner : Element,
      (∀ child ∈ inner.children, motive child) → motive inner) : motive e :=
  hstep e fun child _ => inductionOn child hstep
termination_by sizeOf e
decreasing_by exact sizeOf_child_lt ‹_›

mutual

/-- The tree without its declarations. -/
def undeclared : Element → Element
  | ⟨name, ns, attributes, children, text, _⟩ =>
      ⟨name, ns, attributes, undeclaredAll children, text, []⟩

/-- Trees without their declarations. -/
def undeclaredAll : List Element → List Element
  | [] => []
  | e :: rest => e.undeclared :: undeclaredAll rest

end

mutual

/-- What a tree says: declarations are left out, and so are texts without a
character. -/
def content : Element → Element
  | ⟨name, ns, attributes, children, text, _⟩ =>
      ⟨name, ns, attributes, contents children, text.filter (· ≠ ""), []⟩

/-- What trees say. -/
def contents : List Element → List Element
  | [] => []
  | e :: rest => e.content :: contents rest

end

theorem undeclaredAll_eq_map (es : List Element) :
    undeclaredAll es = es.map undeclared := by
  induction es with
  | nil => rfl
  | cons e rest ih => rw [undeclaredAll, ih, List.map_cons]

theorem contents_eq_map (es : List Element) : contents es = es.map content := by
  induction es with
  | nil => rfl
  | cons e rest ih => rw [contents, ih, List.map_cons]

theorem undeclared_eq (e : Element) :
    e.undeclared =
      ⟨e.name, e.ns, e.attributes, e.children.map undeclared, e.text, []⟩ := by
  cases e
  rw [undeclared, undeclaredAll_eq_map]

theorem content_eq (e : Element) :
    e.content = ⟨e.name, e.ns, e.attributes, e.children.map content,
      e.text.filter (· ≠ ""), []⟩ := by
  cases e
  rw [content, contents_eq_map]

@[simp] theorem content_name (e : Element) : e.content.name = e.name := by
  rw [content_eq]

@[simp] theorem content_ns (e : Element) : e.content.ns = e.ns := by
  rw [content_eq]

@[simp] theorem content_attributes (e : Element) :
    e.content.attributes = e.attributes := by
  rw [content_eq]

@[simp] theorem content_children (e : Element) :
    e.content.children = e.children.map content := by
  rw [content_eq]

/-- Without texts that lack a character, only the declarations are left out. -/
theorem content_eq_undeclared {e : Element}
    (htexts : e.Everywhere fun inner => inner.text ≠ some "") :
    e.content = e.undeclared := by
  induction htexts with
  | @intro e hhere _ ih =>
      have htext : e.text.filter (· ≠ "") = e.text := by
        cases hcase : e.text with
        | none => rfl
        | some text =>
            have hne : text ≠ "" := by
              rintro rfl
              exact hhere hcase
            simp [hne]
      rw [content_eq, undeclared_eq, htext, List.map_congr_left ih]

theorem content_undeclared (e : Element) : e.undeclared.content = e.content := by
  induction e using inductionOn with
  | hstep e ih =>
      rw [undeclared_eq, content_eq, content_eq e]
      simp only [List.map_map]
      rw [List.map_congr_left (f := content ∘ undeclared) ih]

theorem content_content (e : Element) : e.content.content = e.content := by
  induction e using inductionOn with
  | hstep e ih =>
      rw [content_eq e.content, content_eq e]
      simp only [List.map_map, Option.filter_filter, Bool.and_self]
      rw [List.map_congr_left (f := content ∘ content) ih]

theorem setIn_of_fresh {key : QName} {attributes : List Attribute}
    (hfresh : ∀ attr ∈ attributes, attr.key ≠ key) (value : String) :
    setIn key value attributes = attributes ++ [⟨key.name, key.ns, value⟩] := by
  induction attributes with
  | nil => rfl
  | cons attr rest ih =>
      rw [setIn, if_neg (hfresh attr List.mem_cons_self),
        ih fun other hother => hfresh other (List.mem_cons_of_mem attr hother)]
      rfl

theorem setIn_of_mem {key : QName} {attributes : List Attribute}
    (hnodup : (attributes.map Attribute.key).Nodup) (hmem : key ∈ attributes.map Attribute.key)
    (value : String) : setIn key value attributes =
      attributes.map fun attr => if attr.key = key then { attr with value } else attr := by
  induction attributes with
  | nil => exact absurd hmem List.not_mem_nil
  | cons head tail ih =>
      rw [List.map_cons, List.nodup_cons] at hnodup
      rw [setIn, List.map_cons]
      by_cases hhead : head.key = key
      · rw [if_pos hhead, if_pos hhead, List.map_congr_left (g := id), List.map_id]
        intro attr hattr
        have hne : attr.key ≠ key := fun heq =>
          hnodup.1 (hhead ▸ heq ▸ List.mem_map_of_mem hattr)
        rw [if_neg hne, id]
      · have htail := (List.mem_cons.mp hmem).resolve_left (Ne.symm hhead)
        rw [if_neg hhead, if_neg hhead, ih hnodup.2 htail]

theorem mem_setIn {key : QName} {value : String} {attributes : List Attribute}
    {attr : Attribute} (hattr : attr ∈ setIn key value attributes) :
    attr.key = key ∨ attr ∈ attributes := by
  induction attributes with
  | nil =>
      rw [setIn, List.mem_singleton] at hattr
      rw [hattr]
      exact Or.inl rfl
  | cons head tail ih =>
      rw [setIn] at hattr
      split at hattr
      · rename_i hhead
        rcases List.mem_cons.mp hattr with rfl | htail
        · exact Or.inl hhead
        · exact Or.inr (List.mem_cons_of_mem head htail)
      · rcases List.mem_cons.mp hattr with rfl | htail
        · exact Or.inr List.mem_cons_self
        · exact (ih htail).imp_right (List.mem_cons_of_mem head)

/-- Setting an attribute keeps the keys apart. -/
theorem nodup_setIn (key : QName) (value : String) {attributes : List Attribute}
    (hnodup : (attributes.map Attribute.key).Nodup) :
    ((setIn key value attributes).map Attribute.key).Nodup := by
  induction attributes with
  | nil => simp [setIn]
  | cons head tail ih =>
      rw [List.map_cons, List.nodup_cons] at hnodup
      rw [setIn]
      split
      · exact List.nodup_cons.mpr hnodup
      · rename_i hhead
        refine List.nodup_cons.mpr ⟨fun hmem => ?_, ih hnodup.2⟩
        obtain ⟨attr, hattr, hkey⟩ := List.mem_map.mp hmem
        rcases mem_setIn hattr with hnew | hold
        · exact hhead (hkey.symm.trans hnew)
        · exact hnodup.1 (hkey ▸ List.mem_map_of_mem hold)

/-- An attribute has the value that was set last. -/
theorem get?_setAttribute_self (e : Element) (key : QName) (value : String) :
    (e.setAttribute key value).get? key = some value := by
  rw [get?, setAttribute]
  dsimp only
  induction e.attributes with
  | nil => simp [setIn, Attribute.key]
  | cons attr rest ih =>
      rw [setIn]
      by_cases hkey : attr.key = key
      · have hsame : ({ attr with value } : Attribute).key = key := hkey
        rw [if_pos hkey, List.find?_cons_of_pos (by simpa using hsame)]
        rfl
      · rw [if_neg hkey, List.find?_cons_of_neg (by simpa using hkey), ih]

/-- Setting an attribute leaves all others as they are. -/
theorem get?_setAttribute_of_ne (e : Element) {key other : QName} (value : String)
    (hne : key ≠ other) : (e.setAttribute key value).get? other = e.get? other := by
  rw [get?, get?, setAttribute]
  dsimp only
  induction e.attributes with
  | nil => simp [setIn, Attribute.key, hne]
  | cons attr rest ih =>
      rw [setIn]
      by_cases hkey : attr.key = key
      · have hsame : ({ attr with value } : Attribute).key ≠ other := hkey ▸ hne
        have hother : attr.key ≠ other := hkey ▸ hne
        rw [if_pos hkey, List.find?_cons_of_neg (by simpa using hsame),
          List.find?_cons_of_neg (by simpa using hother)]
      · rw [if_neg hkey, List.find?_cons, List.find?_cons]
        by_cases hother : attr.key = other
        · simp [hother]
        · simp only [hother, decide_false]
          exact ih

theorem mem_keys_iff {e : Element} {key : QName} :
    key ∈ e.attributes.map Attribute.key ↔ ∃ value, e.get? key = some value := by
  rw [← Option.isSome_iff_exists, get?, Option.isSome_map, List.find?_isSome, List.mem_map]
  simp

theorem get?_filter_self (e : Element) (key : QName) :
    get? { e with attributes := e.attributes.filter (·.key ≠ key) } key = none := by
  simp [get?]

/-- Removing an attribute leaves all others as they are. -/
theorem get?_filter_of_ne (e : Element) {key other : QName} (hne : other ≠ key) :
    get? { e with attributes := e.attributes.filter (·.key ≠ key) } other = e.get? other := by
  rw [get?, get?, List.find?_filter]
  congr 2
  funext attr
  by_cases hattr : attr.key = other <;> simp [hattr, hne]

/-- Declaring prefixes changes nothing else. -/
theorem declareAll_eq (e : Element) (declarations : List NamespaceDecl) :
    e.declareAll declarations =
      { e with declarations := (e.declareAll declarations).declarations } := by
  induction declarations generalizing e with
  | nil =>
      cases e
      rfl
  | cons d rest ih =>
      rw [declareAll, List.foldl_cons]
      change (e.declare d).declareAll rest = _
      rw [ih, declare]
      split <;> rfl

@[simp] theorem declareAll_name (e : Element) (declarations : List NamespaceDecl) :
    (e.declareAll declarations).name = e.name := by
  rw [declareAll_eq]

@[simp] theorem declareAll_ns (e : Element) (declarations : List NamespaceDecl) :
    (e.declareAll declarations).ns = e.ns := by
  rw [declareAll_eq]

@[simp] theorem declareAll_attributes (e : Element) (declarations : List NamespaceDecl) :
    (e.declareAll declarations).attributes = e.attributes := by
  rw [declareAll_eq]

@[simp] theorem declareAll_text (e : Element) (declarations : List NamespaceDecl) :
    (e.declareAll declarations).text = e.text := by
  rw [declareAll_eq]

@[simp] theorem declareAll_children (e : Element) (declarations : List NamespaceDecl) :
    (e.declareAll declarations).children = e.children := by
  rw [declareAll_eq]

end Element

end Epub.Xml
