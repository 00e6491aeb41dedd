/-
Finding what a document holds for a field.  A field reads at most one attribute,
known by its position, so of several attributes that would do the others are left
over; a child is read by its name and namespace.
-/
import Epub.Binding.Family
import Epub.Error

namespace Epub.Binding

open Epub.Schema Epub.Xml

/-- Whether an attribute of an element in `own` is the one a tag asks for. -/
def attributeMatches (name : String) (rule : NamespaceRule) (own : Option String)
    (attr : Attribute) : Bool :=
  attr.name = name && rule.admits own attr.ns

/-- The position of the attribute a tag reads: of the matching ones the first
unqualified, else the first. -/
def attributeIndex? (e : Element) (name : String) (rule : NamespaceRule) : Option Nat :=
  let fits := attributeMatches name rule e.ns
  (e.attributes.findIdx? fun attr => fits attr && attr.ns.isNone).or
    (e.attributes.findIdx? fits)

/-- The attribute a tag reads. -/
def findAttribute? (e : Element) (name : String) (rule : NamespaceRule) :
    Option Attribute :=
  (attributeIndex? e name rule).bind (e.attributes[·]?)

/-- The positions of the attributes that some tag reads. -/
def claimedIndices (e : Element) (tags : List Tag) : List Nat :=
  (tags.filter (·.placement = .attr)).filterMap fun tag =>
    attributeIndex? e tag.name tag.rule

/-- The attributes that no tag reads, in document order. -/
def unclaimedAttributes (e : Element) (tags : List Tag) : List Attribute :=
  let claimed := claimedIndices e tags
  (e.attributes.zipIdx.filter fun (_, index) => index ∉ claimed).map Prod.fst

/-- Attributes under their names; of equal names the last one counts. -/
def OtherAttributes.of (attributes : List Attribute) : OtherAttributes :=
  SortedMap.ofList (attributes.map fun attr => (attr.key, attr.value))

/-- Whether a tag other than the one at `index` takes `child`. -/
def claimedByOther (tags : List Tag) (index : Option Nat) (parent : Option String)
    (child : Element) : Bool :=
  tags.zipIdx.any fun (tag, i) => some i ≠ index && tag.claims parent child

/-- What a document holds for a field.  Items carry the path of the element
they stand in, which may be a wrapper. -/
inductive Located (κ : Type) where
  | text (raw : String)
  | element (e : Element)
  | items (path : String) (found : List Element)
  | variants (path : String) (found : List (κ × Element))
  | overflow (other : OtherAttributes)

namespace Located

variable {κ : Type}

/-- The elements that the field reads. -/
def elements : Located κ → List Element
  | .element e => [e]
  | .items _ found => found
  | .variants _ found => found.map Prod.snd
  | _ => []

/-- Whether nothing was found after all. -/
def isEmpty : Located κ → Bool
  | .items _ found => found.isEmpty
  | .variants _ found => found.isEmpty
  | .overflow other => other.isEmpty
  | _ => false

end Located

/-- The path of a child. -/
def childPath (path : String) (child : Element) : String :=
  path ++ "/" ++ child.name

/-- The only child of this name, unless there are several. -/
def singleChild (path : String) (e : Element) (name : String) (ns : Option String) :
    Except Error (Option Element) :=
  match e.childrenNamed name ns with
  | [] => .ok none
  | [child] => .ok (some child)
  | _ => .error (.decode (.tooManyMatches name path))

variable {κ : Type}

/-- Tell the type of each candidate by its name. -/
def variantsOf (family : Family κ) (types : List κ) (path : String)
    (parent : Option String) (candidates : List Element) :
    Except Error (List (κ × Element)) :=
  candidates.mapM fun child =>
    match types.find? fun type => (family type).descriptor.isVariant parent child with
    | some type => .ok (type, child)
    | none => .error (.decode (.unknownVariant child.name path))

/-- The items of a list under `container`.  Children that a sibling field takes
are no candidates for a list of variants. -/
def itemsUnder (family : Family κ) (typeName : String) (field : FieldDecl κ)
    (tag : Tag) (isSibling : Element → Bool) (path : String) (container : Element) :
    Except Error (Located κ) :=
  match field.kind with
  | .list _ =>
      let ns := tag.rule.effective container.ns
      .ok (.items path (container.childrenNamed tag.itemName ns))
  | .variants types => do
      let candidates := container.children.filter fun child => !isSibling child
      return .variants path (← variantsOf family types path container.ns candidates)
  | _ => .error (.schema (.kindMismatch typeName field.name "a list"))

/-- What the element `e` at `path` holds for the field at `index`. -/
def locate (family : Family κ) (typeName : String) (tags : List Tag) (index : Nat)
    (field : FieldDecl κ) (tag : Tag) (path : String) (e : Element) :
    Except Error (Option (Located κ)) :=
  let ns := tag.rule.effective e.ns
  match tag.placement with
  | .attr => .ok ((findAttribute? e tag.name tag.rule).map fun attr => .text attr.value)
  | .text => .ok (e.ownText?.map .text)
  | .childElement => do
      return (← singleChild path e tag.name ns).map .element
  | .wrappedList => do
      match ← singleChild path e tag.wrapperName ns with
      | none => return none
      | some wrapper =>
          some <$> itemsUnder family typeName field tag (fun _ => false)
            (childPath path wrapper) wrapper
  | .unwrappedList => do
      let isSibling := claimedByOther tags (some index) e.ns
      let located ← itemsUnder family typeName field tag isSibling path e
      return if located.isEmpty then none else some located
  | .overflow =>
      let other := OtherAttributes.of (unclaimedAttributes e tags)
      .ok (if other.isEmpty then none else some (.overflow other))

theorem mem_of_singleChild {path name : String} {e child : Element} {ns : Option String}
    (hchild : singleChild path e name ns = .ok (some child)) :
    child ∈ e.children := by
  simp only [singleChild] at hchild
  split at hchild
  · simp at hchild
  · rename_i only honly
    simp only [Except.ok.injEq, Option.some.injEq] at hchild
    have hmem : child ∈ e.childrenNamed name ns := by simp [honly, hchild]
    exact (List.mem_filter.mp hmem).1
  · simp at hchild

theorem snd_of_variantsOf {family : Family κ} {types : List κ} {path : String}
    {parent : Option String} {candidates : List Element} {items : List (κ × Element)}
    (hitems : variantsOf family types path parent candidates = .ok items) :
    items.map Prod.snd = candidates := by
  induction candidates generalizing items with
  | nil =>
      simp only [variantsOf, List.mapM_nil] at hitems
      cases hitems
      rfl
  | cons head tail ih =>
      simp only [variantsOf, List.mapM_cons] at hitems
      split at hitems
      · rename_i type _
        cases htail : variantsOf family types path parent tail with
        | error error =>
            simp only [variantsOf] at htail
            simp only [htail] at hitems
            cases hitems
        | ok rest =>
            have hrest := ih htail
            simp only [variantsOf] at htail
            simp only [htail] at hitems
            cases hitems
            simp [hrest]
      · cases hitems

theorem mem_of_itemsUnder {family : Family κ} {typeName path : String}
    {field : FieldDecl κ} {tag : Tag} {isSibling : Element → Bool}
    {container child : Element} {located : Located κ}
    (hlocated :
      itemsUnder family typeName field tag isSibling path container = .ok located)
    (hchild : child ∈ located.elements) : child ∈ container.children := by
  simp only [itemsUnder] at hlocated
  split at hlocated
  · cases hlocated
    exact (List.mem_filter.mp hchild).1
  · rename_i types _
    cases hvariants : variantsOf family types path container.ns
        (container.children.filter fun child => !isSibling child) with
    | error error =>
        rw [hvariants] at hlocated
        cases hlocated
    | ok items =>
        rw [hvariants] at hlocated
        cases hlocated
        simp only [Located.elements, snd_of_variantsOf hvariants] at hchild
        exact (List.mem_filter.mp hchild).1
  · cases hlocated

/-- What a field reads lies strictly inside the element. -/
theorem sizeOf_located_lt {family : Family κ} {typeName path : String}
    {tags : List Tag} {index : Nat} {field : FieldDecl κ} {tag : Tag}
    {e child : Element} {located : Located κ}
    (hlocated : locate family typeName tags index field tag path e = .ok (some located))
    (hchild : child ∈ located.elements) : sizeOf child < sizeOf e := by
  simp only [locate] at hlocated
  split at hlocated
  · cases hfound : findAttribute? e tag.name tag.rule <;> rw [hfound] at hlocated <;>
      cases hlocated
    simp [Located.elements] at hchild
  · cases htext : e.ownText? <;> rw [htext] at hlocated <;> cases hlocated
    simp [Located.elements] at hchild
  · cases hsingle : singleChild path e tag.name (tag.rule.effective e.ns) with
    | error error => rw [hsingle] at hlocated; cases hlocated
    | ok found =>
        rw [hsingle] at hlocated
        cases found with
        | none => cases hlocated
        | some inner =>
            cases hlocated
            simp only [Located.elements, List.mem_singleton] at hchild
            subst hchild
            exact Element.sizeOf_child_lt (mem_of_singleChild hsingle)
  · cases hsingle : singleChild path e tag.wrapperName (tag.rule.effective e.ns) with
    | error error => rw [hsingle] at hlocated; cases hlocated
    | ok found =>
        rw [hsingle] at hlocated
        cases found with
        | none => cases hlocated
        | some wrapper =>
            have hwrapper := Element.sizeOf_child_lt (mem_of_singleChild hsingle)
            cases hitems : itemsUnder family typeName field tag (fun _ => false)
                (childPath path wrapper) wrapper with
            | error error =>
                change some <$> itemsUnder family typeName field tag (fun _ => false)
                  (childPath path wrapper) wrapper = _ at hlocated
                rw [hitems] at hlocated
                cases hlocated
            | ok items =>
                change some <$> itemsUnder family typeName field tag (fun _ => false)
                  (childPath path wrapper) wrapper = _ at hlocated
                rw [hitems] at hlocated
                cases hlocated
                exact Nat.lt_trans
                  (Element.sizeOf_child_lt (mem_of_itemsUnder hitems hchild)) hwrapper
  · cases hitems : itemsUnder family typeName field tag
        (claimedByOther tags (some index) e.ns) path e with
    | error error => rw [hitems] at hlocated; cases hlocated
    | ok items =>
        rw [hitems] at hlocated
        simp only [bind, Except.bind, pure, Except.pure, Except.ok.injEq] at hlocated
        split at hlocated
        · cases hlocated
        · cases hlocated
          exact Element.sizeOf_child_lt (mem_of_itemsUnder hitems hchild)
  · split at hlocated <;> cases hlocated
    simp [Located.elements] at hchild

end Epub.Binding
