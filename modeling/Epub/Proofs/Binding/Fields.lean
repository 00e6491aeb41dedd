/-
What a field reads.  A field finds one attribute, the text, the leftover attributes, or the
children that it considers; what it makes of an element depends on these alone.
-/
import Epub.Proofs.Binding.Roles

namespace Epub.Binding

open Epub.Schema Epub.Xml

variable {κ : Type}

/-- Whether the fields of every type that is reached from `key` are taken as their kinds
ask. -/
def IsBound (family : Family κ) (key : κ) : Prop :=
  ∀ type, Includes family key type →
    ∀ bound ∈ (family type).fields, bound.accessor.Fits bound.field.kind

theorem WellBound.isBound {family : Family κ} {key : κ} (hfamily : WellBound family key) :
    IsBound family key :=
  fun type hincludes => (hfamily type hincludes).fits

theorem IsBound.here {family : Family κ} {key : κ} (hfamily : IsBound family key) :
    ∀ bound ∈ (family key).fields, bound.accessor.Fits bound.field.kind :=
  hfamily key .here

theorem IsBound.inside {family : Family κ} {key member : κ} {bound : BoundField κ}
    (hfamily : IsBound family key) (hbound : bound ∈ (family key).fields)
    (hmember : member ∈ bound.field.kind.types) : IsBound family member :=
  fun type hincludes => hfamily type (Includes.trans (.inside .here hbound hmember) hincludes)

/-- Whether all types that are reached from a role are taken as their kinds ask.  Only a
list has a wrapper. -/
def Role.IsBound (family : Family κ) : Role κ → Prop
  | .value key => Binding.IsBound family key
  | .wrapper field =>
      field.kind.isList = true ∧ ∀ type ∈ field.kind.types, Binding.IsBound family type

theorem Role.IsBound.inside {family : Family κ} {role inner : Role κ} {e child : Element}
    (hfamily : role.IsBound family) (hgives : Gives family role e inner child) :
    inner.IsBound family := by
  cases hgives with
  | item _ hitem => exact hfamily.2 _ hitem.type_mem
  | field hbound htakes =>
      have hmem := List.mem_of_getElem? hbound
      cases htakes with
      | element hkind _ _ =>
          exact Binding.IsBound.inside hfamily hmem (by simp [hkind, FieldKind.types])
      | wrapper hplace _ _ =>
          exact ⟨(list_of_wrapped hplace).1,
            fun type htype => Binding.IsBound.inside hfamily hmem htype⟩
      | item _ _ _ hitem => exact Binding.IsBound.inside hfamily hmem hitem.type_mem

/-- Tell as what each child is read.  One of which this cannot be told is refused. -/
def tellAll {ρ : Type} (tell : Element → Option ρ) (path : String) (found : List Element) :
    Except Error (List (ρ × Element)) :=
  found.mapM fun child =>
    match tell child with
    | some role => .ok (role, child)
    | none => .error (.decode (.unknownVariant child.name path))

/-- Read children one by one, once it is told as what each of them is read. -/
def readEach {ρ : Type} (tell : Element → Option ρ)
    (read : ρ → String → Element → Except Error (List (Record κ))) (path : String)
    (found : List Element) : Except Error (List (Record κ)) := do
  let told ← tellAll tell path found
  let records ← told.mapM fun item => read item.1 (childPath path item.2) item.2
  return records.flatten

/-- The value of a field that has read these records. -/
def collect (kind : FieldKind κ) (records : List (Record κ)) : FieldValue κ :=
  match kind, records with
  | .element _, [record] => .element record
  | _, _ => .list records

/-- What becomes of a field that finds nothing. -/
def absent (field : FieldDecl κ) (path : String) : Except Error (Option (FieldValue κ)) :=
  if field.hasDefault then .ok none else .error (.decode (missing field.tag path))

/-- Read the text of a scalar as the field takes it. -/
def readText (bound : BoundField κ) (path raw : String) : Except Error (FieldValue κ) :=
  match bound.accessor with
  | .value type => (readScalar bound.field.tag path type raw).map .scalar
  | _ => .ok (.scalar (.string raw))

section Definitions

variable [DecidableEq κ]

/-- Read an element as a value. -/
def readValue (family : Family κ) (type : κ) (path : String) (e : Element) :
    Except Error (List (Record κ)) :=
  (readElement family type path e).outcome.map fun record => [record]

/-- Read an element in its role. -/
def readAs (family : Family κ) (role : Role κ) (path : String) (e : Element) :
    Except Error (List (Record κ)) :=
  match role with
  | .value type => readValue family type path e
  | .wrapper field =>
      readEach (memberType? family field e.ns) (readValue family) path
        (e.children.filter (listsItem field e.ns))

/-- Read the children that a field considers.  Only a list without a wrapper may have
several. -/
def readChildren (family : Family κ) (key : κ) (path : String) (e : Element) (index : Nat)
    (bound : BoundField κ) : Except Error (Option (FieldValue κ)) :=
  match e.children.filter (considers family key index bound.field e.ns) with
  | [] => absent bound.field path
  | first :: rest =>
      if rest ≠ [] ∧ bound.field.placement ≠ .unwrappedList then
        .error (.decode (.tooManyMatches bound.field.tag.missingName path))
      else
        (readEach (roleOf? family bound.field e.ns) (readAs family) path (first :: rest)).map
          fun records => some (collect bound.field.kind records)

/-- Read what the field at `index` finds, by where it lives. -/
def readField (family : Family κ) (key : κ) (path : String) (e : Element) (index : Nat)
    (bound : BoundField κ) : Except Error (Option (FieldValue κ)) :=
  match bound.field.placement with
  | .attr =>
      match findAttribute? e bound.field.tag.name bound.field.rule with
      | none => absent bound.field path
      | some attr => (readText bound path attr.value).map some
  | .text =>
      match e.ownText? with
      | none => absent bound.field path
      | some raw => (readText bound path raw).map some
  | .overflow =>
      let other := OtherAttributes.of (unclaimedAttributes e (family key).tags)
      if other.isEmpty then absent bound.field path else .ok (some (.overflow other))
  | _ => readChildren family key path e index bound

omit [DecidableEq κ] in
/-- Whatever lives in none of the attributes and not in the text lives in children. -/
theorem placement_cases (field : FieldDecl κ) :
    field.placement = .attr ∨ field.placement = .text ∨ field.placement = .overflow ∨
      ∃ name, field.tag.childName? = some name := by
  cases hplace : field.placement <;> simp [Tag.childName?, FieldDecl.tag, hplace]

/-- A field with a name for children reads those. -/
theorem readField_of_childName? {family : Family κ} {key : κ} {path : String} {e : Element}
    {index : Nat} {bound : BoundField κ} {name : String}
    (hname : bound.field.tag.childName? = some name) :
    readField family key path e index bound = readChildren family key path e index bound := by
  cases hplace : bound.field.placement <;>
    simp_all [readField, Tag.childName?, FieldDecl.tag]

end Definitions

theorem outcome_of_readValue [DecidableEq κ] {family : Family κ} {type : κ} {path : String}
    {e e' : Element} (hsame : readValue family type path e' = readValue family type path e) :
    (readElement family type path e').outcome = (readElement family type path e).outcome :=
  map_injective (fun _ _ hsingle => List.singleton_injective hsingle) hsame

section Each

variable {ρ σ : Type} {tell : Element → Option ρ}
  {read : ρ → String → Element → Except Error (List (Record κ))} {path : String}

theorem tellAll_cons (child : Element) (rest : List Element) :
    tellAll tell path (child :: rest) =
      match tell child with
      | some role => (tellAll tell path rest).map ((role, child) :: ·)
      | none => .error (.decode (.unknownVariant child.name path)) := by
  rw [tellAll, List.mapM_cons]
  cases tell child with
  | none => rfl
  | some role =>
      rw [← tellAll]
      cases tellAll tell path rest <;> rfl

theorem tellAll_append (front back : List Element) :
    tellAll tell path (front ++ back) = do
      return (← tellAll tell path front) ++ (← tellAll tell path back) :=
  List.mapM_append

/-- What can be told of each child can be told of all of them. -/
theorem tellAll_of_forall {found : List Element} {role : ρ}
    (htell : ∀ child ∈ found, tell child = some role) :
    tellAll tell path found = .ok (found.map fun child => (role, child)) := by
  induction found with
  | nil => rfl
  | cons child rest ih =>
      have hrest := ih fun other hother => htell other (List.mem_cons_of_mem child hother)
      rw [tellAll_cons, htell child List.mem_cons_self, hrest]
      rfl

theorem tellAll_map (f : ρ → σ) (found : List Element) :
    tellAll (fun child => (tell child).map f) path found =
      (tellAll tell path found).map (List.map fun item => (f item.1, item.2)) := by
  induction found with
  | nil => rfl
  | cons child rest ih =>
      rw [tellAll_cons, tellAll_cons, ih]
      cases tell child with
      | none => rfl
      | some role => cases tellAll tell path rest <;> rfl

theorem readEach_map (f : ρ → σ)
    (read : σ → String → Element → Except Error (List (Record κ))) (found : List Element) :
    readEach (fun child => (tell child).map f) read path found =
      readEach tell (fun role => read (f role)) path found := by
  rw [readEach, readEach, tellAll_map]
  cases tellAll tell path found with
  | error error => rfl
  | ok told =>
      rw [Except.map, ok_bind, ok_bind, List.mapM_map]
      rfl

theorem readEach_singleton {child : Element} {role : ρ} (htell : tell child = some role) :
    readEach tell read path [child] = read role (childPath path child) child := by
  rw [readEach, tellAll_cons, htell]
  cases hread : read role (childPath path child) child with
  | error error => simp [tellAll, Except.map, hread, bind, Except.bind, pure, Except.pure]
  | ok records => simp [tellAll, Except.map, hread, bind, Except.bind, pure, Except.pure]

/-- What is told of children is read, part by part, when each child is told and read. -/
theorem exists_told_iff {found : List Element} {parts : List (List (Record κ))} :
    (∃ told, tellAll tell path found = .ok told ∧ List.Forall₂
      (fun item part => read item.1 (childPath path item.2) item.2 = .ok part) told parts) ↔
    List.Forall₂ (fun child part => ∃ role, tell child = some role ∧
      read role (childPath path child) child = .ok part) found parts := by
  induction found generalizing parts with
  | nil =>
      constructor
      · rintro ⟨told, htold, hread⟩
        cases Except.ok.inj htold
        cases hread
        exact .nil
      · intro hread
        cases hread
        exact ⟨[], rfl, .nil⟩
  | cons child rest ih =>
      rw [tellAll_cons, List.forall₂_cons_left_iff]
      constructor
      · rintro ⟨told, htold, hread⟩
        split at htold
        · rename_i role hrole
          obtain ⟨others, hothers, rfl⟩ := map_eq_ok.mp htold
          obtain ⟨part, parts', hpart, hrest, rfl⟩ := List.forall₂_cons_left_iff.mp hread
          exact ⟨part, parts', ⟨role, hrole, hpart⟩, ih.mp ⟨others, hothers, hrest⟩, rfl⟩
        · contradiction
      · rintro ⟨part, parts', ⟨role, hrole, hpart⟩, hrest, rfl⟩
        obtain ⟨others, hothers, hread⟩ := ih.mpr hrest
        exact ⟨(role, child) :: others, by rw [hrole, hothers]; rfl, .cons hpart hread⟩

/-- Children are read when it can be told as what, and each of them is. -/
theorem readEach_eq_ok_iff {found : List Element} {records : List (Record κ)} :
    readEach tell read path found = .ok records ↔
      ∃ parts, List.Forall₂ (fun child part => ∃ role, tell child = some role ∧
        read role (childPath path child) child = .ok part) found parts ∧
        parts.flatten = records := by
  simp only [← exists_told_iff, readEach, bind_eq_ok, mapM_eq_ok_iff]
  constructor
  · rintro ⟨told, htold, parts, hread, hrecords⟩
    exact ⟨parts, ⟨told, htold, hread⟩, Except.ok.inj hrecords⟩
  · rintro ⟨parts, ⟨told, htold, hread⟩, rfl⟩
    exact ⟨told, htold, parts, hread, rfl⟩

/-- Each of the children has then been read in some role. -/
theorem exists_ok_of_readEach {found : List Element} {child : Element}
    {records : List (Record κ)} (hread : readEach tell read path found = .ok records)
    (hchild : child ∈ found) :
    ∃ role part, tell child = some role ∧ read role (childPath path child) child = .ok part := by
  obtain ⟨parts, hparts, _⟩ := readEach_eq_ok_iff.mp hread
  obtain ⟨part, _, role, hrole, hpart⟩ := exists_of_forall₂ hparts hchild
  exact ⟨role, part, hrole, hpart⟩

end Each

/-- Items that are read one by one, and gathered as they come. -/
theorem mapM_flatten {α β ε : Type} (f : α → Except ε β) (as : List α) :
    (do return (← as.mapM fun a => (f a).map fun b => [b]).flatten) = as.mapM f := by
  induction as with
  | nil => rfl
  | cons a rest ih =>
      rw [List.mapM_cons, List.mapM_cons, ← ih]
      cases f a with
      | error fault => rfl
      | ok b => cases (rest.mapM fun a => (f a).map fun b => [b]) <;> rfl

section Items

variable {family : Family κ} {typeName path : String} {key : κ} {index : Nat}
  {bound : BoundField κ} {e : Element}

/-- The elements that a list under `container` has to read. -/
def candidates (field : FieldDecl κ) (isSibling : Element → Bool) (container : Element) :
    List Element :=
  match field.kind with
  | .list _ => container.childrenNamed field.tag.itemName (field.rule.effective container.ns)
  | _ => container.children.filter fun child => !isSibling child

theorem candidates_of_wrapped (field : FieldDecl κ) (wrapper : Element) :
    candidates field (fun _ => false) wrapper =
      wrapper.children.filter (listsItem field wrapper.ns) := by
  rw [candidates]
  unfold listsItem
  cases field.kind <;> rfl

theorem candidates_of_unwrapped (hplace : bound.field.placement = .unwrappedList) :
    candidates bound.field (claimedByOther (family key).tags (some index) e.ns) e =
      e.children.filter (considers family key index bound.field e.ns) := by
  obtain ⟨hlist, hwrapper⟩ := list_of_unwrapped hplace
  unfold considers
  cases hkind : bound.field.kind with
  | list type =>
      have hrest : bound.field.takesRest = false := by simp [FieldDecl.takesRest, hkind]
      simp only [candidates, hkind, hrest, Element.childrenNamed, Tag.claims, Tag.childName?,
        FieldDecl.tag, hplace, Option.any_some]
      rfl
  | variants types =>
      simp only [candidates, hkind, takesRest_of_unwrapped hplace hkind, ↓reduceIte]
  | value => simp [hkind, FieldKind.isList] at hlist
  | element type => simp [hkind, FieldKind.isList] at hlist
  | overflow => simp [hkind, FieldKind.isList] at hlist

/-- What is found is empty if there is nothing to read. -/
theorem isEmpty_of_itemsUnder (family : Family κ) (typeName path : String)
    (hlist : bound.field.kind.isList = true) (isSibling : Element → Bool) (container : Element)
    (located : Located κ)
    (hitems : itemsUnder family typeName bound.field bound.field.tag isSibling path container =
      .ok located) :
    located.isEmpty = (candidates bound.field isSibling container).isEmpty := by
  cases hkind : bound.field.kind with
  | list type =>
      rw [itemsUnder_list hkind] at hitems
      cases Except.ok.inj hitems
      rw [candidates, hkind]
      rfl
  | variants types =>
      rw [itemsUnder_variants hkind rfl] at hitems
      obtain ⟨found, hfound, rfl⟩ := map_eq_ok.mp hitems
      have hcandidates : (candidates bound.field isSibling container) = found.map Prod.snd := by
        rw [candidates, hkind, snd_of_variantsOf hfound]
      rw [hcandidates, List.isEmpty_map]
      rfl
  | value => simp [hkind, FieldKind.isList] at hlist
  | element type => simp [hkind, FieldKind.isList] at hlist
  | overflow => simp [hkind, FieldKind.isList] at hlist

theorem collect_of_list {kind : FieldKind κ} (hlist : kind.isList = true)
    (records : List (Record κ)) : collect kind records = .list records := by
  cases kind <;> simp_all [collect, FieldKind.isList]

variable [DecidableEq κ]

theorem readEach_of_list {type : κ} (hkind : bound.field.kind = .list type)
    (parent : Option String) (found : List Element) :
    readEach (memberType? family bound.field parent) (readValue family) path found =
      found.mapM fun item => (readElement family type (childPath path item) item).outcome := by
  have htell : ∀ child ∈ found, memberType? family bound.field parent child = some type := by
    intro child _
    simp [memberType?, hkind]
  rw [readEach, tellAll_of_forall htell, ok_bind, List.mapM_map]
  exact mapM_flatten _ found

theorem readEach_of_variants {types : List κ} (hkind : bound.field.kind = .variants types)
    (parent : Option String) (found : List Element) :
    readEach (memberType? family bound.field parent) (readValue family) path found =
      variantsOf family types path parent found >>= fun told => told.mapM fun pair =>
        (readElement family pair.1 (childPath path pair.2) pair.2).outcome := by
  have hmember : memberType? family bound.field parent = fun child =>
      types.find? fun type => (family type).descriptor.isVariant parent child := by
    funext child
    simp only [memberType?, hkind]
  have htell : tellAll (memberType? family bound.field parent) path found =
      variantsOf family types path parent found := by
    rw [hmember]
    rfl
  rw [readEach, htell]
  congr 1
  funext told
  exact mapM_flatten _ told

/-- A list is found and taken by reading its items. -/
theorem take_itemsUnder (family : Family κ) (typeName path outer : String)
    (hfits : bound.accessor.Fits bound.field.kind) (hlist : bound.field.kind.isList = true)
    (isSibling : Element → Bool) (container : Element) :
    (itemsUnder family typeName bound.field bound.field.tag isSibling path container >>=
      fun located => (take typeName bound.field.tag outer bound.accessor located
        fun child _ key path => readElement family key path child).outcome) =
      (readEach (memberType? family bound.field container.ns) (readValue family) path
        (candidates bound.field isSibling container)).map .list := by
  cases hkind : bound.field.kind with
  | list type =>
      have haccessor : bound.accessor = .list type := hfits.eq_list hkind
      rw [itemsUnder_list hkind, ok_bind, haccessor, take_list, Traced.outcome_map,
        Traced.outcome_mapM, readEach_of_list hkind, candidates, hkind]
  | variants types =>
      obtain ⟨types', haccessor, hsame⟩ := hfits.exists_variants hkind
      rw [itemsUnder_variants hkind rfl, readEach_of_variants hkind, candidates, hkind]
      cases hfound : variantsOf family types path container.ns
          (container.children.filter fun child => !isSibling child) with
      | error error => rfl
      | ok told =>
          rw [Except.map, ok_bind, ok_bind, haccessor, take_variants, Traced.outcome_map,
            Traced.outcome_mapM]
          congr 1
          refine mapM_congr fun pair hpair => ?_
          obtain ⟨_, htype⟩ := find?_of_variantsOf hfound pair hpair
          rw [if_pos ((hsame pair.1).mpr (List.mem_of_find?_eq_some htype))]
  | value => simp [hkind, FieldKind.isList] at hlist
  | element type => simp [hkind, FieldKind.isList] at hlist
  | overflow => simp [hkind, FieldKind.isList] at hlist

end Items

section Read

variable {family : Family κ} {path : String} {key : κ} {index : Nat} {bound : BoundField κ}
  {e : Element} {slot : Option (FieldValue κ)} {records : List (Record κ)}

theorem absent_eq_ok (habsent : absent bound.field path = .ok slot) :
    slot = none ∧ bound.field.hasDefault = true := by
  rw [absent] at habsent
  by_cases hdefault : bound.field.hasDefault = true
  · rw [if_pos hdefault] at habsent
    exact ⟨(Except.ok.inj habsent).symm, hdefault⟩
  · rw [if_neg hdefault] at habsent
    contradiction

/-- A text is read as a scalar. -/
theorem exists_scalar_of_readText {raw : String} {value : FieldValue κ}
    (hread : readText bound path raw = .ok value) : ∃ scalar, value = .scalar scalar := by
  rw [readText] at hread
  split at hread
  · obtain ⟨scalar, _, hvalue⟩ := map_eq_ok.mp hread
    exact ⟨scalar, hvalue.symm⟩
  · exact ⟨_, (Except.ok.inj hread).symm⟩

/-- Whatever was read is collected. -/
theorem slotMembers_collect (kind : FieldKind κ) (records : List (Record κ)) :
    slotMembers (some (collect kind records)) = records := by
  unfold collect
  split <;> rfl

theorem slotOther_collect (kind : FieldKind κ) (records : List (Record κ)) :
    slotOther (some (collect kind records)) = SortedMap.empty := by
  unfold collect
  split <;> rfl

theorem mem_types_of_memberType? {field : FieldDecl κ} {parent : Option String}
    {child : Element} {type : κ} (hmember : memberType? family field parent child = some type) :
    type ∈ field.kind.types := by
  rw [memberType?] at hmember
  split at hmember
  · rename_i hkind
    simpa [hkind, FieldKind.types] using hmember.symm
  · rename_i hkind
    simpa [hkind, FieldKind.types] using hmember.symm
  · rename_i types hkind
    simpa [hkind, FieldKind.types] using List.mem_of_find?_eq_some hmember
  · contradiction

variable [DecidableEq κ]

/-- Children that are read are collected; without any the field has to have a default. -/
theorem readChildren_eq_ok (hread : readChildren family key path e index bound = .ok slot) :
    (e.children.filter (considers family key index bound.field e.ns) = [] ∧ slot = none ∧
      bound.field.hasDefault = true) ∨
    ∃ records, slot = some (collect bound.field.kind records) ∧
      (bound.field.placement ≠ .unwrappedList →
        ∃ child, e.children.filter (considers family key index bound.field e.ns) = [child]) ∧
      readEach (roleOf? family bound.field e.ns) (readAs family) path
        (e.children.filter (considers family key index bound.field e.ns)) = .ok records := by
  rw [readChildren] at hread
  split at hread
  · rename_i hnil
    exact Or.inl ⟨hnil, absent_eq_ok hread⟩
  · rename_i first rest hfound
    split at hread
    · contradiction
    · rename_i hmany
      obtain ⟨records, hrecords, hslot⟩ := map_eq_ok.mp hread
      refine Or.inr ⟨records, hslot.symm, fun hplace => ⟨first, ?_⟩, hfound ▸ hrecords⟩
      rw [hfound, by_contra fun hrest => hmany ⟨hrest, hplace⟩]

/-- Children are read one by one, if there are any, and no more than there may be. -/
theorem readChildren_of_found
    (hfound : e.children.filter (considers family key index bound.field e.ns) ≠ [])
    (hsingle : bound.field.placement ≠ .unwrappedList →
      ∃ child, e.children.filter (considers family key index bound.field e.ns) = [child]) :
    readChildren family key path e index bound =
      (readEach (roleOf? family bound.field e.ns) (readAs family) path
        (e.children.filter (considers family key index bound.field e.ns))).map fun records =>
          some (collect bound.field.kind records) := by
  rw [readChildren]
  split
  · contradiction
  · rename_i first rest hsome
    have hone : ¬(rest ≠ [] ∧ bound.field.placement ≠ .unwrappedList) := by
      rintro ⟨hrest, hplace⟩
      obtain ⟨child, hchild⟩ := hsingle hplace
      rw [hsome] at hchild
      exact hrest (List.cons.inj hchild).2
    rw [if_neg hone, hsome]

/-- What is read in a role is read off the element itself, or off its children. -/
theorem exists_of_readAs {role : Role κ} {record : Record κ}
    (hread : readAs family role path e = .ok records) (hrecord : record ∈ records) :
    ∃ type ∈ role.types, ∃ child inner, (child = e ∨ child ∈ e.children) ∧
      (readElement family type inner child).outcome = .ok record := by
  cases role with
  | value type =>
      obtain ⟨value, hvalue, rfl⟩ := map_eq_ok.mp hread
      obtain rfl := List.mem_singleton.mp hrecord
      exact ⟨type, List.mem_cons_self, e, path, Or.inl rfl, hvalue⟩
  | wrapper field =>
      obtain ⟨parts, hparts, rfl⟩ := readEach_eq_ok_iff.mp hread
      obtain ⟨part, hpart, hmem⟩ := List.mem_flatten.mp hrecord
      obtain ⟨child, hchild, type, hmember, hpart⟩ := exists_of_forall₂ hparts.flip hpart
      obtain ⟨value, hvalue, rfl⟩ := map_eq_ok.mp hpart
      obtain rfl := List.mem_singleton.mp hmem
      exact ⟨type, mem_types_of_memberType? hmember, child, _,
        Or.inr (List.mem_filter.mp hchild).1, hvalue⟩

/-- Each member of a slot is read off an element inside. -/
theorem exists_inside_of_readChildren {member : Record κ}
    (hread : readChildren family key path e index bound = .ok slot)
    (hmember : member ∈ slotMembers slot) :
    ∃ type ∈ bound.field.kind.types, ∃ child inner, sizeOf child < sizeOf e ∧
      (readElement family type inner child).outcome = .ok member := by
  rcases readChildren_eq_ok hread with ⟨_, rfl, _⟩ | ⟨records, rfl, _, hrecords⟩
  · exact absurd hmember List.not_mem_nil
  · rw [slotMembers_collect] at hmember
    obtain ⟨parts, hparts, rfl⟩ := readEach_eq_ok_iff.mp hrecords
    obtain ⟨part, hpart, hmem⟩ := List.mem_flatten.mp hmember
    obtain ⟨child, hfound, role, hrole, hvalue⟩ := exists_of_forall₂ hparts.flip hpart
    obtain ⟨hchild, hconsiders⟩ := List.mem_filter.mp hfound
    have htakes := takes_of_considers hchild hconsiders hrole
    have hlt := Element.sizeOf_child_lt hchild
    obtain ⟨type, htype, inner, place, hinner, hvalue⟩ := exists_of_readAs hvalue hmem
    refine ⟨type, htakes.mem_types htype, inner, place, ?_, hvalue⟩
    rcases hinner with rfl | hinner
    · exact hlt
    · exact Nat.lt_trans (Element.sizeOf_child_lt hinner) hlt

end Read

section Slots

variable [DecidableEq κ] {family : Family κ} {typeName path : String} {key : κ} {index : Nat}
  {bound : BoundField κ} {e : Element}

theorem outcome_readSlot_eq {tags : List Tag} :
    (readSlot family typeName tags path e ((bound, bound.field.tag), index)).outcome =
      locate family typeName tags index bound.field bound.field.tag path e >>= fun found =>
        match found with
        | none => absent bound.field path
        | some located => (take typeName bound.field.tag path bound.accessor located
            fun child _ key path => readElement family key path child).outcome.map some := by
  rw [readSlot]
  cases locate family typeName tags index bound.field bound.field.tag path e with
  | error error => rfl
  | ok found =>
      cases found with
      | some located => exact Traced.outcome_map _ _
      | none =>
          rw [absent]
          by_cases hdefault : bound.field.hasDefault = true
          · have hrequired : bound.field.tag.required = false := by simp [FieldDecl.tag, hdefault]
            simp only [hrequired, hdefault]
            rfl
          · have hrequired : bound.field.tag.required = true := by simp [FieldDecl.tag, hdefault]
            simp only [hrequired, hdefault]
            rfl

/-- A text is taken as the field takes it. -/
theorem take_text (hfits : bound.accessor.Fits bound.field.kind)
    (hkind : bound.field.kind = .value) (raw : String) :
    (take typeName bound.field.tag path bound.accessor (.text raw)
      fun child _ key path => readElement family key path child).outcome =
        readText bound path raw := by
  rw [hkind] at hfits
  unfold readText
  cases haccessor : bound.accessor <;> simp_all [Accessor.Fits, take]

/-- The single child is the element that the field holds. -/
theorem readSlot_of_single (hfits : bound.accessor.Fits bound.field.kind)
    (hplace : bound.field.placement = .childElement) :
    (readSlot family (family key).name (family key).tags path e
      ((bound, bound.field.tag), index)).outcome =
        readChildren family key path e index bound := by
  obtain ⟨type, hkind⟩ := element_of_placement hplace
  have haccessor : bound.accessor = .element type := hfits.eq_element hkind
  have hrest : bound.field.takesRest = false := by simp [FieldDecl.takesRest, hkind]
  have hname : bound.field.tag.childName? = some bound.field.tag.name := by
    simp [Tag.childName?, FieldDecl.tag, hplace]
  rw [outcome_readSlot_eq, locate_of_element hplace, readChildren, filter_considers hrest hname,
    singleChild]
  rcases e.childrenNamed bound.field.tag.name (bound.field.rule.effective e.ns) with
    _ | ⟨child, _ | ⟨second, rest⟩⟩
  · rfl
  · simp only [ne_eq, not_true_eq_false, false_and, ↓reduceIte,
      readEach_singleton (roleOf?_of_element hkind e.ns child), readAs, readValue]
    simp only [Except.map, ok_bind, Option.map_some, haccessor, take, Traced.outcome_bind,
      Traced.outcome_pure]
    cases (readElement family type (childPath path child) child).outcome with
    | error error => rfl
    | ok record => simp [ok_bind, collect, hkind]
  · simp [hplace, Except.map, bind, Except.bind, Tag.missingName, FieldDecl.tag]

/-- The items in the wrapper are what the field holds. -/
theorem readSlot_of_wrapper (hfits : bound.accessor.Fits bound.field.kind)
    (hplace : bound.field.placement = .wrappedList) :
    (readSlot family (family key).name (family key).tags path e
      ((bound, bound.field.tag), index)).outcome =
        readChildren family key path e index bound := by
  obtain ⟨hlist, hwrapper⟩ := list_of_wrapped hplace
  have hrest := takesRest_of_wrapped hplace
  have hname : bound.field.tag.childName? = some bound.field.tag.wrapperName := by
    simp [Tag.childName?, FieldDecl.tag, hplace, Tag.wrapperName]
  rw [outcome_readSlot_eq, locate_of_wrapped hplace, readChildren, filter_considers hrest hname,
    singleChild]
  rcases e.childrenNamed bound.field.tag.wrapperName (bound.field.rule.effective e.ns) with
    _ | ⟨wrapper, _ | ⟨second, rest⟩⟩
  · rfl
  · have htell : roleOf? family bound.field e.ns wrapper = some (.wrapper bound.field) :=
      roleOf?_of_wrapped hplace e.ns wrapper
    simp only [ne_eq, not_true_eq_false, false_and, ↓reduceIte, readEach_singleton htell, readAs,
      collect_of_list hlist, ok_bind]
    rw [← candidates_of_wrapped, ← map_map _ FieldValue.list some,
      ← take_itemsUnder family (family key).name _ path hfits hlist]
    cases itemsUnder family (family key).name bound.field bound.field.tag (fun _ => false)
      (childPath path wrapper) wrapper <;> rfl
  · simp [hplace, bind, Except.bind, Tag.missingName, FieldDecl.tag, Tag.wrapperName]

/-- The items among the children are what the field holds, if there are any. -/
theorem readSlot_of_items (hfits : bound.accessor.Fits bound.field.kind)
    (hplace : bound.field.placement = .unwrappedList) :
    (readSlot family (family key).name (family key).tags path e
      ((bound, bound.field.tag), index)).outcome =
        readChildren family key path e index bound := by
  have hlist := (list_of_unwrapped hplace).1
  have hrole : roleOf? family bound.field e.ns =
      fun child => (memberType? family bound.field e.ns child).map .value := by
    funext child
    simp [roleOf?, hplace]
  have htake := take_itemsUnder family (family key).name path path hfits hlist
    (claimedByOther (family key).tags (some index) e.ns) e
  have hempty := isEmpty_of_itemsUnder family (family key).name path hlist
    (claimedByOther (family key).tags (some index) e.ns) e
  rw [candidates_of_unwrapped hplace] at htake hempty
  rw [outcome_readSlot_eq, locate_of_unwrapped hplace, readChildren]
  simp only [collect_of_list hlist, hrole, readEach_map]
  cases hfound : e.children.filter (considers family key index bound.field e.ns) with
  | nil =>
      rw [hfound] at htake hempty
      obtain ⟨located, hitems, _⟩ := bind_eq_ok.mp htake
      have hnothing : located.isEmpty = true := hempty located hitems
      simp only [hitems, Except.map, ok_bind, hnothing, ↓reduceIte]
  | cons first rest =>
      have hmany : ¬(rest ≠ [] ∧ bound.field.placement ≠ .unwrappedList) := by simp [hplace]
      rw [hfound] at htake hempty
      dsimp only
      rw [if_neg hmany, ← map_map _ FieldValue.list some]
      change _ = Except.map some (Except.map FieldValue.list
        (readEach (memberType? family bound.field e.ns) (readValue family) path (first :: rest)))
      rw [← htake]
      cases hitems : itemsUnder family (family key).name bound.field bound.field.tag
          (claimedByOther (family key).tags (some index) e.ns) path e with
      | error error => rfl
      | ok located =>
          have hnonempty : located.isEmpty = false := hempty located hitems
          simp only [Except.map, ok_bind, hnonempty, Bool.false_eq_true, ↓reduceIte]

/-- A slot is read off what its field finds. -/
theorem readSlot_eq_readField (hfits : bound.accessor.Fits bound.field.kind) :
    (readSlot family (family key).name (family key).tags path e
      ((bound, bound.field.tag), index)).outcome = readField family key path e index bound := by
  unfold readField
  cases hplace : bound.field.placement with
  | attr =>
      rw [outcome_readSlot_eq, locate_of_attr hplace, ok_bind]
      cases findAttribute? e bound.field.tag.name bound.field.rule with
      | none => rfl
      | some attr =>
          simp only [Option.map_some, take_text hfits (value_of_attr hplace).1]
  | text =>
      rw [outcome_readSlot_eq, locate_of_text hplace, ok_bind]
      cases e.ownText? with
      | none => rfl
      | some raw =>
          simp only [Option.map_some, take_text hfits (value_of_text hplace).1]
  | childElement => exact readSlot_of_single hfits hplace
  | wrappedList => exact readSlot_of_wrapper hfits hplace
  | unwrappedList => exact readSlot_of_items hfits hplace
  | overflow =>
      have haccessor : bound.accessor = .overflow := hfits.eq_overflow (kind_of_overflow hplace)
      rw [outcome_readSlot_eq, locate_of_overflow hplace, ok_bind, haccessor]
      by_cases hempty :
          (OtherAttributes.of (unclaimedAttributes e (family key).tags)).isEmpty = true
      · simp only [hempty, ↓reduceIte]
      · simp only [hempty]
        rfl

end Slots

section Elements

variable [DecidableEq κ] {family : Family κ} {key : κ}

/-- A table that makes no sense is refused before anything is read. -/
theorem readElement_of_fault {fault : SchemaFault}
    (hfault : (family key).descriptor.tags = .error fault) (path : String) (e : Element) :
    (readElement family key path e).outcome = .error (.schema fault) := by
  rw [readElement_eq]
  simp only [Traced.outcome_bind, Traced.outcome_lift, hfault]
  rfl

/-- An element is read field by field. -/
theorem readElement_of_tags (hfamily : IsBound family key) {tags : List Tag}
    (htags : (family key).descriptor.tags = .ok tags) (path : String) (e : Element) :
    (readElement family key path e).outcome =
      ((family key).fields.zipIdx.mapM fun item => readField family key path e item.2 item.1).map
        (.mk key) := by
  have hslots : ∀ item ∈ (family key).fields.zipIdx,
      (readSlot family (family key).name (family key).tags path e
        ((item.1, item.1.field.tag), item.2)).outcome =
        readField family key path e item.2 item.1 := by
    intro item hitem
    apply readSlot_eq_readField
    exact hfamily.here item.1 (List.fst_mem_of_mem_zipIdx hitem)
  rw [readElement_eq]
  simp only [Traced.outcome_bind, Traced.outcome_lift, Traced.outcome_noteAll,
    Traced.outcome_pure, Traced.outcome_mapM, BoundType.eq_tags htags, Except.mapError, ok_bind]
  rw [BoundType.tags, zip_tags, List.zipIdx_map, List.mapM_map, ← mapM_congr hslots]
  rfl

/-- The slots of a record that has been read are what the fields have read. -/
theorem exists_slots_of_readElement (hfamily : IsBound family key) {path : String} {e : Element}
    {record : Record κ} (hread : (readElement family key path e).outcome = .ok record) :
    ∃ slots, (family key).descriptor.tags = .ok (family key).tags ∧ record = .mk key slots ∧
      List.Forall₂ (fun item slot => readField family key path e item.2 item.1 = .ok slot)
        (family key).fields.zipIdx slots := by
  cases htags : (family key).descriptor.tags with
  | error fault =>
      rw [readElement_of_fault htags] at hread
      contradiction
  | ok tags =>
      rw [readElement_of_tags hfamily htags] at hread
      obtain ⟨slots, hslots, hrecord⟩ := map_eq_ok.mp hread
      exact ⟨slots, htags.symm.trans (BoundType.eq_tags htags), hrecord.symm,
        mapM_eq_ok_iff.mp hslots⟩

theorem exists_slot_of_readElement (hfamily : IsBound family key) {path : String} {e : Element}
    {record : Record κ} (hread : (readElement family key path e).outcome = .ok record)
    {index : Nat} {bound : BoundField κ} (hbound : (family key).fields[index]? = some bound) :
    ∃ slot, record.slots[index]? = some slot ∧
      readField family key path e index bound = .ok slot := by
  obtain ⟨slots, _, rfl, hslots⟩ := exists_slots_of_readElement hfamily hread
  have hlt := (List.getElem?_eq_some_iff.mp hbound).1
  have hlength := hslots.length_eq
  rw [List.length_zipIdx] at hlength
  have hat : index < slots.length := hlength ▸ hlt
  refine ⟨slots[index], List.getElem?_eq_getElem hat, ?_⟩
  exact rel_of_getElem?_zipIdx hslots hbound (List.getElem?_eq_getElem hat)

/-- An element is refused for the first field that cannot be read. -/
theorem readElement_eq_error_of_first (hfamily : IsBound family key) {tags : List Tag}
    (htags : (family key).descriptor.tags = .ok tags) {path : String} {e : Element} {index : Nat}
    {bound : BoundField κ} {error : Error} (hbound : (family key).fields[index]? = some bound)
    (hbefore : ∀ other field, other < index → (family key).fields[other]? = some field →
      ∃ slot, readField family key path e other field = .ok slot)
    (hfail : readField family key path e index bound = .error error) :
    (readElement family key path e).outcome = .error error := by
  have hat : (family key).fields.zipIdx[index]? = some (bound, index) := by
    simp [List.getElem?_zipIdx, hbound]
  rw [readElement_of_tags hfamily htags, map_eq_error]
  apply mapM_eq_error_of_first hat _ hfail
  intro other item hlt hitem
  rw [List.getElem?_zipIdx, Option.map_eq_some_iff] at hitem
  obtain ⟨field, hfield, rfl⟩ := hitem
  simpa using hbefore other field hlt hfield

end Elements

end Epub.Binding
