/-
Elements with a history.  Whatever has been done to an element since it was made, its attributes
are those that were set and not removed since, each with the value set last and all of them in
the order in which they came in.  Its declarations are the first ones given for their prefixes,
in the order in which they were given.
-/
import Epub.Proofs.Xml.FirstDeclarations

namespace Epub.Xml

/-- What can be done to the attributes and the declarations of an element. -/
inductive Edit where
  | set (key : QName) (value : String)
  | setUnqualified (name value : String)
  | remove (key : QName)
  | declare (declaration : NamespaceDecl)
  | declareAll (declarations : List NamespaceDecl)
deriving DecidableEq, Repr

namespace Edit

/-- The element that an edit leaves. -/
def apply : Edit → Element → Element
  | set key value, e => e.setAttribute key value
  | setUnqualified name value, e => e.withAttribute name value
  | remove key, e => (e.takeAttribute key).2
  | declare declaration, e => e.declare declaration
  | declareAll declarations, e => e.declareAll declarations

/-- Whether an edit gives the attribute under a key a value. -/
inductive Sets : Edit → QName → String → Prop where
  | qualified (key : QName) (value : String) : Sets (set key value) key value
  | unqualified (name value : String) : Sets (setUnqualified name value) ⟨name, none⟩ value

/-- The key whose attribute an edit sets or removes. -/
def key? : Edit → Option QName
  | set key _ => some key
  | setUnqualified name _ => some ⟨name, none⟩
  | remove key => some key
  | _ => none

/-- The declarations that an edit gives, in order. -/
def declarations : Edit → List NamespaceDecl
  | declare declaration => [declaration]
  | declareAll declarations => declarations
  | _ => []

variable {edit : Edit} {key other : QName} {value value' : String}

theorem Sets.ne_remove (hsets : edit.Sets key value) (other : QName) : edit ≠ remove other := by
  rintro rfl
  cases hsets

theorem Sets.unique (hsets : edit.Sets key value) (hsets' : edit.Sets other value') :
    key = other ∧ value = value' := by
  cases hsets <;> cases hsets' <;> exact ⟨rfl, rfl⟩

theorem Sets.apply_eq (hsets : edit.Sets key value) (e : Element) :
    edit.apply e = e.setAttribute key value := by
  cases hsets <;> rfl

theorem Sets.key?_eq (hsets : edit.Sets key value) : edit.key? = some key := by
  cases hsets <;> rfl

theorem key?_eq_some_iff :
    edit.key? = some key ↔ (∃ value, edit.Sets key value) ∨ edit = remove key := by
  constructor
  · intro hkey
    cases edit with
    | set key value =>
        cases hkey
        exact Or.inl ⟨value, .qualified key value⟩
    | setUnqualified name value =>
        cases hkey
        exact Or.inl ⟨value, .unqualified name value⟩
    | remove key =>
        cases hkey
        exact Or.inr rfl
    | declare => contradiction
    | declareAll => contradiction
  · rintro (⟨value, hsets⟩ | rfl)
    · exact hsets.key?_eq
    · rfl

end Edit

section Attributes

variable {edits : List Edit} {edit : Edit} {key other : QName} {value value' : String} {time : Nat}

/-- Whether a value is what a key was set to last, with no removal since. -/
def LastSet (edits : List Edit) (key : QName) (value : String) : Prop :=
  ∃ before edit after, edits = before ++ edit :: after ∧ edit.Sets key value ∧
    ∀ later ∈ after, later.key? ≠ some key

/-- Whether a key was set and has not been removed since. -/
def Held (edits : List Edit) (key : QName) : Prop :=
  ∃ before edit after value, edits = before ++ edit :: after ∧ edit.Sets key value ∧
    .remove key ∉ after

/-- When a key came in: it was not held before, and it has not been removed since. -/
def EnteredAt (edits : List Edit) (key : QName) (time : Nat) : Prop :=
  ∃ before edit after value, edits = before ++ edit :: after ∧ before.length = time ∧
    edit.Sets key value ∧ ¬Held before key ∧ .remove key ∉ after

theorem lastSet_concat : LastSet (edits ++ [edit]) key value ↔
    edit.Sets key value ∨ edit.key? ≠ some key ∧ LastSet edits key value := by
  constructor
  · rintro ⟨before, setting, after, hsplit, hsets, hafter⟩
    rcases concat_eq_append_cons_iff.mp hsplit with ⟨rfl, rfl, rfl⟩ | ⟨middle, rfl, rfl⟩
    · exact Or.inl hsets
    · obtain ⟨hmiddle, hlast⟩ := List.forall_mem_append.mp hafter
      exact Or.inr ⟨hlast edit List.mem_cons_self, before, setting, middle, rfl, hsets, hmiddle⟩
  · rintro (hsets | ⟨hother, before, setting, after, rfl, hsets, hafter⟩)
    · exact ⟨edits, edit, [], rfl, hsets, fun later hlater => absurd hlater List.not_mem_nil⟩
    · refine ⟨before, setting, after ++ [edit], by simp, hsets, ?_⟩
      exact List.forall_mem_append.mpr ⟨hafter, List.forall_mem_singleton.mpr hother⟩

/-- A key that is set has that value and no other one. -/
theorem lastSet_concat_self (hsets : edit.Sets key value) :
    LastSet (edits ++ [edit]) key value' ↔ value = value' := by
  simp only [lastSet_concat, hsets.key?_eq, ne_eq, not_true, false_and, or_false]
  constructor
  · exact fun hsets' => (hsets.unique hsets').2
  · rintro rfl
    exact hsets

/-- Edits under other keys do not count. -/
theorem lastSet_concat_of_ne (hkey : edit.key? ≠ some key) :
    LastSet (edits ++ [edit]) key value ↔ LastSet edits key value := by
  have hnot : ¬edit.Sets key value := fun hsets => hkey hsets.key?_eq
  rw [lastSet_concat, or_iff_right hnot, and_iff_right hkey]

theorem held_concat : Held (edits ++ [edit]) key ↔
    (∃ value, edit.Sets key value) ∨ edit ≠ .remove key ∧ Held edits key := by
  constructor
  · rintro ⟨before, setting, after, value, hsplit, hsets, hafter⟩
    rcases concat_eq_append_cons_iff.mp hsplit with ⟨rfl, rfl, rfl⟩ | ⟨middle, rfl, rfl⟩
    · exact Or.inl ⟨value, hsets⟩
    · rw [List.mem_append, List.mem_singleton, not_or] at hafter
      exact Or.inr ⟨Ne.symm hafter.2, before, setting, middle, value, rfl, hsets, hafter.1⟩
  · rintro (⟨value, hsets⟩ | ⟨hkept, before, setting, after, value, rfl, hsets, hafter⟩)
    · exact ⟨edits, edit, [], value, rfl, hsets, List.not_mem_nil⟩
    · refine ⟨before, setting, after ++ [edit], value, by simp, hsets, ?_⟩
      rw [List.mem_append, List.mem_singleton, not_or]
      exact ⟨hafter, Ne.symm hkept⟩

theorem not_held_nil (key : QName) : ¬Held [] key := by
  rintro ⟨before, _, _, _, hsplit, -⟩
  simp at hsplit

theorem not_lastSet_nil (key : QName) (value : String) : ¬LastSet [] key value := by
  rintro ⟨before, _, _, hsplit, -⟩
  simp at hsplit

/-- The keys that are held are those with a value. -/
theorem held_iff_exists_lastSet : Held edits key ↔ ∃ value, LastSet edits key value := by
  induction edits using List.reverseRecOn with
  | nil =>
      refine iff_of_false (not_held_nil key) ?_
      rintro ⟨value, hlast⟩
      exact not_lastSet_nil key value hlast
  | append_singleton edits edit ih =>
      simp only [held_concat, lastSet_concat, ih, exists_or, exists_and_left, ne_eq,
        Edit.key?_eq_some_iff, not_or]
      tauto

theorem EnteredAt.concat (hentered : EnteredAt edits key time) (hkept : edit ≠ .remove key) :
    EnteredAt (edits ++ [edit]) key time := by
  obtain ⟨before, setting, after, value, rfl, hlength, hsets, hfresh, hafter⟩ := hentered
  refine ⟨before, setting, after ++ [edit], value, by simp, hlength, hsets, hfresh, ?_⟩
  rw [List.mem_append, List.mem_singleton, not_or]
  exact ⟨hafter, Ne.symm hkept⟩

theorem enteredAt_length (hsets : edit.Sets key value) (hfresh : ¬Held edits key) :
    EnteredAt (edits ++ [edit]) key edits.length :=
  ⟨edits, edit, [], value, rfl, rfl, hsets, hfresh, List.not_mem_nil⟩

theorem EnteredAt.lt_length (hentered : EnteredAt edits key time) : time < edits.length := by
  obtain ⟨before, _, after, _, rfl, rfl, -⟩ := hentered
  simp

/-- A key that is held has come in. -/
theorem Held.exists_enteredAt (hheld : Held edits key) : ∃ time, EnteredAt edits key time := by
  induction edits using List.reverseRecOn with
  | nil => exact absurd hheld (not_held_nil key)
  | append_singleton edits edit ih =>
      by_cases hbefore : Held edits key
      · obtain ⟨time, hentered⟩ := ih hbefore
        refine ⟨time, hentered.concat ?_⟩
        rcases held_concat.mp hheld with ⟨value, hsets⟩ | ⟨hkept, -⟩
        · exact hsets.ne_remove key
        · exact hkept
      · rcases held_concat.mp hheld with ⟨value, hsets⟩ | ⟨-, hheld⟩
        · exact ⟨edits.length, enteredAt_length hsets hbefore⟩
        · exact absurd hheld hbefore

/-- A key that is held has come in at one time only. -/
theorem enteredAt_unique (key : QName) (time time' : Nat) (hentered : EnteredAt edits key time)
    (hentered' : EnteredAt edits key time') : time = time' := by
  -- At the later one of two times the key would be held already, from the earlier one on.
  have hnot : ∀ {first second : Nat}, EnteredAt edits key first → EnteredAt edits key second →
      ¬first < second := by
    rintro _ _ ⟨before, setting, after, value, hsplit, rfl, hsets, -, hafter⟩
      ⟨before', _, _, _, hsplit', rfl, -, hfresh, -⟩ hlt
    obtain ⟨middle, rfl, rfl⟩ := exists_of_split_lt (hsplit.symm.trans hsplit') hlt
    exact hfresh ⟨before, setting, middle, value, rfl, hsets,
      fun hmem => hafter (List.mem_append_left _ hmem)⟩
  have hle := hnot hentered' hentered
  have hge := hnot hentered hentered'
  omega

end Attributes

namespace Element

variable {e e' : Element} {edits : List Edit} {edit : Edit} {key other : QName} {value : String}

/-- Whether the attributes are those that were set and not removed since, in the order in which
they came in. -/
structure Remembers (e : Element) (edits : List Edit) : Prop where
  values : ∀ key value, e.get? key = some value ↔ LastSet edits key value
  order : (e.attributes.map Attribute.key).Pairwise (Earlier (EnteredAt edits))

namespace Remembers

theorem empty (name : String) (ns : Option String) : (empty name ns).Remembers [] :=
  ⟨fun key value => iff_of_false (Option.some_ne_none value).symm (not_lastSet_nil key value), .nil⟩

theorem mem_keys_iff (hremembers : e.Remembers edits) :
    key ∈ e.attributes.map Attribute.key ↔ Held edits key := by
  simp only [Element.mem_keys_iff, hremembers.values, held_iff_exists_lastSet]

theorem nodup_keys (hremembers : e.Remembers edits) :
    (e.attributes.map Attribute.key).Nodup := by
  refine hremembers.order.imp ?_
  rintro key _ hearlier rfl
  exact hearlier.asymm enteredAt_unique hearlier

theorem get?_eq_none_iff (hremembers : e.Remembers edits) :
    e.get? key = none ↔ ¬Held edits key := by
  rw [held_iff_exists_lastSet, Option.eq_none_iff_forall_ne_some, not_exists]
  exact forall_congr' fun value => not_congr (hremembers.values key value)

theorem mem_attributes_iff (hremembers : e.Remembers edits) (attr : Attribute) :
    attr ∈ e.attributes ↔ LastSet edits attr.key attr.value := by
  rw [← hremembers.values, get?]
  constructor
  · intro hattr
    rw [find?_of_nodup_map hremembers.nodup_keys hattr]
    rfl
  · intro hget
    obtain ⟨found, hfound, hvalue⟩ := Option.map_eq_some_iff.mp hget
    have hkey : found.key = attr.key := by simpa using List.find?_some hfound
    have hsame : found = attr := by
      cases found
      cases attr
      cases hkey
      cases hvalue
      rfl
    exact hsame ▸ List.mem_of_find?_eq_some hfound

/-- The attributes depend on the history, and on nothing else. -/
theorem unique (hremembers : e.Remembers edits) (hremembers' : e'.Remembers edits) :
    e.attributes = e'.attributes := by
  have hordered : ∀ {e : Element}, e.Remembers edits →
      e.attributes.Pairwise (Earlier fun attr => EnteredAt edits attr.key) := by
    intro e hremembers
    have horder := List.pairwise_map.mp hremembers.order
    exact horder
  refine eq_of_earlier (fun attr => enteredAt_unique attr.key) (hordered hremembers)
    (hordered hremembers') fun attr => ?_
  rw [hremembers.mem_attributes_iff, hremembers'.mem_attributes_iff]

/-- A key that is held is set where it stands. -/
theorem setAttribute_of_held (hremembers : e.Remembers edits) (hheld : Held edits key)
    (value : String) : (e.setAttribute key value).attributes =
      e.attributes.map fun attr => if attr.key = key then { attr with value } else attr :=
  setIn_of_mem hremembers.nodup_keys (hremembers.mem_keys_iff.mpr hheld) value

/-- A key that is not held comes last. -/
theorem setAttribute_of_not_held (hremembers : e.Remembers edits) (hfresh : ¬Held edits key)
    (value : String) : (e.setAttribute key value).attributes =
      e.attributes ++ [⟨key.name, key.ns, value⟩] := by
  refine setIn_of_fresh (fun attr hattr hkey => hfresh ?_) value
  exact hremembers.mem_keys_iff.mp (hkey ▸ List.mem_map_of_mem hattr)

theorem takeAttribute_eq (hremembers : e.Remembers edits) (key : QName) :
    e.takeAttribute key =
      (e.get? key, { e with attributes := e.attributes.filter (·.key ≠ key) }) := by
  rw [Element.takeAttribute_eq, removeAttribute, eraseP_of_nodup_map hremembers.nodup_keys]

/-- A key that is set has the value, and comes last unless it was held. -/
theorem set (hremembers : e.Remembers edits) (hsets : edit.Sets key value) :
    (e.setAttribute key value).Remembers (edits ++ [edit]) := by
  constructor
  · intro other value'
    by_cases hkey : key = other
    · subst hkey
      rw [get?_setAttribute_self, lastSet_concat_self hsets, Option.some.injEq]
    · have hother : edit.key? ≠ some other := by
        rw [hsets.key?_eq, ne_eq, Option.some.injEq]
        exact hkey
      rw [get?_setAttribute_of_ne e value hkey, lastSet_concat_of_ne hother, hremembers.values]
  · have hstays : ∀ key time, EnteredAt edits key time → EnteredAt (edits ++ [edit]) key time :=
      fun key time hentered => hentered.concat (hsets.ne_remove key)
    have hold : (e.attributes.map Attribute.key).Pairwise (Earlier (EnteredAt (edits ++ [edit]))) :=
      hremembers.order.imp fun hearlier => hearlier.imp (hstays _) (hstays _)
    by_cases hheld : Held edits key
    · have hkeys : (e.setAttribute key value).attributes.map Attribute.key =
          e.attributes.map Attribute.key := by
        rw [hremembers.setAttribute_of_held hheld, List.map_map]
        apply List.map_congr_left
        intro attr _
        rw [Function.comp]
        split <;> rfl
      rwa [hkeys]
    · rw [hremembers.setAttribute_of_not_held hheld, List.map_append, List.map_singleton,
        List.pairwise_append]
      refine ⟨hold, List.pairwise_singleton _ _, fun earlier hearlier last hlast => ?_⟩
      obtain rfl := List.mem_singleton.mp hlast
      obtain ⟨time, hentered⟩ := (hremembers.mem_keys_iff.mp hearlier).exists_enteredAt
      exact ⟨time, edits.length, hstays earlier time hentered, enteredAt_length hsets hheld,
        hentered.lt_length⟩

/-- A key that is removed is gone, and all others stay as they are. -/
theorem remove (hremembers : e.Remembers edits) (key : QName) :
    (e.takeAttribute key).2.Remembers (edits ++ [.remove key]) := by
  rw [hremembers.takeAttribute_eq]
  constructor
  · intro other value
    by_cases hkey : other = key
    · subst hkey
      have hgone : ¬LastSet (edits ++ [.remove other]) other value := by
        rw [lastSet_concat]
        rintro (hsets | ⟨hother, -⟩)
        · exact hsets.ne_remove other rfl
        · exact hother rfl
      rw [get?_filter_self]
      exact iff_of_false (Option.some_ne_none value).symm hgone
    · have hother : (Edit.remove key).key? ≠ some other := by
        rw [Edit.key?, ne_eq, Option.some.injEq]
        exact Ne.symm hkey
      rw [get?_filter_of_ne e hkey, lastSet_concat_of_ne hother, hremembers.values]
  · rw [List.pairwise_map]
    refine ((List.pairwise_map.mp hremembers.order).filter _).imp_of_mem ?_
    intro attr other hattr hother hearlier
    have hstays : ∀ kept ∈ e.attributes.filter (fun attr => decide (attr.key ≠ key)), ∀ time,
        EnteredAt edits kept.key time → EnteredAt (edits ++ [.remove key]) kept.key time := by
      intro kept hmem time hentered
      have hne : kept.key ≠ key := by simpa using (List.mem_filter.mp hmem).2
      exact hentered.concat fun heq => hne (Edit.remove.inj heq).symm
    exact hearlier.imp (hstays attr hattr) (hstays other hother)

/-- Edits that are not about attributes do not count. -/
theorem keep (hremembers : e.Remembers edits) (hsame : e'.attributes = e.attributes)
    (hkey : edit.key? = none) : e'.Remembers (edits ++ [edit]) := by
  have hnone : ∀ key, edit.key? ≠ some key := by simp [hkey]
  constructor
  · intro key value
    rw [lastSet_concat_of_ne (hnone key), ← hremembers.values, get?, get?, hsame]
  · have hstays : ∀ key time, EnteredAt edits key time → EnteredAt (edits ++ [edit]) key time :=
      fun key time hentered => hentered.concat fun hremove =>
        hnone key (Edit.key?_eq_some_iff.mpr (Or.inr hremove))
    rw [hsame]
    exact hremembers.order.imp fun hearlier => hearlier.imp (hstays _) (hstays _)

end Remembers

/-- Whether an element is as its history tells. -/
structure Reflects (e : Element) (edits : List Edit) : Prop where
  attributes : e.Remembers edits
  declarations : KeepsFirsts (edits.flatMap Edit.declarations) e.declarations

/-- One more edit is one more entry of the history. -/
theorem Reflects.apply (hreflects : e.Reflects edits) (edit : Edit) :
    (edit.apply e).Reflects (edits ++ [edit]) := by
  obtain ⟨hattributes, hdeclarations⟩ := hreflects
  have hgiven : (edits ++ [edit]).flatMap Edit.declarations =
      edits.flatMap Edit.declarations ++ edit.declarations := by
    rw [List.flatMap_append, List.flatMap_singleton]
  cases edit with
  | set key value =>
      exact ⟨hattributes.set (.qualified key value), by simpa [hgiven, Edit.declarations]⟩
  | setUnqualified name value =>
      exact ⟨hattributes.set (.unqualified name value), by simpa [hgiven, Edit.declarations]⟩
  | remove key =>
      refine ⟨hattributes.remove key, ?_⟩
      rw [hgiven, Edit.apply, hattributes.takeAttribute_eq]
      simpa [Edit.declarations]
  | declare d =>
      have hsame : (e.declare d).attributes = e.attributes := declareAll_attributes e [d]
      exact ⟨hattributes.keep hsame rfl, hgiven ▸ hdeclarations.declare d⟩
  | declareAll ds =>
      have hsame := declareAll_attributes e ds
      exact ⟨hattributes.keep hsame rfl, hgiven ▸ hdeclarations.declareAll ds⟩

/-- The element that is left after some edits. -/
def edited (e : Element) (edits : List Edit) : Element :=
  edits.foldl (fun e edit => edit.apply e) e

theorem edited_concat (e : Element) (edits : List Edit) (edit : Edit) :
    e.edited (edits ++ [edit]) = edit.apply (e.edited edits) := by
  rw [edited, List.foldl_concat]
  rfl

theorem Reflects.edited_empty (name : String) (ns : Option String) (edits : List Edit) :
    ((empty name ns).edited edits).Reflects edits := by
  induction edits using List.reverseRecOn with
  | nil => exact ⟨.empty name ns, .nil⟩
  | append_singleton edits edit ih =>
      rw [edited_concat]
      exact ih.apply edit

/-- An element is what its history tells, and the history leaves nothing open.  An attribute is
found with the value set last, and is taken out with it while all others stay.  It is set where
it stands, or comes last if it is not there. -/
theorem reflects_edited (name : String) (ns : Option String) (edits : List Edit) :
    ∃ e, (empty name ns).edited edits = e ∧ e.Reflects edits ∧
      (∀ e' : Element, e'.Reflects edits →
        e'.attributes = e.attributes ∧ e'.declarations = e.declarations) ∧
      (e.attributes.map Attribute.key).Nodup ∧ (e.declarations.map NamespaceDecl.label).Nodup ∧
      (∀ key, e.get? key = none ↔ ¬Held edits key) ∧
      (∀ key, (∀ value, (e.takeAttribute key).1 = some value ↔ LastSet edits key value) ∧
        (e.takeAttribute key).2 = { e with attributes := e.attributes.filter (·.key ≠ key) } ∧
        (e.takeAttribute key).2.get? key = none ∧
        ∀ other, other ≠ key → (e.takeAttribute key).2.get? other = e.get? other) ∧
      ∀ edit key value, Edit.Sets edit key value →
        (Held edits key → (edit.apply e).attributes =
          e.attributes.map fun attr => if attr.key = key then { attr with value } else attr) ∧
        (¬Held edits key → (edit.apply e).attributes =
          e.attributes ++ [⟨key.name, key.ns, value⟩]) := by
  have hreflects := Reflects.edited_empty name ns edits
  have hattributes := hreflects.attributes
  have hdeclarations := hreflects.declarations
  refine ⟨_, rfl, hreflects, fun e' hreflects' => ?_, hattributes.nodup_keys,
    hdeclarations.nodup_labels, fun key => hattributes.get?_eq_none_iff, fun key => ?_,
    fun edit key value hsets => ?_⟩
  · exact ⟨hreflects'.attributes.unique hattributes, hreflects'.declarations.unique hdeclarations⟩
  · rw [hattributes.takeAttribute_eq]
    exact ⟨hattributes.values key, rfl, get?_filter_self _ key,
      fun other hne => get?_filter_of_ne _ hne⟩
  · rw [hsets.apply_eq]
    exact ⟨fun hheld => hattributes.setAttribute_of_held hheld value,
      fun hfresh => hattributes.setAttribute_of_not_held hfresh value⟩

/-- Attributes of one name, without a namespace, in the empty one and in another one, and
prefixes declared again. -/
def langEdits : List Edit :=
  [.setUnqualified "lang" "de", .set ⟨"lang", some ""⟩ "fr", .set ⟨"lang", some xmlNamespace⟩ "en",
    .declareAll [⟨"dc", dcNamespace⟩, ⟨"opf", opfNamespace⟩, ⟨"dc", "urn:x"⟩],
    .set ⟨"lang", none⟩ "it", .remove ⟨"lang", some ""⟩, .declare ⟨"opf", "urn:y"⟩]

/-- What has become of them. -/
def langElement : Element :=
  { empty "title" none with
    attributes := [⟨"lang", none, "it"⟩, ⟨"lang", some xmlNamespace, "en"⟩]
    declarations := [⟨"dc", dcNamespace⟩, ⟨"opf", opfNamespace⟩] }

theorem reflects_edited_lang :
    (empty "title" none).edited langEdits = langElement ∧ langElement.Reflects langEdits ∧
      LastSet langEdits ⟨"lang", none⟩ "it" ∧ ¬Held langEdits ⟨"lang", some ""⟩ ∧
      (langElement.takeAttribute ⟨"lang", none⟩).1 = some "it" ∧
      (langElement.takeAttribute ⟨"lang", none⟩).2.get? ⟨"lang", some xmlNamespace⟩ = some "en" ∧
      Edit.Sets (.setUnqualified "lang" "nl") ⟨"lang", none⟩ "nl" ∧
      (langElement.withAttribute "lang" "nl").attributes =
        [⟨"lang", none, "nl"⟩, ⟨"lang", some xmlNamespace, "en"⟩] ∧
      Edit.Sets (.set ⟨"lang", some ""⟩ "nl") ⟨"lang", some ""⟩ "nl" ∧
      (langElement.setAttribute ⟨"lang", some ""⟩ "nl").attributes =
        langElement.attributes ++ [⟨"lang", some "", "nl"⟩] := by
  have hedited : (empty "title" none).edited langEdits = langElement := by decide +kernel
  obtain ⟨e, he, hreflects, -, -, -, habsent, htaken, hset⟩ :=
    reflects_edited "title" none langEdits
  obtain rfl : langElement = e := hedited.symm.trans he
  have hlast : LastSet langEdits ⟨"lang", none⟩ "it" :=
    (hreflects.attributes.values _ _).mp (by decide +kernel)
  have hheld : Held langEdits ⟨"lang", none⟩ := held_iff_exists_lastSet.mpr ⟨"it", hlast⟩
  have hfresh : ¬Held langEdits ⟨"lang", some ""⟩ := (habsent _).mp (by decide +kernel)
  obtain ⟨hanswer, -, -, hothers⟩ := htaken ⟨"lang", none⟩
  refine ⟨hedited, hreflects, hlast, hfresh, (hanswer "it").mpr hlast, ?_,
    .unqualified _ _, ?_, .qualified _ _, ?_⟩
  · exact (hothers _ (by decide)).trans (by decide +kernel)
  · exact (hset _ _ _ (.unqualified "lang" "nl")).1 hheld
  · exact (hset _ _ _ (.qualified ⟨"lang", some ""⟩ "nl")).2 hfresh

end Element

end Epub.Xml
