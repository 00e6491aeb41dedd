/-
Legible records: those of which writing makes a tree that a document can hold.  The
names come from the tables, the leftover attributes and the texts from the record.
-/
import Epub.Proofs.Binding.RoundTrip
import Epub.Proofs.Xml.Name

namespace Epub

namespace Xml

open Epub.Text

/-- A name under which an attribute can be written. -/
structure QName.IsAttributeName (key : QName) : Prop where
  name : isNCName key.name = true
  ns : ∀ uri, key.ns = some uri → IsNamespace uri
  not_declaration : key ≠ ⟨"xmlns", none⟩

instance (key : QName) : Decidable key.IsAttributeName :=
  decidable_of_iff
    (isNCName key.name = true ∧ (∀ uri ∈ key.ns, IsNamespace uri) ∧ key ≠ ⟨"xmlns", none⟩)
    ⟨fun h => ⟨h.1, h.2.1, h.2.2⟩, fun h => ⟨h.name, h.ns, h.not_declaration⟩⟩

/-- Whether an element can be written and its text be read back. -/
def Element.IsLegible (e : Element) : Prop :=
  e.IsProper ∧ e.KeepsText

theorem Element.mem_declarations_declareAll {e : Element} {declarations : List NamespaceDecl}
    {d : NamespaceDecl} (hd : d ∈ (e.declareAll declarations).declarations) :
    d ∈ e.declarations ∨ d ∈ declarations := by
  induction declarations generalizing e with
  | nil => exact Or.inl hd
  | cons first rest ih =>
      rcases ih (e := e.declare first) hd with hown | hrest
      · rw [declare] at hown
        split at hown
        · exact Or.inl hown
        · rcases List.mem_append.mp hown with hown | hfirst
          · exact Or.inl hown
          · exact Or.inr (List.mem_singleton.mp hfirst ▸ List.mem_cons_self)
      · exact Or.inr (List.mem_cons_of_mem first hrest)

/-- An element declares each prefix once, however often it is told to. -/
theorem Element.nodup_labels_declareAll {e : Element} (declarations : List NamespaceDecl)
    (hnodup : (e.declarations.map NamespaceDecl.label).Nodup) :
    ((e.declareAll declarations).declarations.map NamespaceDecl.label).Nodup := by
  induction declarations generalizing e with
  | nil => exact hnodup
  | cons first rest ih =>
      refine ih (e := e.declare first) ?_
      rw [declare]
      split
      · exact hnodup
      · rename_i hfresh
        rw [List.map_append, List.nodup_append]
        refine ⟨hnodup, List.nodup_singleton _, ?_⟩
        intro label hlabel other hother heq
        obtain ⟨d, hd, rfl⟩ := List.mem_map.mp hlabel
        rw [List.map_singleton, List.mem_singleton] at hother
        exact hfresh (List.any_eq_true.mpr ⟨d, hd, decide_eq_true (heq.trans hother)⟩)

end Xml

namespace Binding

open Epub.Schema Epub.Text Epub.Xml

variable {κ : Type}

/-- A name that an element can be written under, with what it declares. -/
structure ItemName.IsProper (item : ItemName) : Prop where
  name : isNCName item.name = true
  ns : ∀ uri, item.ns = some uri → IsNamespace uri
  declarations : ∀ d ∈ item.declarations, d.IsProper

instance (item : ItemName) : Decidable item.IsProper :=
  decidable_of_iff
    (isNCName item.name = true ∧ (∀ uri ∈ item.ns, IsNamespace uri) ∧
      ∀ d ∈ item.declarations, d.IsProper)
    ⟨fun h => ⟨h.1, h.2.1, h.2.2⟩, fun h => ⟨h.name, h.ns, h.declarations⟩⟩

/-- What the table of a type gives to an element in `ns` can be written. -/
structure LegibleAt (family : Family κ) (key : κ) (ns : Option String) : Prop where
  attributes : ∀ bound ∈ (family key).fields, bound.field.placement = .attr →
    QName.IsAttributeName ⟨bound.field.tag.name, bound.field.rule.forAttribute⟩
  wrappers : ∀ bound ∈ (family key).fields, bound.field.placement = .wrappedList →
    ItemName.IsProper ⟨bound.field.tag.wrapperName, bound.field.rule.effective ns,
      bound.field.declarations⟩
  members : ∀ bound ∈ (family key).fields, ∀ type ∈ bound.field.kind.types,
    (memberName family bound.field ns type).IsProper
  text : ∀ bound ∈ (family key).fields, bound.field.isText = true →
    ∀ other ∈ (family key).fields, childKeys family other.field ns = []

/-- The same for all elements that may stand inside. -/
def Legible (family : Family κ) (key : κ) (ns : Option String) : Prop :=
  ∀ type inner, Reaches family key ns type inner → LegibleAt family type inner

theorem Legible.inside {family : Family κ} {key member : κ} {ns : Option String}
    {bound : BoundField κ} (hfamily : Legible family key ns)
    (hbound : bound ∈ (family key).fields) (hmember : member ∈ bound.field.kind.types) :
    Legible family member (memberName family bound.field ns member).ns :=
  fun type inner hreaches =>
    hfamily type inner (Reaches.trans (.inside .here hbound hmember) hreaches)

/-- What a record adds of its own can be written: a text has a character that shows,
unless it is empty, and leftover attributes have names of attributes. -/
inductive Record.IsLegible (family : Family κ) : Record κ → Prop where
  | mk {key : κ} {slots : List (Option (FieldValue κ))}
      (htexts : ∀ row ∈ (family key).fields.zip slots, row.1.field.isText = true →
        ∀ value, row.2 = some (.scalar value) → value.text = "" ∨ isBlankText value.text = false)
      (hother : ∀ slot ∈ slots, ∀ entry ∈ slotEntries slot, entry.1.IsAttributeName)
      (hmembers : ∀ slot ∈ slots, ∀ member ∈ slotMembers slot, Record.IsLegible family member) :
      Record.IsLegible family (.mk key slots)

section Written

variable {family : Family κ} {ns : Option String} {rows : List (Row κ)}

/-- An element of a proper name is proper if its attributes are. -/
theorem isProper_of_item {item : ItemName} (hitem : item.IsProper) {e : Element}
    (hname : e.name = item.name) (hns : e.ns = item.ns)
    (hdeclarations : e.declarations =
      ((Element.empty item.name item.ns).declareAll item.declarations).declarations)
    (hkeys : ∀ attr ∈ e.attributes, attr.key.IsAttributeName)
    (hnodup : (e.attributes.map Attribute.key).Nodup) : e.IsProper := by
  refine ⟨?_, ?_, fun attr hattr => (hkeys attr hattr).name,
    fun attr hattr => (hkeys attr hattr).ns,
    fun attr hattr => (hkeys attr hattr).not_declaration, hnodup, ?_, ?_⟩
  · rw [hname]
    exact hitem.name
  · rw [hns]
    exact hitem.ns
  · rw [hdeclarations]
    intro d hd
    rcases Element.mem_declarations_declareAll hd with hnone | hmem
    · exact absurd hnone List.not_mem_nil
    · exact hitem.declarations d hmem
  · rw [hdeclarations]
    exact Element.nodup_labels_declareAll item.declarations List.nodup_nil

/-- The names, namespaces and declarations of what is written are in order. -/
theorem isProper_assemble {key : κ} (hlegible : LegibleAt family key ns)
    (hfields : rows.map Row.bound = (family key).fields) (hlaid : Laid family ns rows)
    (hother : ∀ row ∈ rows, ∀ entry ∈ slotEntries row.slot, entry.1.IsAttributeName)
    {item : ItemName} (hitem : item.IsProper) :
    (assemble ((Element.empty item.name item.ns).declareAll item.declarations)
      (rows.map Row.part)).IsProper := by
  have hassembled := assembled_assemble rows item.name item.ns item.declarations
  refine isProper_of_item hitem (by simp [assemble, Element.empty]) hassembled.ns rfl ?_ ?_
  · rw [hassembled.attributes]
    intro attr hattr
    obtain ⟨row, hrow, hattr⟩ := List.mem_flatMap.mp hattr
    rcases attribute_cases (hlaid.wrote row hrow) hattr with
      ⟨_, _, hplace, _, rfl⟩ | ⟨other, hslot, _, entry, hentry, rfl⟩
    · exact hlegible.attributes _ (hfields ▸ List.mem_map_of_mem hrow) hplace
    · have hmem : entry ∈ slotEntries row.slot := by
        rw [hslot]
        exact hentry
      exact hother row hrow entry hmem
  · rw [hassembled.attributes]
    exact hlaid.nodup_keys

/-- Only a field that holds a text leaves one. -/
theorem text_of_wrote {bound : BoundField κ} {slot : Option (FieldValue κ)} {part : Part}
    (hwrote : Wrote family ns bound slot part) {text : String} (htext : part.text = some text) :
    bound.field.isText = true ∧ ∃ value, slot = some (.scalar value) ∧ value.text = text := by
  cases hwrote with
  | text hplace _ => exact ⟨(value_of_text hplace).2, _, rfl, Option.some.inj htext⟩
  | _ => contradiction

theorem keepsText_of_assembled {key : κ} {e : Element} (hlegible : LegibleAt family key ns)
    (hfields : rows.map Row.bound = (family key).fields) (hlaid : Laid family ns rows)
    (he : Assembled ns rows e) (hkeys : KeysFit family ns rows)
    (htexts : ∀ row ∈ rows, row.bound.field.isText = true →
      ∀ value, row.slot = some (.scalar value) →
        value.text = "" ∨ isBlankText value.text = false) : e.KeepsText := by
  intro text htext
  rw [he.text] at htext
  obtain ⟨row, hrow, hpart⟩ := List.mem_filterMap.mp (List.mem_of_getLast? htext)
  obtain ⟨hisText, value, hslot, rfl⟩ := text_of_wrote (hlaid.wrote row hrow) hpart
  refine (htexts row hrow hisText value hslot).imp_right fun hblank => ⟨hblank, ?_⟩
  rw [he.children, List.flatMap_eq_nil_iff]
  intro other hother
  have hnone := hlegible.text _ (hfields ▸ List.mem_map_of_mem hrow) hisText _
    (hfields ▸ List.mem_map_of_mem hother)
  rw [List.eq_nil_iff_forall_not_mem]
  intro child hchild
  have hkey := hkeys other hother child hchild
  rw [hnone] at hkey
  exact absurd hkey List.not_mem_nil

/-- The children of what is written are legible if those of the members are. -/
theorem everywhere_of_wrote {bound : BoundField κ} {slot : Option (FieldValue κ)} {part : Part}
    (hwrote : Wrote family ns bound slot part)
    (hwrapper : bound.field.placement = .wrappedList → ItemName.IsProper
      ⟨bound.field.tag.wrapperName, bound.field.rule.effective ns, bound.field.declarations⟩)
    (hmembers : ∀ member ∈ slotMembers slot, ∀ child,
      WritesChild family (memberName family bound.field ns) member child →
        child.Everywhere Element.IsLegible) :
    ∀ child ∈ part.children, child.Everywhere Element.IsLegible := by
  refine hwrote.everywhere (fun items hplace _ => ⟨?_, ?_⟩) hmembers
  · refine isProper_of_item (hwrapper hplace) ?_ ?_ rfl ?_ ?_
    all_goals simp [wrapperElement, Element.empty]
  · simp [wrapperElement, Element.empty, Element.KeepsText]

/-- An element put together from rows can be held by a document if its children can. -/
theorem everywhere_assemble {key : κ} (hlegible : LegibleAt family key ns)
    (hfields : rows.map Row.bound = (family key).fields) (hlaid : Laid family ns rows)
    (hkeys : KeysFit family ns rows)
    (htexts : ∀ row ∈ rows, row.bound.field.isText = true →
      ∀ value, row.slot = some (.scalar value) →
        value.text = "" ∨ isBlankText value.text = false)
    (hother : ∀ row ∈ rows, ∀ entry ∈ slotEntries row.slot, entry.1.IsAttributeName)
    (hchildren : ∀ row ∈ rows, ∀ member ∈ slotMembers row.slot, ∀ child,
      WritesChild family (memberName family row.bound.field ns) member child →
        child.Everywhere Element.IsLegible)
    {item : ItemName} (hitem : item.IsProper) (hns : item.ns = ns) :
    (assemble ((Element.empty item.name item.ns).declareAll item.declarations)
      (rows.map Row.part)).Everywhere Element.IsLegible := by
  subst hns
  have hassembled := assembled_assemble rows item.name item.ns item.declarations
  refine ⟨⟨isProper_assemble hlegible hfields hlaid hother hitem,
    keepsText_of_assembled hlegible hfields hlaid hassembled hkeys htexts⟩, ?_⟩
  rw [hassembled.children]
  intro child hmem
  obtain ⟨row, hrow, hmem⟩ := List.mem_flatMap.mp hmem
  exact everywhere_of_wrote (hlaid.wrote row hrow)
    (hlegible.wrappers row.bound (hfields ▸ List.mem_map_of_mem hrow)) (hchildren row hrow) child
    hmem

end Written

/-- What is written for a legible record is a tree that a document can hold. -/
theorem everywhere_of_writeElement [DecidableEq κ] {family : Family κ} {record : Record κ}
    (hrecord : record.IsLegible family) (htyped : record.WellTyped family) (item : ItemName)
    (hfamily : Unambiguous family record.type item.ns)
    (hlegible : Legible family record.type item.ns)
    (hcomplete : (record.settle family).Complete family item.ns) (hitem : item.IsProper)
    {e : Element}
    (hwrite : writeElement family record item.name item.ns item.declarations = .ok e) :
    e.Everywhere Element.IsLegible := by
  induction hrecord generalizing item e with
  | @mk key slots htexts hother _ ih =>
      change Unambiguous family key item.ns at hfamily
      have hexists : ∀ pair ∈ (family key).fields.zip slots, ∀ member ∈ slotMembers pair.2,
          ∃ child, WritesChild family (memberName family pair.1.field item.ns) member child ∧
            elementKey child = (memberName family pair.1.field item.ns member.type).key :=
        fun _ hpair _ hmember => exists_writesChild htyped hfamily hcomplete hpair hmember
      cases htyped with
      | mk hslots hmembers =>
          have hat : LegibleAt family key item.ns := hlegible _ _ .here
          obtain ⟨rows, hfields, rfl, hlaid, hwritten⟩ := exists_laid hfamily.here hslots
            hcomplete fun pair hpair member hmember =>
              (hexists pair hpair member hmember).imp fun _ hchild => hchild.1
          obtain rfl : assemble _ _ = e :=
            Except.ok.inj ((hwritten item.name item.declarations).symm.trans hwrite)
          have hpair : ∀ row ∈ rows,
              (row.bound, row.slot) ∈ (family key).fields.zip (rows.map Row.slot) := by
            intro row hrow
            rw [← hfields, List.zip_map']
            exact List.mem_map_of_mem hrow
          have hchild : ∀ row ∈ rows, ∀ member ∈ slotMembers row.slot, ∀ child,
              WritesChild family (memberName family row.bound.field item.ns) member child →
                child.Everywhere Element.IsLegible := by
            intro row hrow member hmember child hwrites
            have hbound := (List.of_mem_zip (hpair row hrow)).1
            have htype := (hlaid.carries row hrow).type_mem hmember
            exact ih row.slot (List.mem_map_of_mem hrow) member hmember
              (hmembers row.slot (List.mem_map_of_mem hrow) member hmember)
              (memberName family row.bound.field item.ns member.type)
              (hfamily.inside hbound htype) (hlegible.inside hbound htype)
              (hcomplete.member (hpair row hrow) hmember)
              (hat.members row.bound hbound member.type htype) hwrites
          have hkeys : KeysFit family item.ns rows := by
            intro row hrow child hmem
            refine elementKey_mem_of_wrote (hlaid.carries row hrow) (hlaid.wrote row hrow)
              (fun member hmember child hwrites => ?_) hmem
            obtain ⟨other, hother, hkey⟩ := hexists _ (hpair row hrow) member hmember
            obtain rfl : other = child := Except.ok.inj (hother.symm.trans hwrites)
            exact hkey
          exact everywhere_assemble hat hfields hlaid hkeys
            (fun row hrow => htexts _ (hpair row hrow))
            (fun row hrow => hother row.slot (List.mem_map_of_mem hrow)) hchild hitem rfl

end Binding

end Epub
