/-
Written trees.  Whatever a record holds, no element that is written for it has two
attributes under one key: an attribute that stands there already gets a new value, and
leftover attributes make way for it.
-/
import Epub.Binding.Writing
import Epub.Proofs.Binding.Outcome
import Epub.Proofs.Xml.Tree

namespace Epub

namespace Xml

namespace Element

/-- Whether no two attributes of the element are under one key. -/
def HasDistinctKeys (e : Element) : Prop :=
  (e.attributes.map Attribute.key).Nodup

instance : DecidablePred HasDistinctKeys :=
  fun e => inferInstanceAs (Decidable (e.attributes.map Attribute.key).Nodup)

variable {e child : Element}

theorem hasDistinctKeys_setAttribute (hkeys : e.Everywhere HasDistinctKeys) (key : QName)
    (value : String) : (e.setAttribute key value).Everywhere HasDistinctKeys :=
  ⟨nodup_setIn key value hkeys.here, fun _ hchild => hkeys.inside hchild⟩

theorem hasDistinctKeys_addChild (hkeys : e.Everywhere HasDistinctKeys)
    (hchild : child.Everywhere HasDistinctKeys) :
    (e.addChild child).Everywhere HasDistinctKeys := by
  refine ⟨hkeys.here, fun other hother => ?_⟩
  rcases List.mem_append.mp hother with hold | hnew
  · exact hkeys.inside hold
  · exact List.mem_singleton.mp hnew ▸ hchild

/-- An element without attributes and children has none that agree. -/
theorem hasDistinctKeys_empty (name : String) (ns : Option String)
    (declarations : List NamespaceDecl) :
    ((empty name ns).declareAll declarations).Everywhere HasDistinctKeys := by
  refine ⟨?_, fun child hchild => ?_⟩
  · rw [HasDistinctKeys, declareAll_attributes]
    exact List.nodup_nil
  · rw [declareAll_children] at hchild
    exact absurd hchild List.not_mem_nil

end Element

end Xml

namespace Binding

open Epub.Schema Epub.Xml Element

variable {κ : Type} {family : Family κ}

theorem hasDistinctKeys_addOther {e : Element} (hkeys : e.Everywhere HasDistinctKeys)
    (other : OtherAttributes) : (addOther e other).Everywhere HasDistinctKeys := by
  rw [addOther]
  generalize other.entries = entries
  induction entries generalizing e with
  | nil => exact hkeys
  | cons entry rest ih =>
      refine ih ?_
      dsimp only
      split
      · exact hkeys
      · exact hasDistinctKeys_setAttribute hkeys entry.1 entry.2

mutual

theorem hasDistinctKeys_writeInto {e written : Element}
    (hkeys : e.Everywhere HasDistinctKeys) :
    ∀ record : Record κ, writeInto family e record = .ok written →
      written.Everywhere HasDistinctKeys
  | .mk _ slots, hwrite => by
      rw [writeInto] at hwrite
      obtain ⟨_, _, hwrite⟩ := bind_eq_ok.mp hwrite
      exact hasDistinctKeys_writeSlots _ _ _ hkeys slots hwrite

/-- Slots are written in turn, each into what the ones before have left. -/
theorem hasDistinctKeys_writeSlots {e written : Element} (typeName : String) (ns : Option String)
    (fields : List (BoundField κ × Tag)) (hkeys : e.Everywhere HasDistinctKeys) :
    ∀ slots : List (Option (FieldValue κ)),
      writeSlots family typeName ns fields e slots = .ok written →
        written.Everywhere HasDistinctKeys
  | [], hwrite => by
      cases fields <;> exact Except.ok.inj hwrite ▸ hkeys
  | slot :: slots, hwrite => by
      cases fields with
      | nil => exact Except.ok.inj hwrite ▸ hkeys
      | cons field fields =>
          rw [writeSlots] at hwrite
          obtain ⟨_, hslot, hwrite⟩ := bind_eq_ok.mp hwrite
          exact hasDistinctKeys_writeSlots typeName ns fields
            (hasDistinctKeys_writeSlot typeName ns field.1 field.2 hkeys slot hslot) slots hwrite

theorem hasDistinctKeys_writeSlot {e written : Element} (typeName : String) (ns : Option String)
    (bound : BoundField κ) (tag : Tag) (hkeys : e.Everywhere HasDistinctKeys) :
    ∀ slot : Option (FieldValue κ), writeSlot family typeName ns bound tag e slot = .ok written →
      written.Everywhere HasDistinctKeys
  | none, hwrite => Except.ok.inj hwrite ▸ hkeys
  | some value, hwrite => hasDistinctKeys_writeValue typeName ns bound tag hkeys value hwrite

/-- A value is written as an attribute, as the text, or as children written likewise. -/
theorem hasDistinctKeys_writeValue {e written : Element} (typeName : String) (ns : Option String)
    (bound : BoundField κ) (tag : Tag) (hkeys : e.Everywhere HasDistinctKeys) :
    ∀ value : FieldValue κ, writeValue family typeName ns bound tag e value = .ok written →
      written.Everywhere HasDistinctKeys
  | .scalar value, hwrite => by
      rw [writeValue] at hwrite
      split at hwrite
      · exact Except.ok.inj hwrite ▸ hkeys
      · split at hwrite
        · exact Except.ok.inj hwrite ▸ hasDistinctKeys_setAttribute hkeys _ _
        · exact Except.ok.inj hwrite ▸ ⟨hkeys.here, fun _ hchild => hkeys.inside hchild⟩
        · contradiction
  | .element record, hwrite => by
      rw [writeValue] at hwrite
      split at hwrite
      · obtain ⟨child, hchild, hwrite⟩ := bind_eq_ok.mp hwrite
        have hinner := hasDistinctKeys_writeInto (hasDistinctKeys_empty _ _ _) record hchild
        exact Except.ok.inj hwrite ▸ hasDistinctKeys_addChild hkeys hinner
      · contradiction
  | .list records, hwrite => by
      rw [writeValue] at hwrite
      split at hwrite
      · split at hwrite
        · exact Except.ok.inj hwrite ▸ hkeys
        · obtain ⟨wrapper, hwrapper, hwrite⟩ := bind_eq_ok.mp hwrite
          have hinner := hasDistinctKeys_writeItems _ (hasDistinctKeys_empty _ _ _) records hwrapper
          exact Except.ok.inj hwrite ▸ hasDistinctKeys_addChild hkeys hinner
      · exact hasDistinctKeys_writeItems _ hkeys records hwrite
      · contradiction
  | .overflow other, hwrite => by
      rw [writeValue] at hwrite
      split at hwrite
      · exact Except.ok.inj hwrite ▸ hkeys
      · split at hwrite
        · exact Except.ok.inj hwrite ▸ hasDistinctKeys_addOther hkeys other
        · contradiction

theorem hasDistinctKeys_writeItems {e written : Element} (naming : κ → ItemName)
    (hkeys : e.Everywhere HasDistinctKeys) :
    ∀ records : List (Record κ), writeItems family naming e records = .ok written →
      written.Everywhere HasDistinctKeys
  | [], hwrite => Except.ok.inj hwrite ▸ hkeys
  | record :: rest, hwrite => by
      rw [writeItems] at hwrite
      obtain ⟨child, hchild, hwrite⟩ := bind_eq_ok.mp hwrite
      have hinner := hasDistinctKeys_writeInto (hasDistinctKeys_empty _ _ _) record hchild
      exact hasDistinctKeys_writeItems naming (hasDistinctKeys_addChild hkeys hinner) rest hwrite

end

/-- The root of a written document is written as an element of its type. -/
theorem writeElement_of_writeDocument {record : Record κ} {document : Document}
    (hwrite : (writeDocument family record).outcome = .ok document) :
    writeElement family record (family record.type).name
      ((family record.type).rule.effective none) (family record.type).declarations =
        .ok document.root := by
  simp only [writeDocument, Traced.outcome_bind, Traced.outcome_note, Traced.outcome_lift,
    Traced.outcome_pure, ok_bind, bind_eq_ok, mapError_eq_ok] at hwrite
  obtain ⟨root, hroot, hdocument⟩ := hwrite
  cases Except.ok.inj hdocument
  exact hroot

/-- No element of a written document has two attributes under one key. -/
theorem hasDistinctKeys_of_writeDocument {record : Record κ} {document : Document}
    (hwrite : (writeDocument family record).outcome = .ok document) :
    document.root.Everywhere HasDistinctKeys :=
  hasDistinctKeys_writeInto (hasDistinctKeys_empty _ _ _) record
    (writeElement_of_writeDocument hwrite)

end Binding

end Epub
