/-
Writable models: those that a document can hold.  Lists that may not be empty are not,
texts have a character that shows, and `meta` has no attribute besides its own that would
be taken for one of them.
-/
import Epub.Proofs.Model.Faithful
import Epub.Proofs.Model.Storable

namespace Epub.Model

open Epub.Binding Epub.Schema Epub.Text Epub.Xml

/-- The attributes that `meta` declares without a namespace, and which of them it has. -/
def Meta.declared (info : Meta) : List (String × Bool) :=
  [("id", info.id.isSome), ("property", info.property.isSome), ("refines", info.refines.isSome),
    ("scheme", info.scheme.isSome), ("name", info.name.isSome), ("content", info.content.isSome),
    ("dir", info.dir.isSome)]

/-- Whether an attribute of this name can stand beside those that `meta` declares.  In the
namespace of the element it can if the declared one is there to be read first. -/
structure Meta.Admits (info : Meta) (key : QName) : Prop where
  name : key.IsAttributeName
  lang : key ≠ ⟨"lang", some xmlNamespace⟩
  unqualified : ∀ field ∈ info.declared, key ≠ ⟨field.1, none⟩
  qualified : ∀ field ∈ info.declared, key = ⟨field.1, some opfNamespace⟩ → field.2 = true

instance (info : Meta) (key : QName) : Decidable (info.Admits key) :=
  decidable_of_iff
    (key.IsAttributeName ∧ key ≠ ⟨"lang", some xmlNamespace⟩ ∧
      (∀ field ∈ info.declared, key ≠ ⟨field.1, none⟩) ∧
      ∀ field ∈ info.declared, key = ⟨field.1, some opfNamespace⟩ → field.2 = true)
    ⟨fun h => ⟨h.1, h.2.1, h.2.2.1, h.2.2.2⟩,
      fun h => ⟨h.name, h.lang, h.unqualified, h.qualified⟩⟩

/-- Whether what an entry holds can be written: a title, an identifier and a language need
a text, and every text that is not empty has a character that shows. -/
def MetadataEntry.IsWritable : MetadataEntry → Prop
  | .identifier entry => isBlankText entry.value = false
  | .text element entry =>
      element ≠ .title ∧ entry.value = "" ∨ isBlankText entry.value = false
  | .language entry => isBlankText entry.value = false
  | .agent _ entry => entry.value = "" ∨ isBlankText entry.value = false
  | .date entry => entry.value = "" ∨ isBlankText entry.value = false
  | .metaInfo entry =>
      (entry.value = "" ∨ isBlankText entry.value = false) ∧
        ∀ other ∈ entry.other.entries, entry.Admits other.1
  | .link _ => True

instance : (entry : MetadataEntry) → Decidable entry.IsWritable
  | .identifier _ => inferInstanceAs (Decidable (_ = _))
  | .text _ _ => inferInstanceAs (Decidable (_ ∧ _ ∨ _))
  | .language _ => inferInstanceAs (Decidable (_ = _))
  | .agent _ _ => inferInstanceAs (Decidable (_ ∨ _))
  | .date _ => inferInstanceAs (Decidable (_ ∨ _))
  | .metaInfo entry =>
      inferInstanceAs (Decidable (_ ∧ ∀ other ∈ entry.other.entries, entry.Admits other.1))
  | .link _ => inferInstanceAs (Decidable True)

/-- The same for all entries. -/
def Metadata.IsWritable (metadata : Metadata) : Prop :=
  ∀ entry ∈ metadata.entries, entry.IsWritable

instance (metadata : Metadata) : Decidable metadata.IsWritable :=
  inferInstanceAs (Decidable (∀ entry ∈ metadata.entries, entry.IsWritable))

/-- The metadata of a collection and of all collections in it is writable. -/
inductive Collection.IsWritable : Collection → Prop where
  | intro {collection : Collection}
      (hmetadata : ∀ metadata, collection.metadata = some metadata → metadata.IsWritable)
      (hinner : ∀ inner ∈ collection.collections, inner.IsWritable) : collection.IsWritable

/-- A package that a document can hold. -/
structure Package.IsWritable (package : Package) : Prop where
  items : package.manifest.items ≠ []
  itemrefs : package.spine.itemrefs ≠ []
  references : ∀ guide, package.guide = some guide → guide.references ≠ []
  mediaTypes : ∀ bindings, package.bindings = some bindings → bindings.mediaTypes ≠ []
  metadata : package.metadata.IsWritable
  collections : ∀ collection ∈ package.collections, collection.IsWritable

section Storable

open Lasts

theorem TextEntry.isStorable {element : TextElement} {entry : TextEntry}
    (hwritable : MetadataEntry.IsWritable (.text element entry)) :
    IsStorable (entry.toRecord element) := by
  refine isStorable_of_plain ((TextEntry.represents element).wellTyped entry)
    (by cases element <;> decide) (.cons (string? rfl rfl _) (.cons (string? rfl rfl _)
      (.cons (direction? _) (.cons (text (hwritable.imp_left fun hempty => ⟨?_, hempty.2⟩))
        .nil))))
  rw [if_neg hempty.1]
  rfl

theorem Agent.isStorable {element : AgentElement} {agent : Agent}
    (hwritable : MetadataEntry.IsWritable (.agent element agent)) :
    IsStorable (agent.toRecord element) :=
  isStorable_of_plain ((Agent.represents element).wellTyped agent)
    (by cases element <;> decide) (.cons (string? rfl rfl _) (.cons (string? rfl rfl _)
      (.cons (direction? _) (.cons (string? rfl rfl _) (.cons (string? rfl rfl _)
        (.cons (text (hwritable.imp_left fun hempty => ⟨rfl, hempty⟩)) .nil))))))

theorem Identifier.isStorable {identifier : Identifier}
    (hwritable : MetadataEntry.IsWritable (.identifier identifier)) :
    IsStorable identifier.toRecord :=
  isStorable_of_plain (Identifier.represents.wellTyped identifier) (by decide)
    (.cons (string? rfl rfl _) (.cons (string? rfl rfl _) (.cons (text (Or.inr hwritable))
      .nil)))

theorem Language.isStorable {language : Language}
    (hwritable : MetadataEntry.IsWritable (.language language)) :
    IsStorable language.toRecord :=
  isStorable_of_plain (Language.represents.wellTyped language) (by decide)
    (.cons (string? rfl rfl _) (.cons (text (Or.inr hwritable)) .nil))

theorem Date.isStorable {date : Date} (hwritable : MetadataEntry.IsWritable (.date date)) :
    IsStorable date.toRecord :=
  isStorable_of_plain (Date.represents.wellTyped date) (by decide)
    (.cons (string? rfl rfl _) (.cons (string? rfl rfl _)
      (.cons (text (hwritable.imp_left fun hempty => ⟨rfl, hempty⟩)) .nil)))

theorem Link.isStorable (link : Link) : IsStorable link.toRecord :=
  isStorable_of_plain (Link.represents.wellTyped link) (by decide)
    (.cons (string rfl rfl _) (.cons (string rfl rfl _) (.cons (string? rfl rfl _)
      (.cons (string? rfl rfl _) (.cons (string? rfl rfl _) (.cons (string? rfl rfl _)
        (.cons (string? rfl rfl _) .nil)))))))

theorem ManifestItem.isStorable (item : ManifestItem) : IsStorable item.toRecord :=
  isStorable_of_plain (ManifestItem.represents.wellTyped item) (by decide)
    (.cons (string rfl rfl _) (.cons (string rfl rfl _) (.cons (string rfl rfl _)
      (.cons (string? rfl rfl _) (.cons (string? rfl rfl _) (.cons (string? rfl rfl _)
        (.cons (string? rfl rfl _) .nil)))))))

theorem Itemref.isStorable (itemref : Itemref) : IsStorable itemref.toRecord :=
  isStorable_of_plain (Itemref.represents.wellTyped itemref) (by decide)
    (.cons (string rfl rfl _) (.cons (Lasts.linear _) (.cons (string? rfl rfl _)
      (.cons (string? rfl rfl _) .nil))))

theorem Reference.isStorable (reference : Reference) : IsStorable reference.toRecord :=
  isStorable_of_plain (Reference.represents.wellTyped reference) (by decide)
    (.cons (string rfl rfl _) (.cons (string? rfl rfl _) (.cons (string rfl rfl _) .nil)))

theorem MediaType.isStorable (mediaType : MediaType) : IsStorable mediaType.toRecord :=
  isStorable_of_plain (MediaType.represents.wellTyped mediaType) (by decide)
    (.cons (string rfl rfl _) (.cons (string rfl rfl _) .nil))

theorem CollectionLink.isStorable (link : CollectionLink) : IsStorable link.toRecord :=
  isStorable_of_plain (CollectionLink.represents.wellTyped link) (by decide)
    (.cons (string rfl rfl _) (.cons (string? rfl rfl _) (.cons (string? rfl rfl _)
      (.cons (string? rfl rfl _) .nil))))

/-- The records of a list of models can be stored if each can. -/
theorem isStorable_of_mem_map {α : Type} {toRecord : α → ElementRecord} {models : List α}
    (hmodels : ∀ model ∈ models, IsStorable (toRecord model)) :
    ∀ record ∈ models.map toRecord, IsStorable record :=
  List.forall_mem_map.mpr hmodels

theorem Rootfile.isStorable (rootfile : Rootfile) : IsStorable rootfile.toRecord :=
  isStorable_of_plain (Rootfile.represents.wellTyped rootfile) (by decide)
    (.cons (string rfl rfl _) (.cons (string rfl rfl _) .nil))

theorem ContainerLink.isStorable (link : ContainerLink) : IsStorable link.toRecord :=
  isStorable_of_plain (ContainerLink.represents.wellTyped link) (by decide)
    (.cons (string rfl rfl _) (.cons (string rfl rfl _) (.cons (string? rfl rfl _) .nil)))

/-- The record of any container can be stored: its lists are in elements of their own. -/
theorem Container.isStorable (container : Container) : IsStorable container.toRecord :=
  isStorable_of_plain (Container.represents.wellTyped container) (by decide)
    (.cons (string rfl rfl _)
      (.cons (wrapped rfl (isStorable_of_mem_map fun rootfile _ => rootfile.isStorable))
      (.cons (wrapped rfl (isStorable_of_mem_map fun link _ => link.isStorable)) .nil)))

theorem Manifest.isStorable {manifest : Manifest} (hitems : manifest.items ≠ []) :
    IsStorable manifest.toRecord :=
  isStorable_of_plain (Manifest.represents.wellTyped manifest) (by decide)
    (.cons (string? rfl rfl _) (.cons (list
      (isStorable_of_mem_map fun item _ => item.isStorable)
      (Or.inr (by simpa using hitems))) .nil))

theorem Spine.isStorable {spine : Spine} (hitemrefs : spine.itemrefs ≠ []) :
    IsStorable spine.toRecord :=
  isStorable_of_plain (Spine.represents.wellTyped spine) (by decide)
    (.cons (string? rfl rfl _) (.cons (string? rfl rfl _) (.cons (Lasts.pageProgression? _)
      (.cons (list (isStorable_of_mem_map fun itemref _ => itemref.isStorable)
        (Or.inr (by simpa using hitemrefs))) .nil))))

theorem Guide.isStorable {guide : Guide} (hreferences : guide.references ≠ []) :
    IsStorable guide.toRecord :=
  isStorable_of_plain (Guide.represents.wellTyped guide) (by decide)
    (.cons (list (isStorable_of_mem_map fun reference _ => reference.isStorable)
      (Or.inr (by simpa using hreferences))) .nil)

theorem Bindings.isStorable {bindings : Bindings} (hmediaTypes : bindings.mediaTypes ≠ []) :
    IsStorable bindings.toRecord :=
  isStorable_of_plain (Bindings.represents.wellTyped bindings) (by decide)
    (.cons (list (isStorable_of_mem_map fun mediaType _ => mediaType.isStorable)
      (Or.inr (by simpa using hmediaTypes))) .nil)

namespace Meta

variable {info : Meta} {key : QName} {bound : BoundField ElementType} {slot : Slot}
  {value : String}

/-- An attribute that a field of `meta` reads has the name of the field, and no namespace or
that of the element. -/
theorem eq_of_reads (hrule : bound.field.rule = .inherited)
    (hreads : Reads bound.field ElementType.metaInfo.place (entryAttribute (key, value))) :
    key = ⟨bound.field.tag.name, none⟩ ∨ key = ⟨bound.field.tag.name, some opfNamespace⟩ := by
  obtain ⟨hname, hns⟩ := attributeMatches_iff.mp hreads.2
  rw [hrule, NamespaceRule.admits, Bool.or_eq_true] at hns
  exact hns.imp (fun hnone => congr (congrArg QName.mk hname) (of_decide_eq_true hnone))
    fun hown => congr (congrArg QName.mk hname) (of_decide_eq_true hown)

/-- An attribute that `meta` admits is read for none of those that it declares. -/
theorem apart_of_declared (hadmits : info.Admits key) (hrule : bound.field.rule = .inherited)
    (hfield : (bound.field.tag.name, slot.isSome) ∈ info.declared)
    (hreads : Reads bound.field ElementType.metaInfo.place (entryAttribute (key, value))) :
    key.ns ≠ none ∧ bound.field.rule.forAttribute = none ∧ slot ≠ none := by
  rcases eq_of_reads hrule hreads with hkey | hkey
  · exact absurd hkey (hadmits.unqualified _ hfield)
  · refine ⟨by simp [hkey], by rw [hrule]; rfl, fun hempty => ?_⟩
    have hsome := hadmits.qualified _ hfield hkey
    rw [hempty] at hsome
    contradiction

theorem isApart (hadmits : info.Admits key) (value : String) :
    IsApart ElementType.metaInfo.place ((fieldsOf .metaInfo).zip
      (settleSlots family (fieldsOf .metaInfo) info.toRecord.slots))
      (entryAttribute (key, value)) := by
  rw [zip_settleSlots]
  intro row hrow hreads
  have hstring : ∀ name s, (name, s.isSome) ∈ info.declared →
      ((optionalString name).field.tag.name,
        (settleSlot family (optionalString name) (Slot.string? s)).isSome) ∈ info.declared := by
    intro name s hname
    rw [settleSlot_string? rfl rfl]
    cases s <;> exact hname
  simp only [fieldsOf, toRecord, Record.slots, List.zip_cons_cons, List.zip_nil_right,
    List.map_cons, List.map_nil, List.mem_cons, List.not_mem_nil, or_false] at hrow
  rcases hrow with rfl | rfl | rfl | rfl | rfl | rfl | rfl | rfl | rfl | rfl
  · exact apart_of_declared hadmits rfl (hstring _ _ (by simp [declared])) hreads
  · exact apart_of_declared hadmits rfl (hstring _ _ (by simp [declared])) hreads
  · exact apart_of_declared hadmits rfl (hstring _ _ (by simp [declared])) hreads
  · exact apart_of_declared hadmits rfl (hstring _ _ (by simp [declared])) hreads
  · exact apart_of_declared hadmits rfl (hstring _ _ (by simp [declared])) hreads
  · exact apart_of_declared hadmits rfl (hstring _ _ (by simp [declared])) hreads
  · obtain ⟨hname, hns⟩ := attributeMatches_iff.mp hreads.2
    have hlang : key.ns = some xmlNamespace := of_decide_eq_true hns
    exact absurd (congr (congrArg QName.mk hname) hlang) hadmits.lang
  · refine apart_of_declared hadmits rfl ?_ hreads
    rw [settleSlot_direction?]
    have hdir : (Slot.direction? info.dir).isSome = info.dir.isSome := by
      cases info.dir <;> rfl
    rw [hdir]
    exact (by simp [declared] : ("dir", info.dir.isSome) ∈ info.declared)
  · exact absurd (show Placement.overflow = .attr from hreads.1) (by decide)
  · exact absurd (show Placement.text = .attr from hreads.1) (by decide)

/-- Its leftover attributes are all in one slot. -/
theorem flatMap_slotEntries (info : Meta) :
    info.toRecord.slots.flatMap slotEntries = info.other.entries := by
  simp [toRecord, Record.slots]

theorem isStorable (hwritable : MetadataEntry.IsWritable (.metaInfo info)) :
    IsStorable info.toRecord := by
  have hother : Lasts (.overflow (FieldDecl.overflow "other")) (some (.overflow info.other)) :=
    ⟨fun _ => rfl, nofun, fun entry hentry => (hwritable.2 entry hentry).name, nofun⟩
  refine isStorable_of_lasts (Meta.represents.wellTyped info) (.cons (string? rfl rfl _)
    (.cons (string? rfl rfl _) (.cons (string? rfl rfl _) (.cons (string? rfl rfl _)
    (.cons (string? rfl rfl _) (.cons (string? rfl rfl _) (.cons (string? rfl rfl _)
    (.cons (Lasts.direction? _) (.cons hother
      (.cons (text (hwritable.1.imp_left fun hempty => ⟨rfl, hempty⟩)) .nil)))))))))) ?_
  intro slot hslot entry hentry
  refine isApart (hwritable.2 entry ?_) entry.2
  rw [← flatMap_slotEntries]
  exact List.mem_flatMap.mpr ⟨slot, hslot, hentry⟩

end Meta

theorem MetadataEntry.isStorable {entry : MetadataEntry} (hwritable : entry.IsWritable) :
    IsStorable entry.toRecord := by
  cases entry with
  | identifier _ => exact Identifier.isStorable hwritable
  | text _ _ => exact TextEntry.isStorable hwritable
  | language _ => exact Language.isStorable hwritable
  | agent _ _ => exact Agent.isStorable hwritable
  | date _ => exact Date.isStorable hwritable
  | metaInfo _ => exact Meta.isStorable hwritable
  | link link => exact link.isStorable

theorem Metadata.isStorable {metadata : Metadata} (hwritable : metadata.IsWritable) :
    IsStorable metadata.toRecord :=
  isStorable_of_plain (Metadata.represents.wellTyped metadata) (by decide)
    (.cons (list (isStorable_of_mem_map fun entry hentry =>
      MetadataEntry.isStorable (hwritable entry hentry)) (Or.inl rfl)) .nil)

theorem Collection.isStorable {collection : Collection} (hwritable : collection.IsWritable) :
    IsStorable collection.toRecord := by
  induction hwritable with
  | @intro collection hmetadata _ ih =>
      have htyped := Collection.represents.wellTyped collection
      rw [toRecord_eq] at htyped ⊢
      exact isStorable_of_plain htyped (by decide)
        (.cons (string rfl rfl _) (.cons (string? rfl rfl _) (.cons (string? rfl rfl _)
        (.cons (Lasts.direction? _)
        (.cons (Lasts.element? rfl fun metadata hsome =>
          Metadata.isStorable (hmetadata metadata hsome))
        (.cons (list (isStorable_of_mem_map ih) (Or.inl rfl))
          (.cons (list (isStorable_of_mem_map fun link _ => link.isStorable) (Or.inl rfl))
            .nil)))))))

/-- The record of a writable package can be stored. -/
theorem Package.isStorable {package : Package} (hwritable : package.IsWritable) :
    IsStorable package.toRecord := by
  have htyped := Package.represents.wellTyped package
  rw [toRecord, Collection.toRecords_eq_map] at htyped ⊢
  exact isStorable_of_plain htyped (by decide)
    (.cons (string rfl rfl _) (.cons (string rfl rfl _) (.cons (string? rfl rfl _)
    (.cons (string? rfl rfl _) (.cons (Lasts.direction? _) (.cons (string? rfl rfl _)
    (.cons (Lasts.element (Metadata.isStorable hwritable.metadata))
    (.cons (Lasts.element (Manifest.isStorable hwritable.items))
    (.cons (Lasts.element (Spine.isStorable hwritable.itemrefs))
    (.cons (Lasts.element? rfl fun guide hsome =>
      Guide.isStorable (hwritable.references guide hsome))
    (.cons (Lasts.element? rfl fun bindings hsome =>
      Bindings.isStorable (hwritable.mediaTypes bindings hsome))
    (.cons (list (isStorable_of_mem_map fun collection hcollection =>
      Collection.isStorable (hwritable.collections collection hcollection)) (Or.inl rfl))
      .nil))))))))))))

end Storable

end Epub.Model
