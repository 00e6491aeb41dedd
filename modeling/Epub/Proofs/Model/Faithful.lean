/-
The models of EPUB documents represent the elements of their types: no field of them is
lost between a model and its record.
-/
import Epub.Proofs.Model.Represents

namespace Epub.Model

open Epub.Binding Epub.Schema Epub.Xml Keeps

theorem Rootfile.represents : Represents .rootfile Rootfile.toRecord Rootfile.ofRecord :=
  represents_of_fields (.cons (string rfl rfl nofun) (.cons (string rfl rfl nofun) (.nil _)))
    (fun rootfile => (rootfile.fullPath, rootfile.mediaType, ()))
    (fun ⟨fullPath, mediaType, _⟩ => ⟨fullPath, mediaType⟩)
    (fun _ => rfl) (fun _ => rfl) (fun _ => rfl) fun _ => rfl

theorem ContainerLink.represents :
    Represents .containerLink ContainerLink.toRecord ContainerLink.ofRecord :=
  represents_of_fields
    (.cons (string rfl rfl nofun) (.cons (string rfl rfl nofun)
      (.cons (string? rfl rfl rfl rfl) (.nil _))))
    (fun link => (link.href, link.rel, link.mediaType, ()))
    (fun ⟨href, rel, mediaType, _⟩ => ⟨href, rel, mediaType⟩)
    (fun _ => rfl) (fun _ => rfl) (fun _ => rfl) fun _ => rfl

theorem Container.represents :
    Represents .container Container.toRecord Container.ofRecord :=
  represents_of_fields
    (.cons (required rfl rfl rfl rfl rfl _) (.cons (list Rootfile.represents rfl)
      (.cons (list ContainerLink.represents rfl) (.nil _))))
    (fun container => (container.version, container.rootfiles, container.links, ()))
    (fun ⟨version, rootfiles, links, _⟩ => ⟨version, rootfiles, links⟩)
    (fun _ => rfl) (fun _ => rfl) (fun _ => rfl) fun _ => rfl

theorem TextEntry.represents (element : TextElement) :
    Represents (.text element) (TextEntry.toRecord element) TextEntry.ofRecord :=
  represents_of_fields
    (.cons (string? rfl rfl rfl rfl) (.cons (string? rfl rfl rfl rfl) (.cons direction
      (.cons (string (by split <;> rfl) (by split <;> rfl) (by split <;> exact fun _ => rfl))
        (.nil _)))))
    (fun text => (text.id, text.lang, text.dir, text.value, ()))
    (fun ⟨id, lang, dir, value, _⟩ => ⟨id, lang, dir, value⟩)
    (fun _ => rfl) (fun _ => rfl) (fun _ => rfl) fun _ => rfl

theorem Agent.represents (element : AgentElement) :
    Represents (.agent element) (Agent.toRecord element) Agent.ofRecord :=
  represents_of_fields
    (.cons (string? rfl rfl rfl rfl) (.cons (string? rfl rfl rfl rfl) (.cons direction
      (.cons (string? rfl rfl rfl rfl) (.cons (string? rfl rfl rfl rfl)
        (.cons (string rfl rfl fun _ => rfl) (.nil _)))))))
    (fun agent =>
      (agent.id, agent.lang, agent.dir, agent.role, agent.fileAs, agent.value, ()))
    (fun ⟨id, lang, dir, role, fileAs, value, _⟩ => ⟨id, lang, dir, role, fileAs, value⟩)
    (fun _ => rfl) (fun _ => rfl) (fun _ => rfl) fun _ => rfl

theorem Identifier.represents :
    Represents .identifier Identifier.toRecord Identifier.ofRecord :=
  represents_of_fields
    (.cons (string? rfl rfl rfl rfl) (.cons (string? rfl rfl rfl rfl)
      (.cons (string rfl rfl fun _ => rfl) (.nil _))))
    (fun identifier => (identifier.id, identifier.scheme, identifier.value, ()))
    (fun ⟨id, scheme, value, _⟩ => ⟨id, scheme, value⟩)
    (fun _ => rfl) (fun _ => rfl) (fun _ => rfl) fun _ => rfl

theorem Language.represents : Represents .language Language.toRecord Language.ofRecord :=
  represents_of_fields
    (.cons (string? rfl rfl rfl rfl) (.cons (string rfl rfl fun _ => rfl) (.nil _)))
    (fun language => (language.id, language.value, ()))
    (fun ⟨id, value, _⟩ => ⟨id, value⟩)
    (fun _ => rfl) (fun _ => rfl) (fun _ => rfl) fun _ => rfl

theorem Date.represents : Represents .date Date.toRecord Date.ofRecord :=
  represents_of_fields
    (.cons (string? rfl rfl rfl rfl) (.cons (string? rfl rfl rfl rfl)
      (.cons (string rfl rfl fun _ => rfl) (.nil _))))
    (fun date => (date.id, date.event, date.value, ()))
    (fun ⟨id, event, value, _⟩ => ⟨id, event, value⟩)
    (fun _ => rfl) (fun _ => rfl) (fun _ => rfl) fun _ => rfl

theorem Meta.represents : Represents .metaInfo Meta.toRecord Meta.ofRecord :=
  represents_of_fields
    (.cons (string? rfl rfl rfl rfl) (.cons (string? rfl rfl rfl rfl)
      (.cons (string? rfl rfl rfl rfl) (.cons (string? rfl rfl rfl rfl)
      (.cons (string? rfl rfl rfl rfl) (.cons (string? rfl rfl rfl rfl)
      (.cons (string? rfl rfl rfl rfl) (.cons direction (.cons (overflow rfl)
        (.cons (string rfl rfl fun _ => rfl) (.nil _)))))))))))
    (fun info => (info.id, info.property, info.refines, info.scheme, info.name, info.content,
      info.lang, info.dir, info.other, info.value, ()))
    (fun ⟨id, property, refines, scheme, name, content, lang, dir, other, value, _⟩ =>
      ⟨id, property, refines, scheme, name, content, lang, dir, other, value⟩)
    (fun _ => rfl) (fun _ => rfl) (fun _ => rfl) fun _ => rfl

theorem Link.represents : Represents .link Link.toRecord Link.ofRecord :=
  represents_of_fields
    (.cons (string rfl rfl nofun) (.cons (string rfl rfl nofun)
      (.cons (string? rfl rfl rfl rfl) (.cons (string? rfl rfl rfl rfl)
      (.cons (string? rfl rfl rfl rfl) (.cons (string? rfl rfl rfl rfl)
        (.cons (string? rfl rfl rfl rfl) (.nil _))))))))
    (fun link => (link.href, link.rel, link.id, link.refines, link.mediaType, link.properties,
      link.hreflang, ()))
    (fun ⟨href, rel, id, refines, mediaType, properties, hreflang, _⟩ =>
      ⟨href, rel, id, refines, mediaType, properties, hreflang⟩)
    (fun _ => rfl) (fun _ => rfl) (fun _ => rfl) fun _ => rfl

theorem ManifestItem.represents :
    Represents .item ManifestItem.toRecord ManifestItem.ofRecord :=
  represents_of_fields
    (.cons (string rfl rfl nofun) (.cons (string rfl rfl nofun)
      (.cons (string rfl rfl nofun) (.cons (string? rfl rfl rfl rfl)
      (.cons (string? rfl rfl rfl rfl) (.cons (string? rfl rfl rfl rfl)
        (.cons (string? rfl rfl rfl rfl) (.nil _))))))))
    (fun item => (item.id, item.href, item.mediaType, item.fallback, item.properties,
      item.mediaOverlay, item.fallbackStyle, ()))
    (fun ⟨id, href, mediaType, fallback, properties, mediaOverlay, fallbackStyle, _⟩ =>
      ⟨id, href, mediaType, fallback, properties, mediaOverlay, fallbackStyle⟩)
    (fun _ => rfl) (fun _ => rfl) (fun _ => rfl) fun _ => rfl

theorem Manifest.represents : Represents .manifest Manifest.toRecord Manifest.ofRecord :=
  represents_of_fields
    (.cons (string? rfl rfl rfl rfl) (.cons (list ManifestItem.represents rfl) (.nil _)))
    (fun manifest => (manifest.id, manifest.items, ()))
    (fun ⟨id, items, _⟩ => ⟨id, items⟩)
    (fun _ => rfl) (fun _ => rfl) (fun _ => rfl) fun _ => rfl

theorem Itemref.represents : Represents .itemref Itemref.toRecord Itemref.ofRecord :=
  represents_of_fields
    (.cons (string rfl rfl nofun) (.cons Keeps.linear (.cons (string? rfl rfl rfl rfl)
      (.cons (string? rfl rfl rfl rfl) (.nil _)))))
    (fun itemref => (itemref.idref, itemref.linear, itemref.id, itemref.properties, ()))
    (fun ⟨idref, linear, id, properties, _⟩ => ⟨idref, linear, id, properties⟩)
    (fun _ => rfl) (fun _ => rfl) (fun _ => rfl) fun _ => rfl

theorem Spine.represents : Represents .spine Spine.toRecord Spine.ofRecord :=
  represents_of_fields
    (.cons (string? rfl rfl rfl rfl) (.cons (string? rfl rfl rfl rfl)
      (.cons Keeps.pageProgression (.cons (list Itemref.represents rfl) (.nil _)))))
    (fun spine => (spine.id, spine.toc, spine.pageProgression, spine.itemrefs, ()))
    (fun ⟨id, toc, pageProgression, itemrefs, _⟩ => ⟨id, toc, pageProgression, itemrefs⟩)
    (fun _ => rfl) (fun _ => rfl) (fun _ => rfl) fun _ => rfl

theorem Reference.represents :
    Represents .reference Reference.toRecord Reference.ofRecord :=
  represents_of_fields
    (.cons (string rfl rfl nofun) (.cons (string? rfl rfl rfl rfl)
      (.cons (string rfl rfl nofun) (.nil _))))
    (fun reference => (reference.kind, reference.title, reference.href, ()))
    (fun ⟨kind, title, href, _⟩ => ⟨kind, title, href⟩)
    (fun _ => rfl) (fun _ => rfl) (fun _ => rfl) fun _ => rfl

theorem Guide.represents : Represents .guide Guide.toRecord Guide.ofRecord :=
  represents_of_fields (.cons (list Reference.represents rfl) (.nil _))
    (fun guide => (guide.references, ())) (fun ⟨references, _⟩ => ⟨references⟩)
    (fun _ => rfl) (fun _ => rfl) (fun _ => rfl) fun _ => rfl

theorem MediaType.represents :
    Represents .mediaType MediaType.toRecord MediaType.ofRecord :=
  represents_of_fields (.cons (string rfl rfl nofun) (.cons (string rfl rfl nofun) (.nil _)))
    (fun mediaType => (mediaType.mediaType, mediaType.handler, ()))
    (fun ⟨mediaType, handler, _⟩ => ⟨mediaType, handler⟩)
    (fun _ => rfl) (fun _ => rfl) (fun _ => rfl) fun _ => rfl

theorem Bindings.represents : Represents .bindings Bindings.toRecord Bindings.ofRecord :=
  represents_of_fields (.cons (list MediaType.represents rfl) (.nil _))
    (fun bindings => (bindings.mediaTypes, ())) (fun ⟨mediaTypes, _⟩ => ⟨mediaTypes⟩)
    (fun _ => rfl) (fun _ => rfl) (fun _ => rfl) fun _ => rfl

theorem CollectionLink.represents :
    Represents .collectionLink CollectionLink.toRecord CollectionLink.ofRecord :=
  represents_of_fields
    (.cons (string rfl rfl nofun) (.cons (string? rfl rfl rfl rfl)
      (.cons (string? rfl rfl rfl rfl) (.cons (string? rfl rfl rfl rfl) (.nil _)))))
    (fun link => (link.href, link.rel, link.mediaType, link.properties, ()))
    (fun ⟨href, rel, mediaType, properties, _⟩ => ⟨href, rel, mediaType, properties⟩)
    (fun _ => rfl) (fun _ => rfl) (fun _ => rfl) fun _ => rfl

namespace MetadataEntry

theorem type_mem_entryTypes (entry : MetadataEntry) : entry.toRecord.type ∈ entryTypes := by
  cases entry with
  | identifier _ => exact (by decide : ElementType.identifier ∈ entryTypes)
  | text element _ => exact (by cases element <;> decide : ElementType.text element ∈ entryTypes)
  | language _ => exact (by decide : ElementType.language ∈ entryTypes)
  | agent element _ => exact (by cases element <;> decide : ElementType.agent element ∈ entryTypes)
  | date _ => exact (by decide : ElementType.date ∈ entryTypes)
  | metaInfo _ => exact (by decide : ElementType.metaInfo ∈ entryTypes)
  | link _ => exact (by decide : ElementType.link ∈ entryTypes)

theorem wellTyped_toRecord (entry : MetadataEntry) : entry.toRecord.WellTyped family := by
  cases entry with
  | identifier identifier => exact Identifier.represents.wellTyped identifier
  | text element text => exact (TextEntry.represents element).wellTyped text
  | language language => exact Language.represents.wellTyped language
  | agent element agent => exact (Agent.represents element).wellTyped agent
  | date date => exact Date.represents.wellTyped date
  | metaInfo info => exact Meta.represents.wellTyped info
  | link link => exact Link.represents.wellTyped link

theorem ofRecord?_settle (entry : MetadataEntry) :
    ofRecord? (entry.toRecord.settle family) = some entry := by
  rw [ofRecord?, settle_type]
  cases entry with
  | identifier identifier =>
      exact congrArg (some ∘ MetadataEntry.identifier)
        (Identifier.represents.ofRecord_settle identifier)
  | text element text =>
      exact congrArg (some ∘ MetadataEntry.text element)
        ((TextEntry.represents element).ofRecord_settle text)
  | language language =>
      exact congrArg (some ∘ MetadataEntry.language)
        (Language.represents.ofRecord_settle language)
  | agent element agent =>
      exact congrArg (some ∘ MetadataEntry.agent element)
        ((Agent.represents element).ofRecord_settle agent)
  | date date =>
      exact congrArg (some ∘ MetadataEntry.date) (Date.represents.ofRecord_settle date)
  | metaInfo info =>
      exact congrArg (some ∘ MetadataEntry.metaInfo) (Meta.represents.ofRecord_settle info)
  | link link =>
      exact congrArg (some ∘ MetadataEntry.link) (Link.represents.ofRecord_settle link)

/-- A sound record of one of the types is that of an entry. -/
theorem exists_ofRecord? {record : ElementRecord} (hsound : IsSound record.type record)
    (htype : record.type ∈ entryTypes) :
    ∃ entry, ofRecord? record = some entry ∧
      entry.toRecord.settle family = record.settle family := by
  rw [ofRecord?]
  cases hkey : record.type with
  | identifier =>
      rw [hkey] at hsound
      exact ⟨_, rfl, Identifier.represents.settle_toRecord record hsound⟩
  | text element =>
      rw [hkey] at hsound
      exact ⟨_, rfl, (TextEntry.represents element).settle_toRecord record hsound⟩
  | language =>
      rw [hkey] at hsound
      exact ⟨_, rfl, Language.represents.settle_toRecord record hsound⟩
  | agent element =>
      rw [hkey] at hsound
      exact ⟨_, rfl, (Agent.represents element).settle_toRecord record hsound⟩
  | date =>
      rw [hkey] at hsound
      exact ⟨_, rfl, Date.represents.settle_toRecord record hsound⟩
  | metaInfo =>
      rw [hkey] at hsound
      exact ⟨_, rfl, Meta.represents.settle_toRecord record hsound⟩
  | link =>
      rw [hkey] at hsound
      exact ⟨_, rfl, Link.represents.settle_toRecord record hsound⟩
  | _ =>
      rw [hkey] at htype
      exact absurd htype (by decide)

end MetadataEntry

/-- The entries of a metadata element, each told by its type. -/
theorem keeps_entries :
    Keeps (.variants entryTypes (FieldDecl.variants "entries" entryTypes).optional)
      (fun entries => Slot.list (entries.map MetadataEntry.toRecord))
      fun slot => (slotList slot).filterMap MetadataEntry.ofRecord? := by
  refine ⟨fun entries => ⟨?_, ?_⟩, fun entries => ?_, fun slot hstands => ?_⟩
  · have htypes : ∀ record ∈ entries.map MetadataEntry.toRecord, record.type ∈ entryTypes := by
      simp [MetadataEntry.type_mem_entryTypes]
    exact htypes
  · simp [slotMembers, Slot.list, MetadataEntry.wellTyped_toRecord]
  · rw [slotList_settle_list, List.map_map, List.filterMap_map]
    have hsome : ∀ entry ∈ entries, (MetadataEntry.ofRecord? ∘
        (Record.settle family ∘ MetadataEntry.toRecord)) entry = some entry :=
      fun entry _ => entry.ofRecord?_settle
    rw [List.filterMap_congr hsome, List.filterMap_some]
  · refine settle_list hstands.1 rfl ?_
    have hmembers : ∀ member ∈ slotList slot, ∃ entry,
        MetadataEntry.ofRecord? member = some entry ∧
          entry.toRecord.settle family = member.settle family := by
      intro member hmember
      have hmem := mem_slotMembers_of_mem_slotList hmember
      exact MetadataEntry.exists_ofRecord? (hstands.2 member hmem)
        (hstands.1.carries.type_mem hmem)
    generalize slotList slot = members at hmembers
    induction members with
    | nil => rfl
    | cons member rest ih =>
        obtain ⟨⟨entry, hentry, hsettle⟩, hrest⟩ := List.forall_mem_cons.mp hmembers
        rw [List.filterMap_cons_some hentry, List.map_cons, List.map_cons, List.map_cons, hsettle,
          ih hrest]

theorem Metadata.represents : Represents .metadata Metadata.toRecord Metadata.ofRecord :=
  represents_of_fields (.cons keeps_entries (.nil _))
    (fun metadata => (metadata.entries, ())) (fun ⟨entries, _⟩ => ⟨entries⟩)
    (fun _ => rfl) (fun _ => rfl) (fun _ => rfl) fun _ => rfl

namespace Collection

/-- Induction over collections: a property passes from the inner ones to the outer. -/
theorem inductionOn {motive : Collection → Prop} (collection : Collection)
    (hstep : ∀ outer : Collection,
      (∀ inner ∈ outer.collections, motive inner) → motive outer) : motive collection :=
  hstep collection fun inner _ => inductionOn inner hstep
termination_by sizeOf collection
decreasing_by
  have hlt := List.sizeOf_lt_of_mem ‹inner ∈ collection.collections›
  cases collection
  simp only [Collection.mk.sizeOf_spec] at hlt ⊢
  omega

theorem toRecords_eq_map (collections : List Collection) :
    toRecords collections = collections.map toRecord := by
  induction collections with
  | nil => rfl
  | cons collection rest ih => rw [toRecords, ih, List.map_cons]

theorem toRecord_eq (collection : Collection) : collection.toRecord = .mk .collection
    [Slot.string collection.role, Slot.string? collection.id, Slot.string? collection.lang,
      Slot.direction? collection.dir,
      collection.metadata.bind fun metadata => Slot.element metadata.toRecord,
      Slot.list (collection.collections.map toRecord),
      Slot.list (collection.links.map CollectionLink.toRecord)] := by
  cases collection
  rw [toRecord, toRecords_eq_map]

theorem ofRecord_eq (record : ElementRecord) : ofRecord record =
    { role := textAt record 0
      id := record.text? 1
      lang := record.text? 2
      dir := directionAt? record 3
      metadata := (record.element? 4).map Metadata.ofRecord
      collections := (record.members 5).map ofRecord
      links := (record.members 6).map CollectionLink.ofRecord } := by
  rw [ofRecord]
  congr 1
  exact List.attach_map_val (f := ofRecord)

theorem keeps_role : Keeps (requiredString "role") Slot.string
    fun slot => (slotText? slot).getD "" :=
  string rfl rfl nofun

theorem keeps_id : Keeps (optionalString "id") Slot.string? slotText? :=
  string? rfl rfl rfl rfl

theorem keeps_lang : Keeps languageField Slot.string? slotText? :=
  string? rfl rfl rfl rfl

theorem keeps_metadata : Keeps (.element .metadata metadataField.nullable)
    (fun metadata => metadata.bind fun metadata => Slot.element metadata.toRecord)
    fun slot => (slotElement? slot).map Metadata.ofRecord :=
  element? Metadata.represents rfl

theorem keeps_links : Keeps (.list .collectionLink (FieldDecl.list "link" .collectionLink).optional)
    (fun links => Slot.list (links.map CollectionLink.toRecord))
    fun slot => (slotList slot).map CollectionLink.ofRecord :=
  list CollectionLink.represents rfl

theorem wellTyped_toRecord (collection : Collection) : collection.toRecord.WellTyped family := by
  induction collection using inductionOn with
  | hstep collection ih =>
      have hinner : Fits (.list .collection (FieldDecl.list "collection" .collection).optional)
          (Slot.list (collection.collections.map toRecord)) := by
        refine ⟨carries_list rfl ?_, ?_⟩
        · intro record hrecord
          obtain ⟨inner, _, rfl⟩ := List.mem_map.mp hrecord
          rw [toRecord_eq]
          rfl
        · intro member hmember
          obtain ⟨inner, hinner, rfl⟩ := List.mem_map.mp hmember
          exact ih inner hinner
      rw [toRecord_eq]
      exact wellTyped_of_fits (.cons (keeps_role.fits _) (.cons (keeps_id.fits _)
        (.cons (keeps_lang.fits _) (.cons (direction.fits _) (.cons (keeps_metadata.fits _)
          (.cons hinner (.cons (keeps_links.fits _) .nil)))))))

theorem ofRecord_settle (collection : Collection) :
    ofRecord (collection.toRecord.settle family) = collection := by
  induction collection using inductionOn with
  | hstep collection ih =>
      have hinner : (slotList (settleSlot family
          (.list .collection (FieldDecl.list "collection" .collection).optional)
          (Slot.list (collection.collections.map toRecord)))).map ofRecord =
            collection.collections := by
        rw [slotList_settle_list, List.map_map, List.map_map, List.map_congr_left, List.map_id]
        exact fun inner hinner => ih inner hinner
      rw [ofRecord_eq, toRecord_eq]
      obtain ⟨role, id, lang, dir, metadata, collections, links⟩ := collection
      exact (Collection.mk.injEq ..).mpr ⟨keeps_role.read_settle role, keeps_id.read_settle id,
        keeps_lang.read_settle lang, direction.read_settle dir,
        keeps_metadata.read_settle metadata, hinner, keeps_links.read_settle links⟩

theorem settle_toRecord (record : ElementRecord) (hsound : IsSound .collection record) :
    (ofRecord record).toRecord.settle family = record.settle family := by
  have hstands : Stands (.list .collection (FieldDecl.list "collection" .collection).optional)
      (record.slot? 5) := hsound.stands 5 rfl
  have hinner : ∀ member ∈ record.members 5,
      (ofRecord member).toRecord.settle family = member.settle family := by
    intro member hmember
    have hmem := mem_slotMembers_of_mem_slotList hmember
    have htype : member.type = .collection :=
      List.mem_singleton.mp (hstands.1.carries.type_mem hmem)
    exact settle_toRecord member (htype ▸ hstands.2 member hmem)
  refine hsound.settle_eq (by rw [toRecord_eq]; rfl) ?_
  rw [toRecord_eq, ofRecord_eq]
  refine .cons (keeps_role.settle_write _ (hsound.stands 0 rfl))
    (.cons (keeps_id.settle_write _ (hsound.stands 1 rfl))
    (.cons (keeps_lang.settle_write _ (hsound.stands 2 rfl))
    (.cons (direction.settle_write _ (hsound.stands 3 rfl))
    (.cons (keeps_metadata.settle_write _ (hsound.stands 4 rfl))
    (.cons (settle_list hstands.1 rfl ?_)
      (.cons (keeps_links.settle_write _ (hsound.stands 6 rfl)) .nil))))))
  rw [List.map_map, List.map_map, List.map_congr_left]
  · rfl
  · exact hinner
termination_by sizeOf record
decreasing_by exact Record.sizeOf_member_lt hmember

theorem represents : Represents .collection toRecord ofRecord :=
  ⟨fun collection => by rw [toRecord_eq]; rfl, wellTyped_toRecord, ofRecord_settle,
    settle_toRecord⟩

end Collection

theorem Package.represents : Represents .package Package.toRecord Package.ofRecord :=
  represents_of_fields
    (.cons (string rfl rfl nofun) (.cons (string rfl rfl nofun)
      (.cons (string? rfl rfl rfl rfl) (.cons (string? rfl rfl rfl rfl) (.cons direction
      (.cons (string? rfl rfl rfl rfl) (.cons (element Metadata.represents rfl rfl)
      (.cons (element Manifest.represents rfl rfl) (.cons (element Spine.represents rfl rfl)
      (.cons (element? Guide.represents rfl) (.cons (element? Bindings.represents rfl)
        (.cons (list Collection.represents rfl) (.nil _)))))))))))))
    (fun package => (package.version, package.uniqueIdentifier, package.prefixes, package.lang,
      package.dir, package.id, package.metadata, package.manifest, package.spine, package.guide,
      package.bindings, package.collections, ()))
    (fun ⟨version, uniqueIdentifier, prefixes, lang, dir, id, metadata, manifest, spine, guide,
      bindings, collections, _⟩ =>
      ⟨version, uniqueIdentifier, prefixes, lang, dir, id, metadata, manifest, spine, guide,
        bindings, collections⟩)
    (fun _ => rfl) (fun _ => rfl)
    (fun package => by rw [Package.toRecord, Collection.toRecords_eq_map]) fun _ => rfl

end Epub.Model
