/-
Packages fitted to an edition, written and read.  What has been cleared stays cleared, but
for the base direction of `meta`: an attribute `dir` in the namespace of the element is kept
among the others, and is read for the direction once that is gone.
-/
import Epub.Proofs.Model.Fitting
import Epub.Proofs.Model.Reencoding
import Epub.Proofs.Model.Writable

namespace Epub.Model

open Epub.Binding Epub.Schema Epub.Xml

namespace Meta

variable {info : Meta}

/-- A leftover attribute that would be read for the direction is qualified, and there is a
direction without a namespace to be read first. -/
theorem apart_of_isSound (hsound : IsSound .metaInfo info.toRecord) {entry : QName × String}
    (hentry : entry ∈ info.other.entries)
    (hreads : Reads directionField.field ElementType.metaInfo.place (entryAttribute entry)) :
    entry.1.ns ≠ none ∧ info.dir ≠ none := by
  have hother : (BoundField.overflow (FieldDecl.overflow "other"), some (.overflow info.other)) ∈
      (fieldsOf .metaInfo).zip info.toRecord.slots :=
    hsound.mem_zip (rfl : (fieldsOf .metaInfo)[8]? = some (.overflow (FieldDecl.overflow "other")))
  have hdirection : (directionField, Slot.direction? info.dir) ∈
      (fieldsOf .metaInfo).zip info.toRecord.slots :=
    hsound.mem_zip (rfl : (fieldsOf .metaInfo)[7]? = some directionField)
  have hleft : entry ∈ slotEntries (settleSlot family (.overflow (FieldDecl.overflow "other"))
      (some (.overflow info.other))) := by
    rw [settleSlot_of_overflow]
    · exact hentry
    · exact List.isEmpty_eq_false_iff_exists_mem.mpr ⟨entry, hentry⟩
  have hapart := (isSound_mk_iff.mp hsound).2
  rw [AreApart, zip_settleSlots] at hapart
  obtain ⟨hqualified, _, hheld⟩ := hapart _ (List.mem_map_of_mem hother) entry hleft _
    (List.mem_map_of_mem hdirection) hreads
  refine ⟨hqualified, fun hnone => hheld ?_⟩
  rw [hnone]
  rfl

/-- An attribute `dir` in the namespace of the element is left over only beside the one
without a namespace. -/
theorem dir_ne_none (hsound : IsSound .metaInfo info.toRecord)
    (hkey : ⟨"dir", some opfNamespace⟩ ∈ info.other.keys) : info.dir ≠ none := by
  obtain ⟨⟨key, value⟩, hentry, rfl⟩ := List.mem_map.mp hkey
  exact (apart_of_isSound hsound hentry ⟨rfl, attributeMatches_iff.mpr ⟨rfl, rfl⟩⟩).2

/-- Without such an attribute, the direction can be cleared. -/
theorem isSound_withoutDirection (hsound : IsSound .metaInfo info.toRecord)
    (hkey : ⟨"dir", some opfNamespace⟩ ∉ info.other.keys) :
    IsSound .metaInfo { info with dir := none }.toRecord := by
  refine hsound.set 7 rfl (.empty rfl) rfl fun other hother entry hentry hreads => ?_
  -- it would be read for the direction, but there is no such attribute in either namespace
  have hleft : entry ∈ info.other.entries := by
    rw [← flatMap_slotEntries]
    exact List.mem_flatMap.mpr ⟨other, hother, hentry⟩
  rcases eq_of_reads rfl hreads with hnone | hown
  · exact (apart_of_isSound hsound hleft hreads).1 (congrArg QName.ns hnone)
  · exact hkey (List.mem_map.mpr ⟨entry, hleft, hown⟩)

end Meta

namespace MetadataEntry

variable {entry : MetadataEntry}

theorem isSound_withoutOpfAttributes (hsound : IsSound entry.toRecord.type entry.toRecord) :
    IsSound entry.withoutOpfAttributes.toRecord.type entry.withoutOpfAttributes.toRecord := by
  cases entry with
  | identifier _ => exact hsound.set_of_plain 1 nofun rfl (.empty rfl)
  | agent _ _ =>
      have hrole := hsound.set_of_plain 3 nofun rfl (.empty rfl)
      exact hrole.set_of_plain 4 nofun rfl (.empty rfl)
  | date _ => exact hsound.set_of_plain 1 nofun rfl (.empty rfl)
  | _ => exact hsound

theorem isSound_withoutDirection (hsound : IsSound entry.toRecord.type entry.toRecord)
    (hkey : ∀ info, entry = .metaInfo info → ⟨"dir", some opfNamespace⟩ ∉ info.other.keys) :
    IsSound entry.withoutDirection.toRecord.type entry.withoutDirection.toRecord := by
  cases entry with
  | text _ _ => exact hsound.set_of_plain 2 nofun rfl (.empty rfl)
  | agent _ _ => exact hsound.set_of_plain 2 nofun rfl (.empty rfl)
  | metaInfo info => exact Meta.isSound_withoutDirection hsound (hkey info rfl)
  | _ => exact hsound

end MetadataEntry

namespace Metadata

variable {metadata other : Metadata}

theorem isSound_entry (hsound : IsSound .metadata metadata.toRecord) {entry : MetadataEntry}
    (hentry : entry ∈ metadata.entries) : IsSound entry.toRecord.type entry.toRecord :=
  hsound.member 0 rfl entry.toRecord (List.mem_map_of_mem hentry)

/-- Any entries whose records are sound may stand in the element. -/
theorem isSound_of_entries (hsound : IsSound .metadata metadata.toRecord)
    (hentries : ∀ entry ∈ other.entries, IsSound entry.toRecord.type entry.toRecord) :
    IsSound .metadata other.toRecord := by
  refine hsound.set_of_plain 0 nofun rfl
    (.list (keeps_entries.fits other.entries).1 ?_ (Or.inl rfl))
  exact List.forall_mem_map.mpr hentries

/-- Whether there is a `meta` with an attribute `dir` in the namespace of the element, left
over beside its own. -/
def HasQualifiedDirection (metadata : Metadata) : Prop :=
  ∃ info ∈ metadata.metas, ⟨"dir", some opfNamespace⟩ ∈ info.other.keys

instance (metadata : Metadata) : Decidable metadata.HasQualifiedDirection :=
  inferInstanceAs (Decidable (∃ info ∈ metadata.metas, _))

theorem mem_metas {info : Meta} : info ∈ metadata.metas ↔ .metaInfo info ∈ metadata.entries := by
  rw [metas, List.mem_filterMap]
  constructor
  · rintro ⟨entry, hentry, hinfo⟩
    cases entry <;> cases hinfo
    exact hentry
  · exact fun hinfo => ⟨_, hinfo, rfl⟩

theorem isSound_retainFor (hsound : IsSound .metadata metadata.toRecord) {version : Version}
    (hdirection : version = .v2 → ¬(metadata.retainFor version).HasQualifiedDirection) :
    IsSound .metadata (metadata.retainFor version).toRecord := by
  cases version with
  | v2 =>
      refine isSound_of_entries hsound (List.forall_mem_map.mpr fun entry hentry => ?_)
      have hmem := (List.mem_filter.mp hentry).1
      refine MetadataEntry.isSound_withoutDirection (isSound_entry hsound hmem) ?_
      rintro info rfl hkey
      exact hdirection rfl ⟨_, mem_metas.mpr (List.mem_map_of_mem hentry), hkey⟩
  | v30 | v31 =>
      exact isSound_of_entries hsound (List.forall_mem_map.mpr fun entry hentry =>
        MetadataEntry.isSound_withoutOpfAttributes (isSound_entry hsound hentry))

/-- In EPUB 2 no direction is left that the attribute could stand beside. -/
theorem not_hasQualifiedDirection_retainFor
    (hsound : IsSound .metadata (metadata.retainFor .v2).toRecord) :
    ¬(metadata.retainFor .v2).HasQualifiedDirection := by
  rintro ⟨info, hinfo, hkey⟩
  rw [mem_metas] at hinfo
  have hnone : info.dir = none := by
    obtain ⟨entry, _, hentry⟩ := List.mem_map.mp hinfo
    cases entry <;> cases hentry
    rfl
  exact Meta.dir_ne_none (isSound_entry hsound hinfo) hkey hnone

end Metadata

theorem Manifest.isSound_retainFor {manifest : Manifest}
    (hsound : IsSound .manifest manifest.toRecord) (version : Version) :
    IsSound .manifest (Manifest.toRecord
      { manifest with items := manifest.items.map (·.retainFor version) }) := by
  have hitems := (hsound.stands 1 rfl).ne_nil rfl rfl
  refine (Manifest.isStorable ?_).isSound (Manifest.represents.wellTyped _)
  simpa using hitems

theorem Spine.isSound_retainFor {spine : Spine} (hsound : IsSound .spine spine.toRecord)
    (version : Version) : IsSound .spine (spine.retainFor version).toRecord := by
  have hitemrefs := (hsound.stands 3 rfl).ne_nil rfl rfl
  refine (Spine.isStorable ?_).isSound (Spine.represents.wellTyped _)
  simpa [Spine.retainFor] using hitemrefs

namespace Package

variable {package : Package} {version : Version}

theorem isSound_metadata (hsound : IsSound .package package.toRecord) :
    IsSound .metadata package.metadata.toRecord :=
  hsound.member 6 rfl package.metadata.toRecord (List.mem_singleton_self _)

theorem isSound_manifest (hsound : IsSound .package package.toRecord) :
    IsSound .manifest package.manifest.toRecord :=
  hsound.member 7 rfl package.manifest.toRecord (List.mem_singleton_self _)

theorem isSound_spine (hsound : IsSound .package package.toRecord) :
    IsSound .spine package.spine.toRecord :=
  hsound.member 8 rfl package.spine.toRecord (List.mem_singleton_self _)

/-- Clearing what an edition does not define leaves a sound package, if the metadata is. -/
theorem isSound_retainFor (hsound : IsSound .package package.toRecord)
    (hmetadata : IsSound .metadata (package.metadata.retainFor version).toRecord) :
    IsSound .package (package.retainFor version).toRecord := by
  have hmanifest := Manifest.isSound_retainFor (isSound_manifest hsound) version
  have hspine := Spine.isSound_retainFor (isSound_spine hsound) version
  -- the slots are replaced one by one, each at its index in the table of the package
  have hdescribed := hsound.set_of_plain 6 nofun rfl (.element rfl hmetadata)
  have hlisted := hdescribed.set_of_plain 7 nofun rfl (.element rfl hmanifest)
  have hfitted := hlisted.set_of_plain 8 nofun rfl (.element rfl hspine)
  cases version with
  | v2 =>
      have hprefixes := hfitted.set_of_plain 2 nofun rfl (.empty rfl)
      have hdir := hprefixes.set_of_plain 4 nofun rfl (.empty rfl)
      have hbindings := hdir.set_of_plain 10 nofun rfl (.empty rfl)
      have hnone : Stands (.list .collection (FieldDecl.list "collection" .collection).optional)
          (Slot.list []) := .list (carries_list rfl (by simp)) (by simp) (Or.inl rfl)
      exact hbindings.set_of_plain 11 nofun rfl hnone
  | v30 => exact hfitted
  | v31 =>
      have hguide := hfitted.set_of_plain 9 nofun rfl (.empty rfl)
      exact hguide.set_of_plain 10 nofun rfl (.empty rfl)

/-- Whether the package is read from the document that is written of it. -/
def Survives (package : Package) : Prop :=
  ∃ document, package.toDocument.outcome = .ok document ∧
    (Package.ofDocument document).outcome = .ok package

theorem survives_iff_isSound : package.Survives ↔ IsSound .package package.toRecord :=
  exists_document_iff_isSound Package.represents rfl rfl

/-- What has been cleared for an edition stays cleared in the document.  A package that has
been read and is fitted to an edition is read from what is written of it, unless the edition
is EPUB 2 and a `meta` that lost its direction has another one in the namespace of the
element; then it is not. -/
theorem survives_retainFor_iff {document : Document}
    (hkeys : document.root.Everywhere fun e => (e.attributes.map Attribute.key).Nodup)
    (hread : (Package.ofDocument document).outcome = .ok package) (version : Version) :
    (package.retainFor version).Survives ↔
      (version = .v2 → ¬(package.retainFor version).metadata.HasQualifiedDirection) := by
  have hsound : IsSound .package package.toRecord :=
    isSound_toRecord Package.represents rfl rfl hkeys hread
  rw [survives_iff_isSound, metadata_retainFor]
  constructor
  · rintro hfitted rfl
    exact Metadata.not_hasQualifiedDirection_retainFor (isSound_metadata hfitted)
  · intro hdirection
    exact isSound_retainFor hsound
      (Metadata.isSound_retainFor (isSound_metadata hsound) hdirection)

/-- A package document whose metadata is one `meta` with these attributes. -/
def describedBy (attributes : List Attribute) : Document :=
  ⟨⟨"package", some opfNamespace,
    [⟨"version", none, "3.0"⟩, ⟨"unique-identifier", none, "uid"⟩, ⟨"dir", none, "ltr"⟩],
    [⟨"metadata", some opfNamespace, [],
        [⟨"meta", some opfNamespace, attributes, [], none, []⟩], none, []⟩,
      ⟨"manifest", some opfNamespace, [], [⟨"item", some opfNamespace,
        [⟨"id", none, "a"⟩, ⟨"href", none, "a.xhtml"⟩, ⟨"media-type", none, "text/html"⟩],
        [], none, []⟩], none, []⟩,
      ⟨"spine", some opfNamespace, [], [⟨"itemref", some opfNamespace,
        [⟨"idref", none, "a"⟩, ⟨"properties", none, "page-spread-left"⟩], [], none, []⟩],
        none, []⟩],
    none, []⟩⟩

/-- A `meta` with a direction. -/
def directed : Document :=
  describedBy [⟨"name", none, "cover"⟩, ⟨"content", none, "a"⟩, ⟨"dir", none, "rtl"⟩]

theorem survives_retainFor_directed :
    (directed.root.Everywhere fun e => (e.attributes.map Attribute.key).Nodup) ∧
    ∃ package, (Package.ofDocument directed).outcome = .ok package ∧
      package.metadata.metas.map Meta.dir = [some .rtl] ∧
      (package.retainFor .v2).metadata.metas.map Meta.dir = [none] ∧
      (package.retainFor .v2).Survives := by
  have hkeys : directed.root.Everywhere fun e => (e.attributes.map Attribute.key).Nodup := by
    decide
  have hcleared : (Package.ofDocument directed).outcome.toOption.any (fun package =>
      package.metadata.metas.map Meta.dir = [some .rtl] ∧
      (package.retainFor .v2).metadata.metas.map Meta.dir = [none] ∧
      ¬(package.retainFor .v2).metadata.HasQualifiedDirection) := by decide +kernel
  obtain ⟨package, hread, hpackage⟩ := exists_ok_of_any hcleared
  obtain ⟨hdir, hnone, hother⟩ := of_decide_eq_true hpackage
  exact ⟨hkeys, package, hread, hdir, hnone,
    (survives_retainFor_iff hkeys hread .v2).mpr fun _ => hother⟩

/-- A `meta` with a direction, and with another one in the namespace of the element. -/
def redirected : Document :=
  describedBy [⟨"name", none, "cover"⟩, ⟨"content", none, "a"⟩, ⟨"dir", none, "rtl"⟩,
    ⟨"dir", some opfNamespace, "ltr"⟩]

/-- The direction that was cleared comes back as the other one. -/
theorem not_survives_retainFor_redirected :
    (redirected.root.Everywhere fun e => (e.attributes.map Attribute.key).Nodup) ∧
    ∃ package, (Package.ofDocument redirected).outcome = .ok package ∧
      (package.retainFor .v2).metadata.metas.map Meta.dir = [none] ∧
      ¬(package.retainFor .v2).Survives ∧
      ∃ again reread, (package.retainFor .v2).toDocument.outcome = .ok again ∧
        (Package.ofDocument again).outcome = .ok reread ∧
        reread.metadata.metas.map Meta.dir = [some .ltr] := by
  have hrevived : (Package.ofDocument redirected).outcome.toOption.any (fun package =>
      (package.retainFor .v2).metadata.metas.map Meta.dir = [none] ∧
      (package.retainFor .v2).toDocument.outcome.toOption.any fun again =>
        (Package.ofDocument again).outcome.toOption.any fun reread =>
          reread.metadata.metas.map Meta.dir = [some .ltr]) := by decide +kernel
  obtain ⟨package, hread, hpackage⟩ := exists_ok_of_any hrevived
  obtain ⟨hnone, hwritten⟩ := of_decide_eq_true hpackage
  obtain ⟨again, hwrite, hagain⟩ := exists_ok_of_any hwritten
  obtain ⟨reread, hreread, hdir⟩ := exists_ok_of_any hagain
  have hdir := of_decide_eq_true hdir
  refine ⟨by decide, package, hread, hnone, ?_, again, reread, hwrite, hreread, hdir⟩
  rintro ⟨document, hdocument, hsame⟩
  obtain rfl := Except.ok.inj (hwrite.symm.trans hdocument)
  obtain rfl := Except.ok.inj (hreread.symm.trans hsame)
  rw [hnone] at hdir
  contradiction

end Package

end Epub.Model
