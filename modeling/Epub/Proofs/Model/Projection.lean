/-
Fitting a package to several editions.  The order of the editions does not matter, and neither
does how often each of them is among them: what identifies the publication, its resources and
its reading order is kept, and which metadata is left depends on the editions alone.
-/
import Epub.Proofs.Model.Fitting
import Mathlib.Data.List.Basic

namespace Epub.Model

/-- What every edition knows of a manifest item. -/
def ManifestItem.core (item : ManifestItem) : String × String × String × Option String :=
  (item.id, item.href, item.mediaType, item.fallback)

/-- What every edition knows of an entry of the reading order. -/
def Itemref.core (itemref : Itemref) : String × Linear × Option String :=
  (itemref.idref, itemref.linear, itemref.id)

/-- What every edition knows of a text. -/
def TextEntry.core (text : TextEntry) : String × Option String × Option String :=
  (text.value, text.id, text.lang)

/-- What every edition knows of an agent. -/
def Agent.core (agent : Agent) : String × Option String × Option String :=
  (agent.value, agent.id, agent.lang)

/-- What every edition knows of an identifier. -/
def Identifier.core (identifier : Identifier) : String × Option String :=
  (identifier.value, identifier.id)

@[simp] theorem ManifestItem.core_retainFor (item : ManifestItem) (version : Version) :
    (item.retainFor version).core = item.core := by
  cases version <;> rfl

@[simp] theorem ManifestItem.id_retainFor (item : ManifestItem) (version : Version) :
    (item.retainFor version).id = item.id := by
  cases version <;> rfl

@[simp] theorem Itemref.core_retainFor (itemref : Itemref) (version : Version) :
    (itemref.retainFor version).core = itemref.core := by
  cases version <;> rfl

@[simp] theorem Itemref.idref_retainFor (itemref : Itemref) (version : Version) :
    (itemref.retainFor version).idref = itemref.idref := by
  cases version <;> rfl

section Commuting

theorem MetadataEntry.withoutOpfAttributes_withoutDirection (entry : MetadataEntry) :
    entry.withoutDirection.withoutOpfAttributes =
      entry.withoutOpfAttributes.withoutDirection := by
  cases entry <;> rfl

@[simp] theorem MetadataEntry.isEpub2_withoutOpfAttributes (entry : MetadataEntry) :
    entry.withoutOpfAttributes.isEpub2 = entry.isEpub2 := by
  cases entry <;> rfl

theorem Metadata.retainFor_v2 (metadata : Metadata) :
    metadata.retainFor .v2 =
      ⟨(metadata.entries.filter MetadataEntry.isEpub2).map MetadataEntry.withoutDirection⟩ := rfl

/-- The editions of EPUB 3 clear the same attributes and drop no entry. -/
theorem Metadata.retainFor_of_ne (metadata : Metadata) {version : Version}
    (hversion : version ≠ .v2) :
    metadata.retainFor version =
      ⟨metadata.entries.map MetadataEntry.withoutOpfAttributes⟩ := by
  cases version with
  | v2 => contradiction
  | v30 | v31 => rfl

/-- Dropping entries and clearing their attributes do not get in each other's way. -/
theorem Metadata.retainFor_comm_of_ne (metadata : Metadata) {version : Version}
    (hversion : version ≠ .v2) :
    (metadata.retainFor version).retainFor .v2 = (metadata.retainFor .v2).retainFor version := by
  have hkept : MetadataEntry.isEpub2 ∘ MetadataEntry.withoutOpfAttributes =
      MetadataEntry.isEpub2 := funext MetadataEntry.isEpub2_withoutOpfAttributes
  rw [retainFor_of_ne _ hversion, retainFor_of_ne _ hversion, retainFor_v2, retainFor_v2]
  simp only [List.filter_map, List.map_map, hkept, Metadata.mk.injEq]
  exact List.map_congr_left fun entry _ => entry.withoutOpfAttributes_withoutDirection.symm

theorem Metadata.retainFor_comm (metadata : Metadata) (first second : Version) :
    (metadata.retainFor first).retainFor second =
      (metadata.retainFor second).retainFor first := by
  by_cases hfirst : first = .v2
  · by_cases hsecond : second = .v2
    · rw [hfirst, hsecond]
    · rw [hfirst, metadata.retainFor_comm_of_ne hsecond]
  · by_cases hsecond : second = .v2
    · rw [hsecond, metadata.retainFor_comm_of_ne hfirst]
    · simp only [retainFor_of_ne _ hfirst, retainFor_of_ne _ hsecond]

theorem ManifestItem.retainFor_comm (item : ManifestItem) (first second : Version) :
    (item.retainFor first).retainFor second = (item.retainFor second).retainFor first := by
  cases first <;> cases second <;> rfl

theorem Itemref.retainFor_comm (itemref : Itemref) (first second : Version) :
    (itemref.retainFor first).retainFor second = (itemref.retainFor second).retainFor first := by
  cases first <;> cases second <;> rfl

theorem Spine.retainFor_comm (spine : Spine) (first second : Version) :
    (spine.retainFor first).retainFor second = (spine.retainFor second).retainFor first := by
  have hitemrefs : (spine.itemrefs.map (·.retainFor first)).map (·.retainFor second) =
      (spine.itemrefs.map (·.retainFor second)).map (·.retainFor first) := by
    rw [List.map_map, List.map_map]
    exact List.map_congr_left fun itemref _ => itemref.retainFor_comm first second
  simp only [Spine.retainFor, hitemrefs]
  congr 1
  split <;> split <;> rfl

end Commuting

attribute [ext] Package Manifest

namespace Package

@[simp] theorem items_retainFor (package : Package) (version : Version) :
    (package.retainFor version).manifest.items =
      package.manifest.items.map (·.retainFor version) := by
  cases version <;> rfl

@[simp] theorem spine_retainFor (package : Package) (version : Version) :
    (package.retainFor version).spine = package.spine.retainFor version := by
  cases version <;> rfl

theorem retainFor_comm (package : Package) (first second : Version) :
    (package.retainFor first).retainFor second =
      (package.retainFor second).retainFor first := by
  apply Package.ext
  case metadata =>
    simp only [metadata_retainFor]
    exact package.metadata.retainFor_comm first second
  case manifest =>
    apply Manifest.ext
    · cases first <;> cases second <;> rfl
    · simp only [items_retainFor, List.map_map]
      exact List.map_congr_left fun item _ => item.retainFor_comm first second
  case spine =>
    simp only [spine_retainFor]
    exact package.spine.retainFor_comm first second
  all_goals cases first <;> cases second <;> rfl

/-- The package fitted to several editions in turn. -/
def retainAll (package : Package) (versions : List Version) : Package :=
  versions.foldl retainFor package

/-- Whether a package has kept, of another one, what identifies the publication, its
resources and its reading order. -/
structure Keeps (package fitted : Package) : Prop where
  version : fitted.version = package.version
  uniqueIdentifier : fitted.uniqueIdentifier = package.uniqueIdentifier
  lang : fitted.lang = package.lang
  id : fitted.id = package.id
  items : fitted.manifest.items.map ManifestItem.core =
    package.manifest.items.map ManifestItem.core
  itemrefs : fitted.spine.itemrefs.map Itemref.core = package.spine.itemrefs.map Itemref.core
  spineId : fitted.spine.id = package.spine.id
  toc : fitted.spine.toc = package.spine.toc
  titles : fitted.metadata.titles.map TextEntry.core =
    package.metadata.titles.map TextEntry.core
  identifiers : fitted.metadata.identifiers.map Identifier.core =
    package.metadata.identifiers.map Identifier.core
  creators : fitted.metadata.creators.map Agent.core =
    package.metadata.creators.map Agent.core
  languages : fitted.metadata.languages = package.metadata.languages
  spineItems : fitted.spineItems.map ManifestItem.core =
    package.spineItems.map ManifestItem.core
  uniqueIdentifierValue : fitted.uniqueIdentifierValue? = package.uniqueIdentifierValue?

theorem Keeps.refl (package : Package) : package.Keeps package :=
  ⟨rfl, rfl, rfl, rfl, rfl, rfl, rfl, rfl, rfl, rfl, rfl, rfl, rfl, rfl⟩

theorem Keeps.trans {package middle fitted : Package} (hfirst : package.Keeps middle)
    (hsecond : middle.Keeps fitted) : package.Keeps fitted where
  version := hsecond.version.trans hfirst.version
  uniqueIdentifier := hsecond.uniqueIdentifier.trans hfirst.uniqueIdentifier
  lang := hsecond.lang.trans hfirst.lang
  id := hsecond.id.trans hfirst.id
  items := hsecond.items.trans hfirst.items
  itemrefs := hsecond.itemrefs.trans hfirst.itemrefs
  spineId := hsecond.spineId.trans hfirst.spineId
  toc := hsecond.toc.trans hfirst.toc
  titles := hsecond.titles.trans hfirst.titles
  identifiers := hsecond.identifiers.trans hfirst.identifiers
  creators := hsecond.creators.trans hfirst.creators
  languages := hsecond.languages.trans hfirst.languages
  spineItems := hsecond.spineItems.trans hfirst.spineItems
  uniqueIdentifierValue := hsecond.uniqueIdentifierValue.trans hfirst.uniqueIdentifierValue

end Package

/-- Whether a reading of entries looks at nothing that an edition clears or drops. -/
structure MetadataEntry.IsCommon {α : Type} (read : MetadataEntry → Option α) : Prop where
  metaInfo : ∀ info, read (.metaInfo info) = none
  link : ∀ link, read (.link link) = none
  direction : ∀ entry, read entry.withoutDirection = read entry
  attributes : ∀ entry, read entry.withoutOpfAttributes = read entry

namespace Metadata

/-- What is read off the entries in this way is kept, in order. -/
theorem filterMap_retainFor {α : Type} {read : MetadataEntry → Option α}
    (hcommon : MetadataEntry.IsCommon read) (metadata : Metadata) (version : Version) :
    (metadata.retainFor version).entries.filterMap read = metadata.entries.filterMap read := by
  by_cases hversion : version = .v2
  · have hdropped : ∀ entry : MetadataEntry, ¬entry.isEpub2 = true → read entry = none := by
      rintro (_ | _ | _ | _ | _ | info | link) hdropped
      case metaInfo => exact hcommon.metaInfo info
      case link => exact hcommon.link link
      all_goals exact absurd rfl hdropped
    rw [hversion, retainFor_v2, List.filterMap_map, List.filterMap_filter]
    refine List.filterMap_congr fun entry _ => ?_
    by_cases hkept : entry.isEpub2 = true
    · rw [if_pos hkept]
      exact hcommon.direction entry
    · rw [if_neg hkept, hdropped entry hkept]
  · rw [retainFor_of_ne _ hversion, List.filterMap_map]
    exact List.filterMap_congr fun entry _ => hcommon.attributes entry

variable (metadata : Metadata) (version : Version)

theorem titles_retainFor : (metadata.retainFor version).titles.map TextEntry.core =
    metadata.titles.map TextEntry.core := by
  simp only [titles, texts, List.map_filterMap]
  refine filterMap_retainFor ⟨fun _ => rfl, fun _ => rfl, ?_, ?_⟩ metadata version
  · rintro (_ | ⟨element, _⟩ | _ | _ | _ | _ | _)
    case text => cases element <;> rfl
    all_goals rfl
  · rintro (_ | _ | _ | _ | _ | _ | _) <;> rfl

theorem identifiers_retainFor : (metadata.retainFor version).identifiers.map Identifier.core =
    metadata.identifiers.map Identifier.core := by
  simp only [identifiers, List.map_filterMap]
  refine filterMap_retainFor ⟨fun _ => rfl, fun _ => rfl, ?_, ?_⟩ metadata version
  · rintro (_ | _ | _ | _ | _ | _ | _) <;> rfl
  · rintro (_ | _ | _ | _ | _ | _ | _) <;> rfl

theorem creators_retainFor : (metadata.retainFor version).creators.map Agent.core =
    metadata.creators.map Agent.core := by
  simp only [creators, List.map_filterMap]
  refine filterMap_retainFor ⟨fun _ => rfl, fun _ => rfl, ?_, ?_⟩ metadata version
  · rintro (_ | _ | _ | ⟨_ | _, _⟩ | _ | _ | _) <;> rfl
  · rintro (_ | _ | _ | ⟨_ | _, _⟩ | _ | _ | _) <;> rfl

theorem languages_retainFor : (metadata.retainFor version).languages = metadata.languages := by
  simp only [languages]
  refine filterMap_retainFor ⟨fun _ => rfl, fun _ => rfl, ?_, ?_⟩ metadata version
  · rintro (_ | _ | _ | _ | _ | _ | _) <;> rfl
  · rintro (_ | _ | _ | _ | _ | _ | _) <;> rfl

/-- The value of an identifier does not depend on what may be cleared. -/
theorem identifierById?_retainFor (id : String) :
    ((metadata.retainFor version).identifierById? id).map Identifier.value =
      (metadata.identifierById? id).map Identifier.value := by
  have hcore : ∀ metadata : Metadata, (metadata.identifierById? id).map Identifier.value =
      ((metadata.identifiers.map Identifier.core).find? (·.2 = some id)).map Prod.fst := by
    intro metadata
    rw [identifierById?, List.find?_map, Option.map_map]
    rfl
  rw [hcore, hcore, identifiers_retainFor]

end Metadata

namespace Package

variable (package : Package) (version : Version)

/-- The reading order leads to the same items. -/
theorem spineItems_retainFor :
    (package.retainFor version).spineItems = package.spineItems.map (·.retainFor version) := by
  have hitem : ∀ id, (package.retainFor version).item? id =
      (package.item? id).map (·.retainFor version) := by
    intro id
    rw [item?, item?, items_retainFor, List.find?_map]
    simp only [Function.comp_def, ManifestItem.id_retainFor]
  have hitemrefs : (package.retainFor version).spine.itemrefs =
      package.spine.itemrefs.map (·.retainFor version) := by
    rw [spine_retainFor, Spine.retainFor]
  rw [spineItems, spineItems, hitemrefs, List.filterMap_map, List.map_filterMap]
  refine List.filterMap_congr fun itemref _ => ?_
  rw [Function.comp_apply, Itemref.idref_retainFor, hitem]

/-- Fitting a package to one edition keeps all this. -/
theorem keeps_retainFor : package.Keeps (package.retainFor version) where
  version := package.version_retainFor version
  uniqueIdentifier := by cases version <;> rfl
  lang := by cases version <;> rfl
  id := by cases version <;> rfl
  items := by
    rw [items_retainFor, List.map_map]
    exact List.map_congr_left fun item _ => item.core_retainFor version
  itemrefs := by
    rw [spine_retainFor, Spine.retainFor, List.map_map]
    exact List.map_congr_left fun itemref _ => itemref.core_retainFor version
  spineId := by rw [spine_retainFor, Spine.retainFor]
  toc := by rw [spine_retainFor, Spine.retainFor]
  titles := by rw [metadata_retainFor, Metadata.titles_retainFor]
  identifiers := by rw [metadata_retainFor, Metadata.identifiers_retainFor]
  creators := by rw [metadata_retainFor, Metadata.creators_retainFor]
  languages := by rw [metadata_retainFor, Metadata.languages_retainFor]
  spineItems := by
    rw [spineItems_retainFor, List.map_map]
    exact List.map_congr_left fun item _ => item.core_retainFor version
  uniqueIdentifierValue := by
    have huid : (package.retainFor version).uniqueIdentifier = package.uniqueIdentifier := by
      cases version <;> rfl
    rw [uniqueIdentifierValue?, uniqueIdentifierValue?, huid, metadata_retainFor,
      Metadata.identifierById?_retainFor]

theorem keeps_retainAll (versions : List Version) : package.Keeps (package.retainAll versions) := by
  induction versions generalizing package with
  | nil => exact .refl package
  | cons version rest ih => exact (package.keeps_retainFor version).trans (ih _)

end Package

namespace MetadataEntry

/-- Whether every edition of a list knows entries of this form. -/
def isKnownToAll (versions : List Version) (entry : MetadataEntry) : Bool :=
  decide (.v2 ∈ versions → entry.isEpub2 = true)

/-- The entry without what some edition of a list does not know. -/
def knownToAll (versions : List Version) (entry : MetadataEntry) : MetadataEntry :=
  let entry := if .v2 ∈ versions then entry.withoutDirection else entry
  if ∃ version ∈ versions, version ≠ .v2 then entry.withoutOpfAttributes else entry

variable (versions : List Version) (entry : MetadataEntry)

theorem isKnownToAll_v2_cons :
    isKnownToAll (.v2 :: versions) entry =
      (isKnownToAll versions entry.withoutDirection && entry.isEpub2) := by
  cases hepub2 : entry.isEpub2 <;> simp [isKnownToAll, hepub2]

theorem isKnownToAll_cons_of_ne {version : Version} (hversion : version ≠ .v2) :
    isKnownToAll (version :: versions) entry =
      isKnownToAll versions entry.withoutOpfAttributes := by
  simp [isKnownToAll, hversion.symm]

theorem knownToAll_v2_cons :
    knownToAll (.v2 :: versions) entry = knownToAll versions entry.withoutDirection := by
  simp [knownToAll]

theorem knownToAll_cons_of_ne {version : Version} (hversion : version ≠ .v2) :
    knownToAll (version :: versions) entry = knownToAll versions entry.withoutOpfAttributes := by
  have hsome : ∃ other ∈ version :: versions, other ≠ .v2 :=
    ⟨version, List.mem_cons_self, hversion⟩
  have hv2 : .v2 ∈ version :: versions ↔ .v2 ∈ versions := by simp [hversion.symm]
  simp only [knownToAll, if_pos hsome, hv2]
  by_cases hmem : .v2 ∈ versions
  · simp [hmem, ← withoutOpfAttributes_withoutDirection]
  · simp [hmem]

end MetadataEntry

namespace Package

/-- What is left of the metadata, in order, depends on the editions alone. -/
theorem entries_retainAll (package : Package) (versions : List Version) :
    (package.retainAll versions).metadata.entries =
      (package.metadata.entries.filter (·.isKnownToAll versions)).map
        (·.knownToAll versions) := by
  induction versions generalizing package with
  | nil => simp [retainAll, MetadataEntry.isKnownToAll, MetadataEntry.knownToAll]
  | cons version rest ih =>
      have hfirst : package.retainAll (version :: rest) =
          (package.retainFor version).retainAll rest := rfl
      rw [hfirst, ih, metadata_retainFor]
      by_cases hversion : version = .v2
      · rw [hversion, Metadata.retainFor_v2]
        simp only [List.filter_map, List.map_map, List.filter_filter, Function.comp_def,
          MetadataEntry.isKnownToAll_v2_cons, MetadataEntry.knownToAll_v2_cons]
      · rw [Metadata.retainFor_of_ne _ hversion]
        simp only [List.filter_map, List.map_map, Function.comp_def,
          MetadataEntry.isKnownToAll_cons_of_ne _ _ hversion,
          MetadataEntry.knownToAll_cons_of_ne _ _ hversion]

/-- Fitting packages to editions is a family of commuting projections that leave everything
else alone.  To fit a package to an edition twice is to do it once, the order of two editions
does not matter, and however many editions it is fitted to in turn, the package keeps what
identifies the publication, its resources and its reading order.  Of the metadata the entries
that all these editions know are left, in their order. -/
theorem commutingProjections_retainFor (package : Package) :
    (∀ version, (package.retainFor version).retainFor version = package.retainFor version) ∧
    (∀ first second, (package.retainFor first).retainFor second =
      (package.retainFor second).retainFor first) ∧
    ∀ versions, package.Keeps (package.retainAll versions) ∧
      (package.retainAll versions).metadata.entries =
        (package.metadata.entries.filter (·.isKnownToAll versions)).map
          (·.knownToAll versions) :=
  ⟨package.retainFor_retainFor, package.retainFor_comm,
    fun versions => ⟨package.keeps_retainAll versions, package.entries_retainAll versions⟩⟩

end Package

end Epub.Model
