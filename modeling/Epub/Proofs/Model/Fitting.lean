/-
Fitting a package to an edition twice.  What an edition does not define is gone after the
first time, so the second time there is nothing left to clear.
-/
import Epub.Model.Retention

namespace Epub.Model

namespace MetadataEntry

@[simp] theorem isEpub2_withoutDirection (entry : MetadataEntry) :
    entry.withoutDirection.isEpub2 = entry.isEpub2 := by
  cases entry <;> rfl

@[simp] theorem withoutDirection_withoutDirection (entry : MetadataEntry) :
    entry.withoutDirection.withoutDirection = entry.withoutDirection := by
  cases entry <;> rfl

@[simp] theorem withoutOpfAttributes_withoutOpfAttributes (entry : MetadataEntry) :
    entry.withoutOpfAttributes.withoutOpfAttributes = entry.withoutOpfAttributes := by
  cases entry <;> rfl

end MetadataEntry

@[simp] theorem Metadata.retainFor_retainFor (metadata : Metadata) (version : Version) :
    (metadata.retainFor version).retainFor version = metadata.retainFor version := by
  cases version with
  | v2 =>
      have hkept : ((metadata.entries.filter MetadataEntry.isEpub2).map
          MetadataEntry.withoutDirection).filter MetadataEntry.isEpub2 =
            (metadata.entries.filter MetadataEntry.isEpub2).map
              MetadataEntry.withoutDirection := by
        rw [List.filter_eq_self]
        intro entry hentry
        obtain ⟨full, hfull, rfl⟩ := List.mem_map.mp hentry
        rw [MetadataEntry.isEpub2_withoutDirection]
        exact (List.mem_filter.mp hfull).2
      simp [Metadata.retainFor, hkept]
  | v30 | v31 => simp [Metadata.retainFor]

@[simp] theorem ManifestItem.retainFor_retainFor (item : ManifestItem) (version : Version) :
    (item.retainFor version).retainFor version = item.retainFor version := by
  cases version <;> rfl

@[simp] theorem Itemref.retainFor_retainFor (itemref : Itemref) (version : Version) :
    (itemref.retainFor version).retainFor version = itemref.retainFor version := by
  cases version <;> rfl

@[simp] theorem Spine.retainFor_retainFor (spine : Spine) (version : Version) :
    (spine.retainFor version).retainFor version = spine.retainFor version := by
  cases version <;> simp [Spine.retainFor]

namespace Package

@[simp] theorem version_retainFor (package : Package) (version : Version) :
    (package.retainFor version).version = package.version := by
  cases version <;> rfl

@[simp] theorem metadata_retainFor (package : Package) (version : Version) :
    (package.retainFor version).metadata = package.metadata.retainFor version := by
  cases version <;> rfl

@[simp] theorem edition?_retainFor (package : Package) (version : Version) :
    (package.retainFor version).edition? = package.edition? := by
  rw [edition?, edition?, version_retainFor]

@[simp] theorem retainFor_retainFor (package : Package) (version : Version) :
    (package.retainFor version).retainFor version = package.retainFor version := by
  cases version <;> simp [retainFor]

/-- The package fitted to its own edition.  An unknown edition clears nothing. -/
def fitted (package : Package) : Package :=
  match package.edition? with
  | some version => package.retainFor version
  | none => package

theorem fitted_fitted (package : Package) : package.fitted.fitted = package.fitted := by
  cases hedition : package.edition? with
  | none => simp [fitted, hedition]
  | some version => simp [fitted, hedition]

end Package

end Epub.Model
