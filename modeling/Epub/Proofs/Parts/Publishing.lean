/-
Published packages.  A publication is written part by part, its container and its package
document among them, in any order.  Once both are there the package is found where the
container says, as it was fitted to its own edition.
-/
import Epub.Parts.Publication
import Epub.Proofs.Model.Fitting
import Epub.Proofs.Model.Saving
import Epub.Proofs.SortedMap

namespace Epub.Parts

open Epub.Model Epub.Xml

namespace MemoryParts

theorem get?_insert_self (store : MemoryParts) (path : String) (bytes : ByteArray) :
    (store.insert path bytes).get? path = some bytes :=
  SortedMap.get?_insert_self store.parts path bytes

theorem get?_insert_of_ne (store : MemoryParts) {path other : String} (bytes : ByteArray)
    (hne : path ≠ other) : (store.insert path bytes).get? other = store.get? other :=
  SortedMap.get?_insert_of_ne store.parts bytes (by simpa using hne)

theorem insert_of_get? {store : MemoryParts} {path : String} {bytes : ByteArray}
    (hget : store.get? path = some bytes) : store.insert path bytes = store :=
  congrArg MemoryParts.mk (SortedMap.insert_of_get? hget)

/-- A part is read under its own path before percent escapes are looked at. -/
theorem readPart_of_get? {store : MemoryParts} {path : String} {bytes : ByteArray}
    (hget : store.get? path = some bytes) : PartSource.readPart store path = .ok bytes := by
  change store.readPart path = .ok bytes
  rw [readPart, hget]

end MemoryParts

/-- One step of publishing a package. -/
inductive Write where
  /-- Write any part. -/
  | part (path : String) (bytes : ByteArray)
  /-- Write the container document. -/
  | container (layout : Layout)
  /-- Write the package document. -/
  | package (layout : Layout)

/-- What is published: a container, and a package at a path. -/
structure Publication where
  container : Container
  path : String
  package : Package

namespace Publication

/-- Take one step. -/
def write (publication : Publication) (store : MemoryParts) : Write → Traced MemoryParts
  | .part path bytes => .lift (PartSink.writePart store path bytes)
  | .container layout => writeContainer store publication.container layout
  | .package layout => writePackage store publication.path publication.package layout

/-- Take several steps in turn. -/
def writeAll (publication : Publication) (store : MemoryParts) (writes : List Write) :
    Traced MemoryParts :=
  writes.foldlM publication.write store

/-- A publication that can be written: the container lists the package document first, at
a path of its own, and the package can be written once it is fitted to its edition. -/
structure IsWritable (publication : Publication) : Prop where
  listed : publication.container.packagePath? = some publication.path
  apart : publication.path ≠ containerPath
  package : publication.package.fitted.IsWritable

/-- Whether a step leaves the container and the package document to the others. -/
def Admits (publication : Publication) : Write → Prop
  | .part path _ => path ≠ containerPath ∧ path ≠ publication.path
  | _ => True

theorem outcome_writeContainer (store : MemoryParts) (container : Container) (layout : Layout) :
    (writeContainer store container layout).outcome =
      (container.toBytes layout).outcome.map (store.insert containerPath) := by
  simp only [writeContainer, Traced.outcome_bind, Traced.outcome_note, ok_bind]
  cases (container.toBytes layout).outcome <;> rfl

theorem outcome_writePackage (store : MemoryParts) (path : String) (package : Package)
    (layout : Layout) :
    (writePackage store path package layout).outcome =
      (package.fitted.toBytes layout).outcome.map (store.insert path) := by
  cases hedition : package.edition? with
  | none =>
      simp only [writePackage, Package.fitted, hedition, Traced.outcome_bind,
        Traced.outcome_note, ok_bind, pure_bind]
      cases (package.toBytes layout).outcome <;> rfl
  | some version =>
      simp only [writePackage, Package.fitted, hedition, Package.clearFor, Traced.outcome_bind,
        Traced.outcome_note, Traced.outcome_pure, ok_bind]
      cases ((package.retainFor version).toBytes layout).outcome <;> rfl

/-- What is known of the store after some steps: the documents that were written are there,
and can be read. -/
structure Holds (publication : Publication) (done : List Write) (store : MemoryParts) :
    Prop where
  container : (∃ layout, .container layout ∈ done) →
    ∃ bytes, store.get? containerPath = some bytes ∧
      (Container.ofBytes bytes).outcome = .ok publication.container
  package : (∃ layout, .package layout ∈ done) →
    ∃ layout bytes, .package layout ∈ done ∧ store.get? publication.path = some bytes ∧
      (publication.package.fitted.toBytes layout).outcome = .ok bytes ∧
      (Package.ofBytes bytes).outcome = .ok publication.package.fitted

variable {publication : Publication} {store : MemoryParts} {done : List Write}

/-- A part at any other path changes nothing. -/
theorem Holds.insert_other (hholds : publication.Holds done store) {path : String}
    (bytes : ByteArray) (hcontainer : path ≠ containerPath) (hpackage : path ≠ publication.path) :
    publication.Holds done (store.insert path bytes) := by
  constructor
  · rw [store.get?_insert_of_ne bytes hcontainer]
    exact hholds.container
  · rw [store.get?_insert_of_ne bytes hpackage]
    exact hholds.package

/-- One step is taken, and keeps what is known of the store. -/
theorem exists_write (hwritable : publication.IsWritable)
    (hholds : publication.Holds done store) {step : Write} (hadmits : publication.Admits step) :
    ∃ next, (publication.write store step).outcome = .ok next ∧
      publication.Holds (step :: done) next := by
  cases step with
  | part path bytes =>
      refine ⟨store.insert path bytes, rfl, ?_⟩
      have hnext := hholds.insert_other bytes hadmits.1 hadmits.2
      constructor
      · simpa using hnext.container
      · simpa using hnext.package
  | container layout =>
      obtain ⟨bytes, hbytes, hread⟩ := Container.represents.exists_bytes rfl rfl (by decide)
        publication.container.isStorable layout
      refine ⟨store.insert containerPath bytes, ?_, ?_, ?_⟩
      · rw [write, outcome_writeContainer, Container.toBytes, hbytes]
        rfl
      · exact fun _ => ⟨bytes, store.get?_insert_self containerPath bytes, hread⟩
      · rw [store.get?_insert_of_ne bytes (Ne.symm hwritable.apart)]
        simpa using hholds.package
  | package layout =>
      obtain ⟨bytes, hbytes, hread⟩ := Package.represents.exists_bytes rfl rfl (by decide)
        (Package.isStorable hwritable.package) layout
      refine ⟨store.insert publication.path bytes, ?_, ?_, ?_⟩
      · rw [write, outcome_writePackage, Package.toBytes, hbytes]
        rfl
      · rw [store.get?_insert_of_ne bytes hwritable.apart]
        simpa using hholds.container
      · exact fun _ => ⟨layout, bytes, List.mem_cons_self,
          store.get?_insert_self publication.path bytes, hbytes, hread⟩

/-- All steps are taken. -/
theorem exists_writeAll (hwritable : publication.IsWritable)
    (hholds : publication.Holds done store) {writes : List Write}
    (hadmits : ∀ step ∈ writes, publication.Admits step) :
    ∃ published, (publication.writeAll store writes).outcome = .ok published ∧
      publication.Holds (writes.reverse ++ done) published := by
  induction writes generalizing store done with
  | nil => exact ⟨store, rfl, hholds⟩
  | cons step rest ih =>
      obtain ⟨next, hnext, hheld⟩ :=
        exists_write hwritable hholds (hadmits step List.mem_cons_self)
      obtain ⟨published, hrest, hpublished⟩ :=
        ih hheld fun other hother => hadmits other (List.mem_cons_of_mem step hother)
      refine ⟨published, ?_, by simpa using hpublished⟩
      rw [writeAll, List.foldlM_cons, Traced.outcome_bind, hnext, ok_bind]
      exact hrest

/-- A published package is read back.  Whatever else is written before, between and after,
the container leads to the package, which is the one that was fitted to its own edition, and
writing that one again leaves the publication as it is. -/
theorem readPackage_writeAll (publication : Publication) (store : MemoryParts)
    (writes : List Write) (hwritable : publication.IsWritable)
    (hcontainer : ∃ layout, Write.container layout ∈ writes)
    (hpackage : ∃ layout, Write.package layout ∈ writes)
    (hadmits : ∀ step ∈ writes, publication.Admits step) :
    ∃ published, (publication.writeAll store writes).outcome = .ok published ∧
      (readPackage published).outcome = .ok ⟨publication.path, publication.package.fitted⟩ ∧
      ∃ layout, Write.package layout ∈ writes ∧
        (writePackage published publication.path publication.package.fitted layout).outcome =
          .ok published := by
  have hstart : publication.Holds [] store := ⟨by simp, by simp⟩
  obtain ⟨published, hwrites, hholds⟩ := exists_writeAll hwritable hstart hadmits
  obtain ⟨bytes, hget, hread⟩ := hholds.container (by simpa using hcontainer)
  obtain ⟨layout, document, hlayout, hfound, hdocument, hreread⟩ :=
    hholds.package (by simpa using hpackage)
  refine ⟨published, hwrites, ?_, layout, by simpa using hlayout, ?_⟩
  · simp only [readPackage, readContainer, readPartAs, Traced.outcome_bind, Traced.outcome_note,
      Traced.outcome_lift, ok_bind, MemoryParts.readPart_of_get? hget, hread, hwritable.listed,
      MemoryParts.readPart_of_get? hfound, hreread]
    rfl
  · rw [outcome_writePackage, Package.fitted_fitted, hdocument, Except.map,
      MemoryParts.insert_of_get? hfound]

/-- A package of EPUB 2 that says things only EPUB 3 defines, in a publication with an
awkward path. -/
def outdated : Publication where
  container := ⟨"1.0", [⟨"other.xml", "text/xml"⟩, ⟨"a%20b/<c>.opf", packageMediaType⟩], []⟩
  path := "a%20b/<c>.opf"
  package :=
    { version := " 2.0"
      uniqueIdentifier := "uid"
      prefixes := some "p"
      lang := none
      dir := some .rtl
      id := none
      metadata := ⟨[.identifier ⟨some "uid", some "ISBN", "1"⟩,
        .text .title { TextEntry.of "A & B" with dir := some .ltr },
        .language (Language.of "en"),
        .metaInfo { (default : Meta) with name := some "cover", dir := some .rtl },
        .metaInfo { (default : Meta) with property := some "p" }, .link default]⟩
      manifest := ⟨none, [{ (default : ManifestItem) with properties := some "nav" }]⟩
      spine := ⟨none, some "ncx", some .rtl, [⟨"a", .no, none, some "p"⟩]⟩
      guide := some ⟨[⟨"cover", none, "#"⟩]⟩
      bindings := some ⟨[]⟩
      collections := [default] }

theorem isWritable_outdated : outdated.IsWritable := by
  refine ⟨by decide, by decide, by decide, by decide, ?_, nofun, by decide, nofun⟩
  rintro guide ⟨⟩
  decide

theorem readPackage_writeAll_outdated :
    outdated.IsWritable ∧ ∃ published, (outdated.writeAll MemoryParts.empty
        [.part "mimetype" ByteArray.empty, .package Layout.standard,
          .part "a b/<c>.opf" ByteArray.empty, .container Layout.compact]).outcome =
            .ok published ∧
      (readPackage published).outcome = .ok ⟨outdated.path, outdated.package.fitted⟩ ∧
      outdated.package.fitted ≠ outdated.package := by
  obtain ⟨published, hwrites, hread, _⟩ := readPackage_writeAll outdated MemoryParts.empty
    [.part "mimetype" ByteArray.empty, .package Layout.standard,
      .part "a b/<c>.opf" ByteArray.empty, .container Layout.compact]
    isWritable_outdated ⟨Layout.compact, by simp⟩ ⟨Layout.standard, by simp⟩
    (by simp [Admits, outdated, containerPath])
  exact ⟨isWritable_outdated, published, hwrites, hread, by decide⟩

end Publication

end Epub.Parts
