/-
Names of parts.  Whatever has been written, a part is found under the name it was written
under, and otherwise under the name that the percent escapes stand for, decoded once.  The
rule only looks at the history of writes and gives one answer; memory and archives each follow
it in their own way, so they answer alike.
-/
import Epub.Parts.Store
import Epub.Proofs.Lists
import Epub.Proofs.Parts.Publishing
import Epub.Proofs.Text.Percent

namespace Epub.Parts

open Epub.Text

/-- Write parts in turn. -/
def writeParts {σ : Type} [PartSink σ] (store : σ) (writes : List (String × ByteArray)) :
    Except Error σ :=
  writes.foldlM (fun store part => PartSink.writePart store part.1 part.2) store

section History

variable {writes : List (String × ByteArray)} {path name : String} {bytes content : ByteArray}

/-- Nothing has been written under `path`. -/
def Unwritten (writes : List (String × ByteArray)) (path : String) : Prop :=
  ∀ part ∈ writes, part.1 ≠ path

/-- What has been written last under `path`. -/
def WrittenLast (writes : List (String × ByteArray)) (path : String) (bytes : ByteArray) :
    Prop :=
  ∃ before after, writes = before ++ (path, bytes) :: after ∧ Unwritten after path

/-- The rule by which a name is resolved after some writes. -/
inductive Answers (writes : List (String × ByteArray)) (path : String) :
    Except Error ByteArray → Prop where
  /-- The name itself goes first. -/
  | exact {bytes : ByteArray} : WrittenLast writes path bytes → Answers writes path (.ok bytes)
  /-- The name behind the escapes comes second. -/
  | decoded {other : String} {bytes : ByteArray} : Unwritten writes path →
      Percent.Decodes path other → other ≠ path → WrittenLast writes other bytes →
        Answers writes path (.ok bytes)
  /-- No other name is tried, and the refusal gives the name that was asked for. -/
  | missing : Unwritten writes path →
      (∀ other, Percent.Decodes path other → Unwritten writes other) →
        Answers writes path (.error (.missingPart path))

instance (writes : List (String × ByteArray)) (path : String) : Decidable (Unwritten writes path) :=
  inferInstanceAs (Decidable (∀ part ∈ writes, part.1 ≠ path))

theorem not_unwritten_of_writtenLast (hwritten : WrittenLast writes path bytes) :
    ¬Unwritten writes path := by
  obtain ⟨before, after, rfl, -⟩ := hwritten
  exact fun hunwritten =>
    hunwritten (path, bytes) (List.mem_append_right _ List.mem_cons_self) rfl

theorem unwritten_or_writtenLast (writes : List (String × ByteArray)) (path : String) :
    Unwritten writes path ∨ ∃ bytes, WrittenLast writes path bytes := by
  induction writes with
  | nil => exact Or.inl fun part hpart => absurd hpart List.not_mem_nil
  | cons first rest ih =>
      rcases ih with hunwritten | ⟨bytes, before, after, rfl, hafter⟩
      · by_cases hfirst : first.1 = path
        · exact Or.inr ⟨first.2, [], rest, by rw [← hfirst]; rfl, hunwritten⟩
        · exact Or.inl (List.forall_mem_cons.mpr ⟨hfirst, hunwritten⟩)
      · exact Or.inr ⟨bytes, first :: before, after, rfl, hafter⟩

/-- A write counts for its own name and leaves all others alone. -/
theorem writtenLast_concat :
    WrittenLast (writes ++ [(name, content)]) path bytes ↔
      name = path ∧ content = bytes ∨ name ≠ path ∧ WrittenLast writes path bytes := by
  constructor
  · rintro ⟨before, after, hsplit, hafter⟩
    rcases concat_eq_append_cons_iff.mp hsplit with ⟨rfl, hlast, rfl⟩ | ⟨middle, rfl, rfl⟩
    · cases hlast
      exact Or.inl ⟨rfl, rfl⟩
    · obtain ⟨hmiddle, hlast⟩ := List.forall_mem_append.mp hafter
      exact Or.inr ⟨hlast (name, content) List.mem_cons_self, before, middle, rfl, hmiddle⟩
  · rintro (⟨rfl, rfl⟩ | ⟨hname, before, after, rfl, hafter⟩)
    · exact ⟨writes, [], rfl, fun part hpart => absurd hpart List.not_mem_nil⟩
    · refine ⟨before, after ++ [(name, content)], by simp, fun part hpart => ?_⟩
      rcases List.mem_append.mp hpart with hmem | hlast
      · exact hafter part hmem
      · obtain rfl := List.mem_singleton.mp hlast
        exact hname

/-- Where each name is written once, no other write has the name of this one. -/
theorem unwritten_of_nodup {before after : List (String × ByteArray)}
    (hnodup : ((before ++ (path, bytes) :: after).map Prod.fst).Nodup) :
    Unwritten before path ∧ Unwritten after path := by
  rw [List.map_append, List.map_cons] at hnodup
  obtain ⟨-, hrest, hdisjoint⟩ := List.nodup_append.mp hnodup
  constructor
  · exact fun part hpart => hdisjoint part.1 (List.mem_map_of_mem hpart) path List.mem_cons_self
  · exact fun part hpart hsame =>
      (List.nodup_cons.mp hrest).1 (List.mem_map.mpr ⟨part, hpart, hsame⟩)

/-- Where each name is written once, all that was written counts. -/
theorem writtenLast_iff_mem (hnodup : (writes.map Prod.fst).Nodup) :
    WrittenLast writes path bytes ↔ (path, bytes) ∈ writes := by
  constructor
  · rintro ⟨before, after, rfl, -⟩
    exact List.mem_append_right _ List.mem_cons_self
  · intro hmem
    obtain ⟨before, after, rfl⟩ := List.append_of_mem hmem
    exact ⟨before, after, rfl, (unwritten_of_nodup hnodup).2⟩

/-- The rule has an answer for every name. -/
theorem Answers.exists (writes : List (String × ByteArray)) (path : String) :
    ∃ outcome, Answers writes path outcome := by
  rcases unwritten_or_writtenLast writes path with hunwritten | ⟨bytes, hwritten⟩
  · by_cases hbehind : ∃ other bytes, Percent.Decodes path other ∧ WrittenLast writes other bytes
    · obtain ⟨other, bytes, hdecodes, hwritten⟩ := hbehind
      have hne : other ≠ path := by
        rintro rfl
        exact not_unwritten_of_writtenLast hwritten hunwritten
      exact ⟨_, .decoded hunwritten hdecodes hne hwritten⟩
    · refine ⟨_, .missing hunwritten fun other hdecodes => ?_⟩
      exact (unwritten_or_writtenLast writes other).resolve_right
        fun ⟨bytes, hwritten⟩ => hbehind ⟨other, bytes, hdecodes, hwritten⟩
  · exact ⟨_, .exact hwritten⟩

end History

theorem decodedPath?_eq_some {path other : String} :
    decodedPath? path = some other ↔ Percent.Decodes path other ∧ other ≠ path := by
  rw [decodedPath?, Option.filter_eq_some_iff, Percent.decode?_eq_some, decide_eq_true_iff]

namespace MemoryParts

variable {store : MemoryParts} {writes : List (String × ByteArray)}

/-- A store that finds under each name what was written last under it, and nothing else. -/
structure Keeps (store : MemoryParts) (writes : List (String × ByteArray)) : Prop where
  written : ∀ {path bytes}, WrittenLast writes path bytes → store.get? path = some bytes
  unwritten : ∀ {path}, Unwritten writes path → store.get? path = none

/-- Such a store answers by the rule. -/
theorem Keeps.readPart_of_answers (hkeeps : store.Keeps writes) {path : String}
    {outcome : Except Error ByteArray} (hanswers : Answers writes path outcome) :
    store.readPart path = outcome := by
  rw [readPart]
  cases hanswers with
  | exact hwritten => rw [hkeeps.written hwritten]
  | decoded hunwritten hdecodes hne hwritten =>
      rw [hkeeps.unwritten hunwritten, decodedPath?_eq_some.mpr ⟨hdecodes, hne⟩,
        Option.bind_some, hkeeps.written hwritten]
  | missing hunwritten hothers =>
      have hnone : (decodedPath? path).bind store.get? = none := by
        rw [Option.bind_eq_none_iff]
        intro other hother
        exact hkeeps.unwritten (hothers other (decodedPath?_eq_some.mp hother).1)
      rw [hkeeps.unwritten hunwritten, hnone]

theorem keeps_empty : Keeps empty [] where
  written := by
    rintro path bytes ⟨before, after, hsplit, -⟩
    simp at hsplit
  unwritten _ := rfl

/-- One more write is one more entry of the history. -/
theorem keeps_insert (hkeeps : store.Keeps writes) (name : String) (content : ByteArray) :
    (store.insert name content).Keeps (writes ++ [(name, content)]) := by
  constructor
  · intro path bytes hwritten
    rcases writtenLast_concat.mp hwritten with ⟨rfl, rfl⟩ | ⟨hname, hearlier⟩
    · exact store.get?_insert_self name content
    · rw [get?_insert_of_ne store content hname]
      exact hkeeps.written hearlier
  · intro path hunwritten
    obtain ⟨hearlier, hlast⟩ := List.forall_mem_append.mp hunwritten
    rw [get?_insert_of_ne store content (hlast (name, content) List.mem_cons_self)]
    exact hkeeps.unwritten hearlier

/-- Writing to memory never fails, and what is written counts. -/
theorem exists_writeParts (hkeeps : store.Keeps writes) (further : List (String × ByteArray)) :
    ∃ written, writeParts store further = .ok written ∧ written.Keeps (writes ++ further) := by
  induction further generalizing store writes with
  | nil => exact ⟨store, rfl, by rwa [List.append_nil]⟩
  | cons part rest ih =>
      obtain ⟨written, hwritten, hall⟩ := ih (keeps_insert hkeeps part.1 part.2)
      refine ⟨written, ?_, by rwa [List.append_assoc] at hall⟩
      rw [writeParts, List.foldlM_cons]
      exact hwritten

end MemoryParts

namespace Archive

variable {archive : Archive} {writes : List (String × ByteArray)} {path : String}

/-- An archive that opens a sound file under each name that was written, with what was written
last, and has no file of any other name. -/
structure Keeps (archive : Archive) (writes : List (String × ByteArray)) : Prop where
  written : ∀ {path bytes}, WrittenLast writes path bytes → archive.byName path = .ok ⟨.ok bytes⟩
  unwritten : ∀ {path}, Unwritten writes path → archive.byName path = .error .notFound

/-- Such an archive answers by the rule, too. -/
theorem Keeps.readPart_of_answers (hkeeps : archive.Keeps writes)
    {outcome : Except Error ByteArray} (hanswers : Answers writes path outcome) :
    archive.readPart path = outcome := by
  rw [readPart]
  cases hanswers with
  | exact hwritten =>
      rw [hkeeps.written hwritten]
      rfl
  | decoded hunwritten hdecodes hne hwritten =>
      rw [hkeeps.unwritten hunwritten, decodedPath?_eq_some.mpr ⟨hdecodes, hne⟩]
      dsimp only
      rw [hkeeps.written hwritten]
      rfl
  | missing hunwritten hothers =>
      rw [hkeeps.unwritten hunwritten]
      cases hdecoded : decodedPath? path with
      | none => rfl
      | some decoded =>
          have hnone := hkeeps.unwritten (hothers decoded (decodedPath?_eq_some.mp hdecoded).1)
          dsimp only
          rw [hnone]

/-- The files of sound parts are looked up as the parts are. -/
theorem lookup_ofParts (parts : List (String × ByteArray)) (path : String) :
    (ofParts parts).files.lookup path = (parts.lookup path).map fun bytes => .ok ⟨.ok bytes⟩ := by
  rw [ofParts]
  induction parts with
  | nil => rfl
  | cons part rest ih =>
      rw [List.map_cons, entry, List.lookup_cons, List.lookup_cons, ih]
      cases path == part.1 <;> rfl

theorem lookup_eq_none_iff {parts : List (String × ByteArray)} :
    parts.lookup path = none ↔ Unwritten parts path := by
  simp only [List.lookup_eq_none_iff, bne_iff_ne, Unwritten, ne_comm]

/-- An archive of parts with different names keeps what was written, in whatever order. -/
theorem keeps_of_perm {parts : List (String × ByteArray)} (hperm : parts.Perm writes)
    (hnodup : (writes.map Prod.fst).Nodup) : (ofParts parts).Keeps writes := by
  have hparts : (parts.map Prod.fst).Nodup := (hperm.map Prod.fst).nodup_iff.mpr hnodup
  constructor
  · intro path bytes hwritten
    have hmem := hperm.mem_iff.mpr ((writtenLast_iff_mem hnodup).mp hwritten)
    obtain ⟨before, after, rfl⟩ := List.append_of_mem hmem
    have hlookup : (before ++ (path, bytes) :: after).lookup path = some bytes := by
      rw [List.lookup_eq_some_iff]
      refine ⟨before, after, rfl, fun part hpart => ?_⟩
      rw [bne_iff_ne]
      exact ((unwritten_of_nodup hparts).1 part hpart).symm
    rw [byName, lookup_ofParts, hlookup]
    rfl
  · intro path hunwritten
    have hparts : Unwritten parts path := fun part hpart =>
      hunwritten part (hperm.mem_iff.mp hpart)
    rw [byName, lookup_ofParts, lookup_eq_none_iff.mpr hparts]
    rfl

/-- Parts with different names are appended one after another. -/
theorem writeParts_eq {parts further : List (String × ByteArray)}
    (hnodup : ((parts ++ further).map Prod.fst).Nodup) :
    writeParts (ofParts parts) further = .ok (ofParts (parts ++ further)) := by
  induction further generalizing parts with
  | nil => rw [List.append_nil]; rfl
  | cons part rest ih =>
      have hfresh : (ofParts parts).files.lookup part.1 = none := by
        rw [lookup_ofParts, lookup_eq_none_iff.mpr (unwritten_of_nodup hnodup).1]
        rfl
      have hwrite : PartSink.writePart (ofParts parts) part.1 part.2 =
          .ok (ofParts (parts ++ [part])) := by
        change (ofParts parts).append part.1 part.2 = _
        rw [append, hfresh, ofParts, ofParts, List.map_append]
        rfl
      have hrest := @ih (parts ++ [part]) (by rwa [List.append_assoc])
      rw [List.append_assoc] at hrest
      rw [writeParts, List.foldlM_cons, hwrite]
      exact hrest

end Archive

/-- Both kinds of store resolve names by the rule, whatever has been written.  No name is
decoded twice: if neither the name nor the one behind its escapes has been written, then it
makes no difference which others have. -/
theorem readPart_writeParts (writes : List (String × ByteArray)) :
    ∃ memory, writeParts MemoryParts.empty writes = .ok memory ∧
      (∀ path outcome, memory.readPart path = outcome ↔ Answers writes path outcome) ∧
      (∀ path once, Percent.Decodes path once → Unwritten writes path → Unwritten writes once →
        memory.readPart path = .error (.missingPart path)) ∧
      ((writes.map Prod.fst).Nodup →
        writeParts Archive.empty writes = .ok (.ofParts writes) ∧
          ∀ parts, parts.Perm writes →
            ∀ path, (Archive.ofParts parts).readPart path = memory.readPart path) := by
  obtain ⟨memory, hmemory, hkeeps⟩ := MemoryParts.exists_writeParts MemoryParts.keeps_empty writes
  refine ⟨memory, hmemory, fun path outcome => ⟨?_, hkeeps.readPart_of_answers⟩, ?_,
    fun hnodup => ⟨@Archive.writeParts_eq [] writes hnodup, ?_⟩⟩
  · rintro rfl
    obtain ⟨outcome, hanswers⟩ := Answers.exists writes path
    rw [hkeeps.readPart_of_answers hanswers]
    exact hanswers
  · intro path once hdecodes hunwritten honce
    refine hkeeps.readPart_of_answers (.missing hunwritten fun other hother => ?_)
    rw [hother.unique hdecodes]
    exact honce
  · intro parts hperm path
    obtain ⟨outcome, hanswers⟩ := Answers.exists writes path
    rw [hkeeps.readPart_of_answers hanswers,
      (Archive.keeps_of_perm hperm hnodup).readPart_of_answers hanswers]

/-- Names with escapes of their own, and names that escapes stand for. -/
def escapedParts : List (String × ByteArray) :=
  [("a b", "1".toUTF8), ("a%20b", "2".toUTF8), ("c d", "3".toUTF8)]

theorem readPart_writeParts_escaped :
    (escapedParts.map Prod.fst).Nodup ∧
      ∃ memory, writeParts MemoryParts.empty escapedParts = .ok memory ∧
        memory.readPart "a%20b" = .ok "2".toUTF8 ∧ memory.readPart "c%20d" = .ok "3".toUTF8 ∧
        memory.readPart "c%2520d" = .error (.missingPart "c%2520d") ∧
        memory.readPart "c%20%FFd" = .error (.missingPart "c%20%FFd") ∧
        ∀ path, (Archive.ofParts escapedParts.reverse).readPart path = memory.readPart path := by
  have hnodup : (escapedParts.map Prod.fst).Nodup := by decide
  obtain ⟨memory, hmemory, hanswers, honce, harchives⟩ := readPart_writeParts escapedParts
  have hspace : Percent.Decodes "c%20d" "c d" := Percent.decode?_eq_some.mp (by decide +kernel)
  have hpercent : Percent.Decodes "c%2520d" "c%20d" :=
    Percent.decode?_eq_some.mp (by decide +kernel)
  have hbroken : ∀ other, ¬Percent.Decodes "c%20%FFd" other := by
    intro other hdecodes
    have hnone : Percent.decode? "c%20%FFd" = none := by decide +kernel
    rw [← Percent.decode?_eq_some, hnone] at hdecodes
    contradiction
  refine ⟨hnodup, memory, hmemory, ?_, ?_, ?_, ?_, ?_⟩
  · exact (hanswers _ _).mpr (.exact ⟨[("a b", "1".toUTF8)], [("c d", "3".toUTF8)], rfl, by decide⟩)
  · exact (hanswers _ _).mpr (.decoded (by decide) hspace (by decide)
      ⟨[("a b", "1".toUTF8), ("a%20b", "2".toUTF8)], [], rfl, by decide⟩)
  · exact honce _ _ hpercent (by decide) (by decide)
  · exact (hanswers _ _).mpr (.missing (by decide) fun other hdecodes =>
      absurd hdecodes (hbroken other))
  · exact (harchives hnodup).2 _ (List.reverse_perm _)

end Epub.Parts
