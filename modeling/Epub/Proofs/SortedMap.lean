/-
Sorted maps: the entries determine a map, and putting a value under one key leaves all
other keys as they are.
-/
import Epub.SortedMap
import Epub.Proofs.Lists
import Mathlib.Data.List.Nodup

namespace Epub

namespace SortedMap

variable {κ ν : Type} [Ord κ]

theorem ext_entries {left right : SortedMap κ ν} (hentries : left.entries = right.entries) :
    left = right := by
  cases left
  cases right
  cases hentries
  rfl

section Inserting

variable {key : κ} {value : ν} {entry : κ × ν}

/-- Under other keys all stays as it is. -/
theorem mem_insertEntry_of_ne {entries : List (κ × ν)} (hentry : entry ∈ entries)
    (hne : compare key entry.1 ≠ .eq) : entry ∈ insertEntry key value entries := by
  induction entries with
  | nil => exact absurd hentry List.not_mem_nil
  | cons head tail ih =>
      rw [insertEntry]
      split
      · exact List.mem_cons_of_mem _ hentry
      · rename_i heq
        rcases List.mem_cons.mp hentry with rfl | htail
        · exact absurd heq hne
        · exact List.mem_cons_of_mem _ htail
      · rcases List.mem_cons.mp hentry with rfl | htail
        · exact List.mem_cons_self
        · exact List.mem_cons_of_mem _ (ih htail)

theorem mem_insertEntry_self (key : κ) (value : ν)
    (entries : List (κ × ν)) :
    (key, value) ∈ insertEntry key value entries := by
  induction entries with
  | nil => exact List.mem_cons_self
  | cons head tail ih =>
      rw [insertEntry]
      split
      · exact List.mem_cons_self
      · exact List.mem_cons_self
      · exact List.mem_cons_of_mem _ ih

end Inserting

variable [Std.TransOrd κ]

theorem insertEntry_of_last {key : κ} {value : ν} {entries : List (κ × ν)}
    (hlast : ∀ entry ∈ entries, compare entry.1 key = .lt) :
    insertEntry key value entries = entries ++ [(key, value)] := by
  induction entries with
  | nil => rfl
  | cons head tail ih =>
      have hhead : compare key head.1 = .gt :=
        Std.OrientedCmp.gt_of_lt (hlast head List.mem_cons_self)
      simp only [insertEntry, hhead]
      rw [ih fun entry hentry => hlast entry (List.mem_cons_of_mem head hentry)]
      rfl

/-- A map is made of its entries. -/
theorem ofList_entries (map : SortedMap κ ν) : ofList map.entries = map := by
  have hfold : ∀ (rest : List (κ × ν)) (start : SortedMap κ ν),
      (start.entries ++ rest).Pairwise (fun left right => compare left.1 right.1 = .lt) →
      (rest.foldl (fun map entry => map.insert entry.1 entry.2) start).entries =
        start.entries ++ rest := by
    intro rest
    induction rest with
    | nil => intro start _; simp
    | cons entry rest ih =>
        intro start hsorted
        have hinsert : (start.insert entry.1 entry.2).entries = start.entries ++ [entry] :=
          insertEntry_of_last fun other hother =>
            (List.pairwise_append.mp hsorted).2.2 other hother entry List.mem_cons_self
        rw [List.foldl_cons, ih _ (by rw [hinsert]; simpa using hsorted), hinsert]
        simp
  apply ext_entries
  exact hfold map.entries empty map.sorted

theorem mem_entries_of_mem_ofList {entries : List (κ × ν)} {entry : κ × ν}
    (hentry : entry ∈ (ofList entries).entries) : entry ∈ entries := by
  have hfold : ∀ (rest : List (κ × ν)) (start : SortedMap κ ν),
      entry ∈ (rest.foldl (fun map entry => map.insert entry.1 entry.2) start).entries →
        entry ∈ start.entries ∨ entry ∈ rest := by
    intro rest
    induction rest with
    | nil => intro start hmem; exact Or.inl hmem
    | cons first rest ih =>
        intro start hmem
        rcases ih _ hmem with hinsert | hrest
        · rcases mem_insertEntry hinsert with rfl | hstart
          · exact Or.inr List.mem_cons_self
          · exact Or.inl hstart
        · exact Or.inr (List.mem_cons_of_mem first hrest)
  rcases hfold entries empty hentry with hempty | hmem
  · exact absurd hempty List.not_mem_nil
  · exact hmem

section Members

variable [Std.LawfulEqOrd κ] {key : κ} {value : ν} {entry : κ × ν}

/-- What is there, or is put in, stays until something else is put under its key. -/
theorem mem_foldl_insert {rest : List (κ × ν)} {start : SortedMap κ ν}
    (hkeys : (rest.map Prod.fst).Nodup)
    (hentry : (entry ∈ start.entries ∧ entry.1 ∉ rest.map Prod.fst) ∨ entry ∈ rest) :
    entry ∈ (rest.foldl (fun map entry => map.insert entry.1 entry.2) start).entries := by
  induction rest generalizing start with
  | nil =>
      rcases hentry with ⟨hstart, _⟩ | hnil
      · exact hstart
      · exact absurd hnil List.not_mem_nil
  | cons first rest ih =>
      rw [List.map_cons, List.nodup_cons] at hkeys
      apply ih hkeys.2
      rcases hentry with ⟨hstart, hfresh⟩ | hlater
      · rw [List.map_cons, List.mem_cons, not_or] at hfresh
        have hne : compare first.1 entry.1 ≠ .eq := fun heq =>
          hfresh.1 (Std.LawfulEqCmp.eq_of_compare heq).symm
        exact Or.inl ⟨mem_insertEntry_of_ne hstart hne, hfresh.2⟩
      · rcases List.mem_cons.mp hlater with rfl | hrest
        · exact Or.inl ⟨mem_insertEntry_self entry.1 entry.2 start.entries, hkeys.1⟩
        · exact Or.inr hrest

/-- No entry is lost if no two are under one key. -/
theorem mem_ofList_iff {entries : List (κ × ν)} (hkeys : (entries.map Prod.fst).Nodup) :
    entry ∈ (ofList entries).entries ↔ entry ∈ entries := by
  constructor
  · exact mem_entries_of_mem_ofList
  · intro hentry
    exact mem_foldl_insert hkeys (Or.inr hentry)

/-- Maps with the same entries are equal. -/
theorem ext_mem {left right : SortedMap κ ν}
    (hsame : ∀ entry, entry ∈ left.entries ↔ entry ∈ right.entries) : left = right := by
  have hnodup : ∀ map : SortedMap κ ν, map.entries.Nodup := by
    intro map
    refine map.sorted.imp ?_
    rintro entry other hlt rfl
    simp at hlt
  apply ext_entries
  have hperm := (List.perm_ext_iff_of_nodup (hnodup left) (hnodup right)).mpr hsame
  refine hperm.eq_of_pairwise (fun entry other _ _ hlt hgt => ?_) left.sorted right.sorted
  rw [Std.OrientedCmp.gt_of_lt hlt] at hgt
  contradiction

/-- The order in which entries are put in does not matter. -/
theorem ofList_perm {entries entries' : List (κ × ν)} (hperm : entries.Perm entries')
    (hkeys : (entries.map Prod.fst).Nodup) : ofList entries = ofList entries' := by
  apply ext_mem
  intro entry
  have hkeys' : (entries'.map Prod.fst).Nodup := (hperm.map Prod.fst).nodup_iff.mp hkeys
  rw [mem_ofList_iff hkeys, mem_ofList_iff hkeys']
  exact hperm.mem_iff

omit [Std.TransOrd κ] in
/-- A key has the values that are entries under it. -/
theorem get?_eq_some_iff {map : SortedMap κ ν} :
    map.get? key = some value ↔ (key, value) ∈ map.entries := by
  have hfind : map.get? key = some value ↔ ∃ entry, map.entries.find?
      (fun entry => compare entry.1 key = .eq) = some entry ∧ entry.2 = value :=
    Option.map_eq_some_iff
  rw [hfind]
  constructor
  · rintro ⟨entry, hfound, rfl⟩
    have hkey : entry.1 = key := by simpa using List.find?_some hfound
    rw [← hkey]
    exact List.mem_of_find?_eq_some hfound
  · intro hmem
    obtain ⟨entry, hfound⟩ : ∃ entry, map.entries.find?
        (fun entry => compare entry.1 key = .eq) = some entry :=
      Option.isSome_iff_exists.mp (List.find?_isSome.mpr ⟨_, hmem, by simp⟩)
    have hkey : entry.1 = key := by simpa using List.find?_some hfound
    refine ⟨entry, hfound, ?_⟩
    rcases eq_or_rel_of_pairwise map.sorted (List.mem_of_find?_eq_some hfound) hmem with
      rfl | hlt | hgt
    · rfl
    · simp [hkey] at hlt
    · simp [hkey] at hgt

end Members

theorem isEmpty_insert (map : SortedMap κ ν) (key : κ) (value : ν) :
    (map.insert key value).isEmpty = false := by
  rw [isEmpty, List.isEmpty_eq_false_iff]
  change insertEntry key value map.entries ≠ []
  cases map.entries with
  | nil => exact List.cons_ne_nil _ _
  | cons head tail =>
      rw [insertEntry]
      split <;> exact List.cons_ne_nil _ _

/-- No entry is lost altogether. -/
theorem eq_nil_of_isEmpty_ofList {entries : List (κ × ν)}
    (hempty : (ofList entries).isEmpty = true) : entries = [] := by
  have hfold : ∀ (rest : List (κ × ν)) (start : SortedMap κ ν),
      (rest.foldl (fun map entry => map.insert entry.1 entry.2) start).isEmpty = true →
        start.isEmpty = true ∧ rest = [] := by
    intro rest
    induction rest with
    | nil => exact fun start hstart => ⟨hstart, rfl⟩
    | cons first rest ih =>
        intro start hfolded
        have hinsert := (ih _ hfolded).1
        rw [isEmpty_insert] at hinsert
        contradiction
  exact (hfold entries empty hempty).2

section Lookup

variable {map : SortedMap κ ν} {key other : κ} {value : ν}

/-- A key has the value that was put there last. -/
theorem get?_insert_self (map : SortedMap κ ν) (key : κ) (value : ν) :
    (map.insert key value).get? key = some value := by
  have hfind : ∀ entries : List (κ × ν), (insertEntry key value entries).find?
      (fun entry => compare entry.1 key = .eq) = some (key, value) := by
    intro entries
    induction entries with
    | nil => simp [insertEntry]
    | cons head tail ih =>
        rw [insertEntry]
        split
        · simp
        · simp
        · rename_i hgt
          have hhead : compare head.1 key = .lt := Std.OrientedCmp.lt_of_gt hgt
          rw [List.find?_cons_of_neg (by simp [hhead]), ih]
  rw [get?, insert, hfind]
  rfl

/-- All other keys keep their values. -/
theorem get?_insert_of_ne (map : SortedMap κ ν) (value : ν) (hne : compare key other ≠ .eq) :
    (map.insert key value).get? other = map.get? other := by
  have hfind : ∀ entries : List (κ × ν), (insertEntry key value entries).find?
      (fun entry => compare entry.1 other = .eq) =
        entries.find? (fun entry => compare entry.1 other = .eq) := by
    intro entries
    induction entries with
    | nil => simp [insertEntry, hne]
    | cons head tail ih =>
        rw [insertEntry]
        split
        · rw [List.find?_cons_of_neg (by simpa using hne)]
        · rename_i heq
          have hhead : compare head.1 other ≠ .eq := fun hsame =>
            hne (Std.TransCmp.eq_trans heq hsame)
          rw [List.find?_cons_of_neg (by simpa using hne),
            List.find?_cons_of_neg (by simpa using hhead)]
        · rw [List.find?_cons, List.find?_cons, ih]
  rw [get?, insert, hfind]
  rfl

/-- Putting a value where it stands already changes nothing. -/
theorem insert_of_get? [Std.LawfulEqOrd κ] (hget : map.get? key = some value) :
    map.insert key value = map := by
  have hsame : ∀ entries : List (κ × ν),
      entries.Pairwise (fun left right => compare left.1 right.1 = .lt) →
      (key, value) ∈ entries → insertEntry key value entries = entries := by
    intro entries
    induction entries with
    | nil => simp
    | cons head tail ih =>
        intro hsorted hmem
        obtain ⟨hhead, htail⟩ := List.pairwise_cons.mp hsorted
        rw [insertEntry]
        rcases List.mem_cons.mp hmem with rfl | hrest
        · simp
        · have hgt : compare key head.1 = .gt :=
            Std.OrientedCmp.gt_of_lt (hhead (key, value) hrest)
          rw [hgt]
          dsimp only
          rw [ih htail hrest]
  apply ext_entries
  apply hsame map.entries map.sorted
  exact get?_eq_some_iff.mp hget

end Lookup

end SortedMap

end Epub
