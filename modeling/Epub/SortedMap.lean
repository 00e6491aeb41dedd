/-
Maps kept as lists of entries in strictly increasing order of their keys.  Two
maps with the same entries are equal, whatever the order of insertion.
-/

namespace Epub

/-- Entries in strictly increasing order of their keys. -/
structure SortedMap (κ : Type) (ν : Type) [Ord κ] where
  entries : List (κ × ν)
  sorted : entries.Pairwise fun left right => compare left.1 right.1 = .lt
deriving DecidableEq

namespace SortedMap

variable {κ ν : Type} [Ord κ]

/-- The map without entries. -/
def empty : SortedMap κ ν :=
  ⟨[], .nil⟩

instance : Inhabited (SortedMap κ ν) := ⟨empty⟩

instance [Repr κ] [Repr ν] : Repr (SortedMap κ ν) :=
  ⟨fun map n => reprPrec map.entries n⟩

def isEmpty (map : SortedMap κ ν) : Bool :=
  map.entries.isEmpty

def size (map : SortedMap κ ν) : Nat :=
  map.entries.length

def keys (map : SortedMap κ ν) : List κ :=
  map.entries.map Prod.fst

/-- The value under a key. -/
def get? (map : SortedMap κ ν) (key : κ) : Option ν :=
  (map.entries.find? (fun entry => compare entry.1 key = .eq)).map Prod.snd

/-- Put an entry in its place, or give the key that stands there a new value. -/
def insertEntry (key : κ) (value : ν) : List (κ × ν) → List (κ × ν)
  | [] => [(key, value)]
  | head :: tail =>
      match compare key head.1 with
      | .lt => (key, value) :: head :: tail
      | .eq => (key, value) :: tail
      | .gt => head :: insertEntry key value tail

theorem mem_insertEntry {key : κ} {value : ν} {entries : List (κ × ν)}
    {entry : κ × ν}
    (hentry : entry ∈ insertEntry key value entries) :
    entry = (key, value) ∨ entry ∈ entries := by
  induction entries with
  | nil => exact Or.inl (by simpa [insertEntry] using hentry)
  | cons head tail ih =>
      simp only [insertEntry] at hentry
      split at hentry
      · exact List.mem_cons.mp hentry
      · rcases List.mem_cons.mp hentry with heq | hmem
        · exact Or.inl heq
        · exact Or.inr (List.mem_cons_of_mem head hmem)
      · rcases List.mem_cons.mp hentry with rfl | hmem
        · exact Or.inr List.mem_cons_self
        · exact (ih hmem).imp_right (List.mem_cons_of_mem head)

theorem sorted_insertEntry [Std.TransOrd κ] (key : κ) (value : ν)
    {entries : List (κ × ν)}
    (hsorted : entries.Pairwise fun left right => compare left.1 right.1 = .lt) :
    (insertEntry key value entries).Pairwise
      fun left right => compare left.1 right.1 = .lt := by
  induction entries with
  | nil => simp [insertEntry]
  | cons head tail ih =>
      obtain ⟨hhead, htail⟩ := List.pairwise_cons.mp hsorted
      simp only [insertEntry]
      split
      · rename_i hlt
        refine List.pairwise_cons.mpr ⟨fun entry hentry => ?_, hsorted⟩
        rcases List.mem_cons.mp hentry with rfl | hmem
        · exact hlt
        · exact Std.TransCmp.lt_trans hlt (hhead entry hmem)
      · rename_i heq
        refine List.pairwise_cons.mpr ⟨fun entry hentry => ?_, htail⟩
        exact Std.TransCmp.lt_of_eq_of_lt heq (hhead entry hentry)
      · rename_i hgt
        refine List.pairwise_cons.mpr ⟨fun entry hentry => ?_, ih htail⟩
        rcases mem_insertEntry hentry with rfl | hmem
        · exact Std.OrientedCmp.lt_of_gt hgt
        · exact hhead entry hmem

variable [Std.TransOrd κ]

/-- Give a key a value, replacing any value it has. -/
def insert (map : SortedMap κ ν) (key : κ) (value : ν) : SortedMap κ ν :=
  ⟨insertEntry key value map.entries, sorted_insertEntry key value map.sorted⟩

/-- The map of entries given in any order; of equal keys the last one counts. -/
def ofList (entries : List (κ × ν)) : SortedMap κ ν :=
  entries.foldl (fun map entry => map.insert entry.1 entry.2) empty

end SortedMap

end Epub
