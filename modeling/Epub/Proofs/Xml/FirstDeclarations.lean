/-
First declarations.  However many declarations an element is given, it keeps the first one of
each prefix, and it keeps them in the order in which they were given.
-/
import Epub.Proofs.Lists
import Epub.Proofs.Xml.Tree
import Mathlib.Data.List.Sort

namespace Epub

section Arrival

variable {α : Type} {At At' : α → Nat → Prop} {a b : α}

/-- Whether the one comes at an earlier time than the other. -/
def Earlier (At : α → Nat → Prop) (a b : α) : Prop :=
  ∃ time time', At a time ∧ At b time' ∧ time < time'

theorem Earlier.imp (hearlier : Earlier At a b) (ha : ∀ time, At a time → At' a time)
    (hb : ∀ time, At b time → At' b time) : Earlier At' a b := by
  obtain ⟨time, time', hat, hat', hlt⟩ := hearlier
  exact ⟨time, time', ha time hat, hb time' hat', hlt⟩

/-- Of two things that come at one time each, not both are the earlier one. -/
theorem Earlier.asymm (hunique : ∀ a time time', At a time → At a time' → time = time')
    (hearlier : Earlier At a b) : ¬Earlier At b a := by
  rintro ⟨second, first, hb, ha, hlt⟩
  obtain ⟨time, time', ha', hb', hlt'⟩ := hearlier
  obtain rfl := hunique a _ _ ha ha'
  obtain rfl := hunique b _ _ hb hb'
  omega

/-- There is one list only of the same things in the order in which they come. -/
theorem eq_of_earlier (hunique : ∀ a time time', At a time → At a time' → time = time')
    {as bs : List α} (has : as.Pairwise (Earlier At)) (hbs : bs.Pairwise (Earlier At))
    (hmem : ∀ a, a ∈ as ↔ a ∈ bs) : as = bs := by
  have : Std.Asymm (Earlier At) := ⟨fun _ _ => Earlier.asymm hunique⟩
  exact has.eq_of_mem_iff hbs hmem

end Arrival

namespace Xml

variable {given kept : List NamespaceDecl} {d other : NamespaceDecl} {time : Nat}

/-- When a declaration was given that is the first one of its prefix. -/
def GivenAt (given : List NamespaceDecl) (d : NamespaceDecl) (time : Nat) : Prop :=
  ∃ before after, given = before ++ d :: after ∧ before.length = time ∧
    ∀ earlier ∈ before, earlier.label ≠ d.label

/-- Whether the declarations kept are the first ones of their prefixes, in the order in which
they were given. -/
structure KeepsFirsts (given kept : List NamespaceDecl) : Prop where
  firsts : ∀ d, d ∈ kept ↔ ∃ time, GivenAt given d time
  order : kept.Pairwise (Earlier (GivenAt given))

theorem givenAt_concat : GivenAt (given ++ [other]) d time ↔
    GivenAt given d time ∨
      other = d ∧ given.length = time ∧ ∀ earlier ∈ given, earlier.label ≠ d.label := by
  constructor
  · rintro ⟨before, after, hsplit, hlength, hbefore⟩
    rcases concat_eq_append_cons_iff.mp hsplit with ⟨rfl, rfl, rfl⟩ | ⟨middle, rfl, rfl⟩
    · exact Or.inr ⟨rfl, hlength, hbefore⟩
    · exact Or.inl ⟨before, middle, rfl, hlength, hbefore⟩
  · rintro (⟨before, after, rfl, hlength, hbefore⟩ | ⟨rfl, hlength, hbefore⟩)
    · exact ⟨before, after ++ [other], by simp, hlength, hbefore⟩
    · exact ⟨given, [], rfl, hlength, hbefore⟩

theorem GivenAt.lt_length (hgiven : GivenAt given d time) : time < given.length := by
  obtain ⟨before, after, rfl, rfl, -⟩ := hgiven
  simp

/-- A prefix has one first declaration only. -/
theorem GivenAt.unique {time' : Nat} (hgiven : GivenAt given d time)
    (hgiven' : GivenAt given other time') (hlabel : d.label = other.label) :
    d = other ∧ time = time' := by
  have hnot : ∀ {first second : NamespaceDecl} {start later : Nat}, GivenAt given first start →
      GivenAt given second later → first.label = second.label → ¬start < later := by
    rintro first _ _ _ ⟨before, after, hsplit, rfl, -⟩ ⟨before', _, hsplit', rfl, hfresh⟩ hsame hlt
    obtain ⟨middle, rfl, -⟩ := exists_of_split_lt (hsplit.symm.trans hsplit') hlt
    exact hfresh first (by simp) hsame
  have hle := hnot hgiven' hgiven hlabel.symm
  have hge := hnot hgiven hgiven' hlabel
  have htime : time = time' := by omega
  obtain ⟨before, _, rfl, rfl, -⟩ := hgiven
  obtain ⟨before', _, hsplit, hlength, -⟩ := hgiven'
  obtain ⟨-, htail⟩ := List.append_inj hsplit (htime.trans hlength.symm)
  exact ⟨(List.cons.inj htail).1, htime⟩

/-- Among the declarations of a prefix there is a first one. -/
theorem exists_givenAt (hd : d ∈ given) :
    ∃ first time, GivenAt given first time ∧ first.label = d.label := by
  obtain ⟨first, hfirst⟩ := Option.isSome_iff_exists.mp
    (List.find?_isSome (p := fun other => decide (other.label = d.label)).mpr ⟨d, hd, by simp⟩)
  obtain ⟨hfound, before, after, rfl, hbefore⟩ := List.find?_eq_some_iff_append.mp hfirst
  have hlabel : first.label = d.label := by simpa using hfound
  refine ⟨first, before.length, ⟨before, after, rfl, rfl, fun earlier hearlier => ?_⟩, hlabel⟩
  rw [hlabel]
  simpa using hbefore earlier hearlier

namespace KeepsFirsts

theorem nil : KeepsFirsts [] [] := by
  refine ⟨fun d => iff_of_false List.not_mem_nil ?_, .nil⟩
  rintro ⟨time, hgiven⟩
  exact absurd hgiven.lt_length (Nat.not_lt_zero time)

theorem nodup_labels (hkeeps : KeepsFirsts given kept) :
    (kept.map NamespaceDecl.label).Nodup := by
  rw [List.nodup_iff_pairwise_ne, List.pairwise_map]
  refine hkeeps.order.imp ?_
  rintro d other ⟨time, time', hd, hother, hlt⟩ hlabel
  exact absurd (hd.unique hother hlabel).2 (Nat.ne_of_lt hlt)

theorem exists_label_iff (hkeeps : KeepsFirsts given kept) (label : String) :
    (∃ d ∈ kept, d.label = label) ↔ ∃ d ∈ given, d.label = label := by
  constructor
  · rintro ⟨d, hd, rfl⟩
    obtain ⟨time, before, after, rfl, -⟩ := (hkeeps.firsts d).mp hd
    exact ⟨d, by simp, rfl⟩
  · rintro ⟨d, hd, rfl⟩
    obtain ⟨first, time, hgiven, hlabel⟩ := exists_givenAt hd
    exact ⟨first, (hkeeps.firsts first).mpr ⟨time, hgiven⟩, hlabel⟩

/-- One more declaration is kept if its prefix is new. -/
theorem declare {e : Element} (hkeeps : KeepsFirsts given e.declarations) (d : NamespaceDecl) :
    KeepsFirsts (given ++ [d]) (e.declare d).declarations := by
  have hstays : ∀ first time, GivenAt given first time → GivenAt (given ++ [d]) first time :=
    fun first time hgiven => givenAt_concat.mpr (Or.inl hgiven)
  have hold : e.declarations.Pairwise (Earlier (GivenAt (given ++ [d]))) :=
    hkeeps.order.imp fun hearlier => hearlier.imp (hstays _) (hstays _)
  rw [Element.declare]
  split
  · rename_i hdeclared
    obtain ⟨other, hother, hlabel⟩ :=
      (hkeeps.exists_label_iff d.label).mp (by simpa using hdeclared)
    refine ⟨fun first => ?_, hold⟩
    have hnot : ∀ time, ¬(d = first ∧ given.length = time ∧
        ∀ earlier ∈ given, earlier.label ≠ first.label) := by
      rintro time ⟨rfl, -, hfresh⟩
      exact hfresh other hother hlabel
    simp only [hkeeps.firsts, givenAt_concat, hnot, or_false]
  · rename_i hundeclared
    have hfresh : ∀ earlier ∈ given, earlier.label ≠ d.label := by
      intro earlier hearlier hlabel
      obtain ⟨other, hother⟩ := (hkeeps.exists_label_iff d.label).mpr ⟨earlier, hearlier, hlabel⟩
      exact hundeclared (by simpa using ⟨other, hother⟩)
    have hlast : GivenAt (given ++ [d]) d given.length :=
      givenAt_concat.mpr (Or.inr ⟨rfl, rfl, hfresh⟩)
    refine ⟨fun first => ?_, List.pairwise_append.mpr ⟨hold, List.pairwise_singleton _ _, ?_⟩⟩
    · simp only [List.mem_append, List.mem_singleton, hkeeps.firsts, givenAt_concat, exists_or]
      refine or_congr_right ⟨?_, ?_⟩
      · rintro rfl
        exact ⟨given.length, rfl, rfl, hfresh⟩
      · rintro ⟨_, rfl, -⟩
        rfl
    · intro first hfirst other hother
      obtain rfl := List.mem_singleton.mp hother
      obtain ⟨time, hgiven⟩ := (hkeeps.firsts first).mp hfirst
      exact ⟨time, given.length, hstays first time hgiven, hlast, hgiven.lt_length⟩

theorem declareAll {e : Element} (hkeeps : KeepsFirsts given e.declarations)
    (declarations : List NamespaceDecl) :
    KeepsFirsts (given ++ declarations) (e.declareAll declarations).declarations := by
  induction declarations generalizing given e with
  | nil => rwa [List.append_nil]
  | cons d rest ih =>
      have hrest := ih (hkeeps.declare d)
      rwa [List.append_assoc] at hrest

/-- What is kept depends on what was given, and on nothing else. -/
theorem unique {kept' : List NamespaceDecl} (hkeeps : KeepsFirsts given kept)
    (hkeeps' : KeepsFirsts given kept') : kept = kept' := by
  refine eq_of_earlier (fun d time time' hgiven hgiven' => (hgiven.unique hgiven' rfl).2)
    hkeeps.order hkeeps'.order fun d => ?_
  rw [hkeeps.firsts, hkeeps'.firsts]

end KeepsFirsts

end Xml

end Epub
