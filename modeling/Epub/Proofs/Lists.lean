/-
Lists related element by element, lists of which one element alone counts, lists split at an
element, and where the elements that a filter keeps come to stand.
-/
import Mathlib.Data.List.Forall2
import Mathlib.Data.List.Induction

namespace Epub

variable {α β : Type} {R : α → β → Prop}

theorem exists_of_forall₂ {as : List α} {bs : List β} (hall : List.Forall₂ R as bs)
    {a : α} (ha : a ∈ as) : ∃ b ∈ bs, R a b := by
  induction hall with
  | nil => simp at ha
  | @cons first other _ rest hfirst _ ih =>
      rcases List.mem_cons.mp ha with rfl | hrest
      · exact ⟨other, List.mem_cons_self, hfirst⟩
      · obtain ⟨b, hb, hR⟩ := ih hrest
        exact ⟨b, List.mem_cons_of_mem other hb, hR⟩

theorem exists_forall₂ {as : List α} (hall : ∀ a ∈ as, ∃ b, R a b) :
    ∃ bs, List.Forall₂ R as bs := by
  induction as with
  | nil => exact ⟨[], .nil⟩
  | cons a rest ih =>
      obtain ⟨b, hb⟩ := hall a List.mem_cons_self
      obtain ⟨bs, hbs⟩ := ih fun other hother => hall other (List.mem_cons_of_mem a hother)
      exact ⟨b :: bs, .cons hb hbs⟩

theorem forall₂_imp_mem {S : α → β → Prop} {as : List α} {bs : List β}
    (hall : List.Forall₂ R as bs) (himp : ∀ a ∈ as, ∀ b, R a b → S a b) :
    List.Forall₂ S as bs := by
  induction hall with
  | nil => exact .nil
  | @cons a b _ _ hab _ ih =>
      exact .cons (himp a List.mem_cons_self b hab)
        (ih fun other hother => himp other (List.mem_cons_of_mem a hother))

/-- Relate the elements of a list by their positions. -/
theorem forall₂_zipIdx {ρ : Type} {f : ρ → α} {g : ρ → β} {S : α × Nat → β → Prop}
    {rows : List ρ}
    (hall : ∀ front row back, rows = front ++ row :: back → S (f row, front.length) (g row)) :
    List.Forall₂ S (rows.map f).zipIdx (rows.map g) := by
  have hrest : ∀ rest front, rows = front ++ rest →
      List.Forall₂ S ((rest.map f).zipIdx front.length) (rest.map g) := by
    intro rest
    induction rest with
    | nil => intro front _; exact .nil
    | cons row rest ih =>
        intro front hsplit
        have htail := ih (front ++ [row]) (by rw [hsplit]; simp)
        rw [List.length_append, List.length_singleton] at htail
        exact .cons (hall front row rest hsplit) htail
  exact hrest rows [] rfl

/-- Positions that are not looked at can be left out. -/
theorem forall₂_of_zipIdx {R : α × Nat → β → Prop} {S : α → β → Prop} {as : List α}
    {start : Nat} {bs : List β} (hall : List.Forall₂ R (as.zipIdx start) bs)
    (himp : ∀ a index b, R (a, index) b → S a b) : List.Forall₂ S as bs := by
  induction as generalizing start bs with
  | nil =>
      cases hall
      exact .nil
  | cons a rest ih =>
      rw [List.zipIdx_cons] at hall
      cases hall with
      | cons hfirst hrest => exact .cons (himp a start _ hfirst) (ih hrest)

/-- What stands at one position is related with the position. -/
theorem rel_of_getElem?_zipIdx {R : α × Nat → β → Prop} {as : List α} {bs : List β}
    (hall : List.Forall₂ R as.zipIdx bs) {index : Nat} {a : α} {b : β}
    (ha : as[index]? = some a) (hb : bs[index]? = some b) : R (a, index) b := by
  have hpair : ((a, index), b) ∈ as.zipIdx.zip bs := by
    apply List.mem_iff_getElem?.mpr
    refine ⟨index, List.getElem?_zip_eq_some.mpr ⟨?_, hb⟩⟩
    rw [List.getElem?_zipIdx, ha]
    simp
  exact List.forall₂_zip hall hpair

/-- Where one element is replaced, the others keep their partners. -/
theorem mem_zip_set {as : List α} {bs : List β} {index : Nat} {b : β} {pair : α × β}
    (hpair : pair ∈ as.zip (bs.set index b)) :
    pair ∈ as.zip bs ∨ as[index]? = some pair.1 ∧ pair.2 = b := by
  obtain ⟨position, hat⟩ := List.mem_iff_getElem?.mp hpair
  obtain ⟨hleft, hright⟩ := List.getElem?_zip_eq_some.mp hat
  rw [List.getElem?_set] at hright
  split at hright
  · rename_i hsame
    split at hright
    · exact Or.inr ⟨hsame ▸ hleft, (Option.some.inj hright).symm⟩
    · contradiction
  · exact Or.inl (List.mem_iff_getElem?.mpr
      ⟨position, List.getElem?_zip_eq_some.mpr ⟨hleft, hright⟩⟩)

theorem forall₂_set {as : List α} {bs : List β} (hall : List.Forall₂ R as bs) {index : Nat}
    {a : α} (ha : as[index]? = some a) {b : β} (hb : R a b) :
    List.Forall₂ R as (bs.set index b) := by
  refine List.forall₂_iff_zip.mpr ⟨by rw [hall.length_eq, List.length_set], fun hpair => ?_⟩
  rcases mem_zip_set hpair with hold | ⟨hsame, rfl⟩
  · exact List.forall₂_zip hall hold
  · obtain rfl := Option.some.inj (ha.symm.trans hsame)
    exact hb

theorem eq_or_rel_of_pairwise {R : α → α → Prop} {as : List α} (hpairwise : as.Pairwise R)
    {a b : α} (ha : a ∈ as) (hb : b ∈ as) : a = b ∨ R a b ∨ R b a := by
  induction hpairwise with
  | nil => exact absurd ha List.not_mem_nil
  | cons hhead _ ih =>
      rcases List.mem_cons.mp ha with rfl | ha'
      · rcases List.mem_cons.mp hb with rfl | hb'
        · exact Or.inl rfl
        · exact Or.inr (Or.inl (hhead b hb'))
      · rcases List.mem_cons.mp hb with rfl | hb'
        · exact Or.inr (Or.inr (hhead a ha'))
        · exact ih ha' hb'

/-- If one element alone contributes, its contribution is all there is. -/
theorem flatMap_of_unique {p : α → Prop} {f : α → List β} {as : List α}
    (hunique : as.Pairwise fun a b => ¬(p a ∧ p b)) {a : α} (ha : a ∈ as) (hp : p a)
    (hnil : ∀ b ∈ as, ¬p b → f b = []) : as.flatMap f = f a := by
  induction hunique with
  | nil => exact absurd ha List.not_mem_nil
  | @cons first rest hfirst _ ih =>
      rw [List.flatMap_cons]
      rcases List.mem_cons.mp ha with rfl | hrest
      · have hothers : rest.flatMap f = [] := by
          rw [List.flatMap_eq_nil_iff]
          intro b hb
          exact hnil b (List.mem_cons_of_mem _ hb) fun hpb => hfirst b hb ⟨hp, hpb⟩
        rw [hothers, List.append_nil]
      · rw [hnil first List.mem_cons_self fun hpb => hfirst a hrest ⟨hpb, hp⟩,
          ih hrest fun b hb => hnil b (List.mem_cons_of_mem _ hb)]
        rfl

/-- The same for elements that contribute at most one thing each. -/
theorem filterMap_of_unique {p : α → Prop} {f : α → Option β} {as : List α}
    (hunique : as.Pairwise fun a b => ¬(p a ∧ p b)) {a : α} (ha : a ∈ as) (hp : p a)
    (hnone : ∀ b ∈ as, ¬p b → f b = none) : as.filterMap f = (f a).toList := by
  rw [List.filterMap_eq_flatMap_toList]
  refine flatMap_of_unique hunique ha hp fun b hb hnot => ?_
  rw [hnone b hb hnot]
  rfl

theorem find?_of_nodup_map [DecidableEq β] {f : α → β} {as : List α}
    (hnodup : (as.map f).Nodup) {a : α} (ha : a ∈ as) :
    as.find? (fun b => decide (f b = f a)) = some a := by
  induction as with
  | nil => exact absurd ha List.not_mem_nil
  | cons first rest ih =>
      rw [List.map_cons, List.nodup_cons] at hnodup
      rcases List.mem_cons.mp ha with rfl | hrest
      · simp
      · have hne : f first ≠ f a := fun heq => hnodup.1 (heq ▸ List.mem_map_of_mem hrest)
        rw [List.find?_cons_of_neg (by simpa using hne), ih hnodup.2 hrest]

/-- Where the elements differ in what `f` says of them, removing one leaves all others. -/
theorem eraseP_of_nodup_map [DecidableEq β] {f : α → β} {as : List α}
    (hnodup : (as.map f).Nodup) (b : β) :
    as.eraseP (fun a => decide (f a = b)) = as.filter (fun a => decide (f a ≠ b)) := by
  induction as with
  | nil => rfl
  | cons first rest ih =>
      rw [List.map_cons, List.nodup_cons] at hnodup
      by_cases hfirst : f first = b
      · rw [List.eraseP_cons_of_pos (by simpa using hfirst),
          List.filter_cons_of_neg (by simpa using hfirst), List.filter_eq_self.mpr]
        intro a ha
        have hne : f a ≠ b := fun heq => hnodup.1 (hfirst ▸ heq ▸ List.mem_map_of_mem ha)
        simpa using hne
      · rw [List.eraseP_cons_of_neg (by simpa using hfirst),
          List.filter_cons_of_pos (by simpa using hfirst), ih hnodup.2]

section Splits

variable {as before before' after after' : List α} {a a' : α}

/-- A list is split at its last element or before it. -/
theorem concat_eq_append_cons_iff : as ++ [a] = before ++ a' :: after ↔
    before = as ∧ a' = a ∧ after = [] ∨
      ∃ middle, as = before ++ a' :: middle ∧ after = middle ++ [a] := by
  constructor
  · intro hsplit
    rcases List.eq_nil_or_concat' after with rfl | ⟨middle, last, rfl⟩
    · obtain ⟨rfl, hlast⟩ := List.append_inj' hsplit rfl
      cases hlast
      exact Or.inl ⟨rfl, rfl, rfl⟩
    · rw [← List.cons_append, ← List.append_assoc] at hsplit
      obtain ⟨hfront, hlast⟩ := List.append_inj' hsplit rfl
      cases hlast
      exact Or.inr ⟨middle, hfront, rfl⟩
  · rintro (⟨rfl, rfl, rfl⟩ | ⟨middle, rfl, rfl⟩)
    · rfl
    · simp

/-- Of two splits of a list, the later one splits what comes after the other. -/
theorem exists_of_split_lt (hsplit : before ++ a :: after = before' ++ a' :: after')
    (hlt : before.length < before'.length) :
    ∃ middle, before' = before ++ a :: middle ∧ after = middle ++ a' :: after' := by
  rcases List.append_eq_append_iff.mp hsplit with ⟨middle, rfl, hmiddle⟩ | ⟨middle, rfl, -⟩
  · rcases List.cons_eq_append_iff.mp hmiddle with ⟨rfl, -⟩ | ⟨middle', rfl, rfl⟩
    · rw [List.append_nil] at hlt
      exact absurd hlt (Nat.lt_irrefl _)
    · exact ⟨middle', rfl, rfl⟩
  · rw [List.length_append] at hlt
    omega

end Splits

section Filtered

variable {p q : α → Bool} {as : List α}

/-- What a filter keeps stands where as many elements have been kept before. -/
theorem zipIdx_filter (p : α → Bool) (as : List α) :
    (as.filter p).zipIdx = (as.zipIdx.filter fun entry => p entry.1).map fun entry =>
      (entry.1, (as.take entry.2).countP p) := by
  induction as using List.reverseRecOn with
  | nil => rfl
  | append_singleton as a ih =>
      have hsame : ((as.zipIdx.filter fun entry => p entry.1).map fun entry =>
          (entry.1, ((as ++ [a]).take entry.2).countP p)) = (as.filter p).zipIdx := by
        rw [ih]
        apply List.map_congr_left
        intro entry hentry
        have hlt := List.snd_lt_of_mem_zipIdx (List.mem_filter.mp hentry).1
        rw [List.take_append_of_le_length (by omega)]
      rw [List.zipIdx_append, List.filter_append, List.filter_append, List.map_append, hsame,
        List.zipIdx_append]
      by_cases ha : p a = true
      · simp [ha, List.countP_eq_length_filter]
      · simp [ha]

theorem getElem?_filter {index : Nat} {a : α} (ha : as[index]? = some a) (hkept : p a = true) :
    (as.filter p)[(as.take index).countP p]? = some a := by
  have hmem : (a, (as.take index).countP p) ∈ (as.filter p).zipIdx := by
    rw [zipIdx_filter]
    exact List.mem_map.mpr ⟨(a, index),
      List.mem_filter.mpr ⟨List.mem_zipIdx_iff_getElem?.mpr ha, hkept⟩, rfl⟩
  exact List.mem_zipIdx_iff_getElem?.mp hmem

theorem findIdx?_filter (hkept : ∀ a ∈ as, q a = true → p a = true) :
    (as.filter p).findIdx? q =
      (as.findIdx? q).map fun index => (as.take index).countP p := by
  induction as with
  | nil => rfl
  | cons a rest ih =>
      have hrest := ih fun other hother => hkept other (List.mem_cons_of_mem a hother)
      by_cases hq : q a = true
      · rw [List.filter_cons_of_pos (hkept a List.mem_cons_self hq), List.findIdx?_cons, hq,
          List.findIdx?_cons, hq]
        rfl
      · rw [List.findIdx?_cons, if_neg hq, Option.map_map]
        by_cases hp : p a = true
        · rw [List.filter_cons_of_pos hp, List.findIdx?_cons, if_neg hq, hrest, Option.map_map]
          congr 1
          funext index
          simp [hp]
        · rw [List.filter_cons_of_neg hp, hrest]
          congr 1
          funext index
          simp [hp]

/-- Of two elements that are kept, the later one has more kept before it. -/
theorem countP_take_lt {i j : Nat} {a : α} (hlt : i < j) (ha : as[i]? = some a)
    (hkept : p a = true) : (as.take i).countP p < (as.take j).countP p := by
  have hnext : (as.take (i + 1)).countP p = (as.take i).countP p + 1 := by
    rw [List.take_add_one, ha, List.countP_append]
    simp [hkept]
  have hsub : (as.take (i + 1)).Sublist (as.take j) := (List.take_prefix_take_left hlt).sublist
  have hle := hsub.countP_le (p := p)
  omega

theorem countP_take_inj {i j : Nat} {a b : α} (ha : as[i]? = some a) (hb : as[j]? = some b)
    (hkept : p a = true) (hkept' : p b = true)
    (hsame : (as.take i).countP p = (as.take j).countP p) : i = j := by
  rcases Nat.lt_trichotomy i j with hlt | heq | hlt
  · exact absurd hsame (Nat.ne_of_lt (countP_take_lt hlt ha hkept))
  · exact heq
  · exact absurd hsame.symm (Nat.ne_of_lt (countP_take_lt hlt hb hkept'))

end Filtered

/-- Lists put together from parts, none of which is longer than its counterpart, are equally
long only if all parts are. -/
theorem length_eq_of_flatMap {f g : α → List β} {as : List α}
    (hle : ∀ a, (f a).length ≤ (g a).length)
    (hlength : (as.flatMap f).length = (as.flatMap g).length) :
    ∀ a ∈ as, (f a).length = (g a).length := by
  have hall : ∀ as : List α, (as.flatMap f).length ≤ (as.flatMap g).length := by
    intro as
    induction as with
    | nil => exact Nat.le_refl _
    | cons a rest ih =>
        rw [List.flatMap_cons, List.flatMap_cons, List.length_append, List.length_append]
        exact Nat.add_le_add (hle a) ih
  induction as with
  | nil => exact fun _ hmem => absurd hmem List.not_mem_nil
  | cons a rest ih =>
      have hfirst := hle a
      have hrest := hall rest
      rw [List.flatMap_cons, List.flatMap_cons, List.length_append, List.length_append] at hlength
      intro other hother
      rcases List.mem_cons.mp hother with rfl | hother
      · omega
      · exact ih (by omega) other hother

end Epub
