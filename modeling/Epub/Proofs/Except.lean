/-
Computations that may fail: when a step, or a sequence of steps, succeeds, and which
of the steps is to blame when it does not.
-/
import Mathlib.Data.List.Forall2

namespace Epub

variable {ε α β : Type}

theorem ok_bind (a : α) (next : α → Except ε β) : (Except.ok a >>= next) = next a := rfl

theorem bind_eq_ok {first : Except ε α} {next : α → Except ε β} {b : β} :
    (first >>= next) = .ok b ↔ ∃ a, first = .ok a ∧ next a = .ok b := by
  cases first with
  | error fault => simp [bind, Except.bind]
  | ok a => simp [ok_bind]

theorem mapError_eq_ok {ε' : Type} {first : Except ε α} {f : ε → ε'} {a : α} :
    first.mapError f = .ok a ↔ first = .ok a := by
  cases first <;> simp [Except.mapError]

theorem map_eq_ok {first : Except ε α} {f : α → β} {b : β} :
    first.map f = .ok b ↔ ∃ a, first = .ok a ∧ f a = b := by
  cases first <;> simp [Except.map]

theorem map_injective {f : α → β} (hf : f.Injective) :
    (Except.map f : Except ε α → Except ε β).Injective := by
  intro first second hsame
  cases first with
  | error fault => cases second <;> simp_all [Except.map]
  | ok a =>
      cases second with
      | error fault => simp [Except.map] at hsame
      | ok b => rw [hf (Except.ok.inj hsame)]

theorem map_map {γ : Type} (first : Except ε α) (f : α → β) (g : β → γ) :
    (first.map f).map g = first.map fun a => g (f a) := by
  cases first <;> rfl

theorem bind_eq_error {first : Except ε α} {next : α → Except ε β} {fault : ε} :
    (first >>= next) = .error fault ↔
      first = .error fault ∨ ∃ a, first = .ok a ∧ next a = .error fault := by
  cases first with
  | error other => simp [bind, Except.bind]
  | ok a => simp [ok_bind]

theorem map_eq_error {first : Except ε α} {f : α → β} {fault : ε} :
    first.map f = .error fault ↔ first = .error fault := by
  cases first <;> simp [Except.map]

theorem mapError_eq_error {ε' : Type} {first : Except ε α} {f : ε → ε'} {fault : ε'} :
    first.mapError f = .error fault ↔ ∃ cause, first = .error cause ∧ f cause = fault := by
  cases first <;> simp [Except.mapError]

theorem toOption_eq_some {first : Except ε α} {a : α} :
    first.toOption = some a ↔ first = .ok a := by
  cases first <;> simp [Except.toOption]

/-- A result that can be looked at is there. -/
theorem exists_ok_of_any {first : Except ε α} {p : α → Bool}
    (hany : first.toOption.any p = true) : ∃ a, first = .ok a ∧ p a = true := by
  cases first with
  | error fault => contradiction
  | ok a => exact ⟨a, rfl, hany⟩

/-- Steps taken one by one succeed when each of them does. -/
theorem mapM_eq_ok_iff {f : α → Except ε β} {as : List α} {bs : List β} :
    as.mapM f = .ok bs ↔ List.Forall₂ (fun a b => f a = .ok b) as bs := by
  induction as generalizing bs with
  | nil =>
      rw [List.mapM_nil, List.forall₂_nil_left_iff]
      exact ⟨fun heq => (Except.ok.inj heq).symm, fun heq => heq ▸ rfl⟩
  | cons a rest ih =>
      rw [List.mapM_cons, bind_eq_ok, List.forall₂_cons_left_iff]
      constructor
      · rintro ⟨b, hb, hrest⟩
        obtain ⟨others, hothers, heq⟩ := bind_eq_ok.mp hrest
        exact ⟨b, others, hb, ih.mp hothers, (Except.ok.inj heq).symm⟩
      · rintro ⟨b, others, hb, hothers, rfl⟩
        exact ⟨b, hb, bind_eq_ok.mpr ⟨others, ih.mpr hothers, rfl⟩⟩

theorem mapM_congr {f g : α → Except ε β} {as : List α} (hsame : ∀ a ∈ as, f a = g a) :
    as.mapM f = as.mapM g := by
  induction as with
  | nil => rfl
  | cons a rest ih =>
      rw [List.mapM_cons, List.mapM_cons, hsame a List.mem_cons_self,
        ih fun other hother => hsame other (List.mem_cons_of_mem a hother)]

/-- Where steps taken one by one fail, one of them does. -/
theorem exists_of_mapM_eq_error {f : α → Except ε β} {as : List α} {fault : ε}
    (hfail : as.mapM f = .error fault) : ∃ a ∈ as, f a = .error fault := by
  induction as with
  | nil => contradiction
  | cons a rest ih =>
      rw [List.mapM_cons, bind_eq_error] at hfail
      rcases hfail with hfirst | ⟨_, _, hrest⟩
      · exact ⟨a, List.mem_cons_self, hfirst⟩
      · rcases bind_eq_error.mp hrest with hrest | ⟨_, _, hpure⟩
        · obtain ⟨other, hother, hfail⟩ := ih hrest
          exact ⟨other, List.mem_cons_of_mem a hother, hfail⟩
        · contradiction

/-- Steps taken one by one fail with the first of them that fails. -/
theorem mapM_eq_error_of_first {f : α → Except ε β} {as : List α} {index : Nat} {a : α}
    {fault : ε} (ha : as[index]? = some a)
    (hbefore : ∀ other b, other < index → as[other]? = some b → ∃ c, f b = .ok c)
    (hfail : f a = .error fault) : as.mapM f = .error fault := by
  induction as generalizing index with
  | nil => contradiction
  | cons first rest ih =>
      rw [List.mapM_cons]
      cases index with
      | zero =>
          obtain rfl : first = a := Option.some.inj ha
          rw [hfail]
          rfl
      | succ index =>
          obtain ⟨c, hc⟩ := hbefore 0 first (Nat.zero_lt_succ index) rfl
          have hrest := ih ha fun other b hlt hb =>
            hbefore (other + 1) b (Nat.succ_lt_succ hlt) hb
          rw [hc, ok_bind, hrest]
          rfl

/-- Where steps taken one by one fail, it is with the error of the first that fails. -/
theorem mapM_eq_error_iff {f : α → Except ε β} {as : List α} {fault : ε} :
    as.mapM f = .error fault ↔
      ∃ (index : Nat) (a : α), as[index]? = some a ∧ f a = .error fault ∧
        ∀ earlier < index, ∀ b, as[earlier]? = some b → ∃ c, f b = .ok c := by
  constructor
  · intro hfail
    induction as with
    | nil => contradiction
    | cons first rest ih =>
        rw [List.mapM_cons, bind_eq_error] at hfail
        rcases hfail with hfirst | ⟨c, hc, hrest⟩
        · exact ⟨0, first, rfl, hfirst, fun earlier hlt => absurd hlt (Nat.not_lt_zero _)⟩
        · rcases bind_eq_error.mp hrest with hrest | ⟨_, _, hpure⟩
          · obtain ⟨index, a, ha, hfail, hbefore⟩ := ih hrest
            refine ⟨index + 1, a, ha, hfail, fun earlier hlt b hb => ?_⟩
            cases earlier with
            | zero => exact ⟨c, Option.some.inj hb ▸ hc⟩
            | succ earlier => exact hbefore earlier (Nat.lt_of_succ_lt_succ hlt) b hb
          · contradiction
  · rintro ⟨index, a, ha, hfail, hbefore⟩
    exact mapM_eq_error_of_first ha (fun earlier b hlt => hbefore earlier hlt b) hfail

/-- Whether of two computations the second comes out as the first: they end with related
results or with the same error, unless the first ends with an error that is excused. -/
inductive Agree (R : α → β → Prop) (excused : ε → Prop) : Except ε α → Except ε β → Prop where
  | ok {a : α} {b : β} (hrelated : R a b) : Agree R excused (.ok a) (.ok b)
  | error (fault : ε) : Agree R excused (.error fault) (.error fault)
  | excused {fault : ε} (hexcused : excused fault) (second : Except ε β) :
      Agree R excused (.error fault) second

namespace Agree

variable {γ δ : Type} {R : α → β → Prop} {S : γ → δ → Prop} {excused : ε → Prop}
  {first : Except ε α} {second : Except ε β}

theorem refl {R : α → α → Prop} (hrefl : ∀ a, R a a) (first : Except ε α) :
    Agree R excused first first := by
  cases first with
  | error fault => exact .error fault
  | ok a => exact .ok (hrefl a)

theorem mono {S : α → β → Prop} (hfirst : Agree R excused first second)
    (himp : ∀ a b, R a b → S a b) : Agree S excused first second := by
  cases hfirst with
  | ok hrelated => exact .ok (himp _ _ hrelated)
  | error fault => exact .error fault
  | excused hexcused second => exact .excused hexcused second

/-- Computations that come out as equal are equal. -/
theorem eq {first second : Except ε α} (hsame : Agree Eq (fun _ => False) first second) :
    second = first := by
  cases hsame with
  | ok heq => rw [heq]
  | error fault => rfl
  | excused hexcused _ => exact hexcused.elim

theorem bind {next : α → Except ε γ} {next' : β → Except ε δ}
    (hfirst : Agree R excused first second)
    (hnext : ∀ a b, R a b → Agree S excused (next a) (next' b)) :
    Agree S excused (first >>= next) (second >>= next') := by
  cases hfirst with
  | ok hrelated => exact hnext _ _ hrelated
  | error fault => exact .error fault
  | excused hexcused second => exact .excused hexcused _

theorem map {f : α → γ} {g : β → δ} (hfirst : Agree R excused first second)
    (hmap : ∀ a b, R a b → S (f a) (g b)) : Agree S excused (first.map f) (second.map g) := by
  cases hfirst with
  | ok hrelated => exact .ok (hmap _ _ hrelated)
  | error fault => exact .error fault
  | excused hexcused second => exact .excused hexcused _

theorem of_map {f : α → γ} {g : β → δ} (hmap : Agree S excused (first.map f) (second.map g))
    (hof : ∀ a b, S (f a) (g b) → R a b) : Agree R excused first second := by
  cases first with
  | error fault =>
      cases second with
      | error other =>
          cases hmap with
          | error _ => exact .error fault
          | excused hexcused _ => exact .excused hexcused _
      | ok b =>
          cases hmap with
          | excused hexcused _ => exact .excused hexcused _
  | ok a =>
      cases second with
      | error other => cases hmap
      | ok b =>
          cases hmap with
          | ok hrelated => exact .ok (hof a b hrelated)

/-- Steps taken one by one agree when each of them does. -/
theorem mapM {f : α → Except ε γ} {g : β → Except ε δ} {as : List α} {bs : List β}
    (hsteps : List.Forall₂ (fun a b => Agree S excused (f a) (g b)) as bs) :
    Agree (List.Forall₂ S) excused (as.mapM f) (bs.mapM g) := by
  induction hsteps with
  | nil => exact .ok .nil
  | cons hstep _ ih =>
      rw [List.mapM_cons, List.mapM_cons]
      refine hstep.bind fun c d hrelated => ih.bind fun cs ds hrest => ?_
      exact .ok (.cons hrelated hrest)

end Agree

end Epub
