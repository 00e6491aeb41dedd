/-
Outcomes of computations: when a sequence of steps succeeds, and with what, and what has been
noted then.
-/
import Epub.Proofs.Except
import Epub.Trace

namespace Epub

namespace Traced

variable {α β γ : Type}

@[simp] theorem outcome_pure (a : α) : (pure a : Traced α).outcome = .ok a := rfl

@[simp] theorem outcome_lift (outcome : Except Error α) :
    (lift outcome).outcome = outcome := rfl

@[simp] theorem outcome_fail (error : Error) :
    (fail error : Traced α).outcome = .error error := rfl

@[simp] theorem outcome_note (event : Event) : (note event).outcome = .ok () := rfl

@[simp] theorem outcome_noteAll (events : List Event) :
    (noteAll events).outcome = .ok () := rfl

/-- What was noted does not matter to what follows. -/
@[simp] theorem outcome_bind (first : Traced α) (next : α → Traced β) :
    (first >>= next).outcome = (first.outcome >>= fun a => (next a).outcome) := by
  obtain ⟨log, outcome⟩ := first
  cases outcome <;> rfl

@[simp] theorem outcome_map (f : α → β) (first : Traced α) :
    (f <$> first).outcome = first.outcome.map f := by
  obtain ⟨log, outcome⟩ := first
  cases outcome <;> rfl

theorem outcome_mapM (f : α → Traced β) (as : List α) :
    (as.mapM f).outcome = as.mapM fun a => (f a).outcome := by
  induction as with
  | nil => rfl
  | cons a rest ih =>
      rw [List.mapM_cons, List.mapM_cons, outcome_bind]
      simp only [outcome_bind, ih]
      rfl

theorem outcome_mapM_eq_ok_iff {f : α → Traced β} {as : List α} {bs : List β} :
    (as.mapM f).outcome = .ok bs ↔
      List.Forall₂ (fun a b => (f a).outcome = .ok b) as bs := by
  rw [outcome_mapM, mapM_eq_ok_iff]

theorem outcome_mapM_congr {f g : α → Traced β} {as : List α}
    (hsame : ∀ a ∈ as, (f a).outcome = (g a).outcome) :
    (as.mapM f).outcome = (as.mapM g).outcome := by
  rw [outcome_mapM, outcome_mapM]
  exact mapM_congr hsame

@[simp] theorem log_pure (a : α) : (pure a : Traced α).log = [] := rfl

@[simp] theorem log_lift (outcome : Except Error α) : (lift outcome).log = [] := rfl

@[simp] theorem log_note (event : Event) : (note event).log = [event] := rfl

@[simp] theorem log_noteAll (events : List Event) : (noteAll events).log = events := rfl

/-- What follows a success is noted after it. -/
theorem log_bind_of_ok {first : Traced α} {next : α → Traced β} {a : α}
    (hfirst : first.outcome = .ok a) : (first >>= next).log = first.log ++ (next a).log := by
  obtain ⟨log, outcome⟩ := first
  cases hfirst
  rfl

@[simp] theorem log_map (f : α → β) (first : Traced α) : (f <$> first).log = first.log := by
  obtain ⟨log, outcome⟩ := first
  cases outcome with
  | error error => rfl
  | ok a => exact List.append_nil log

/-- Where all steps succeed, what each of them notes is noted in turn. -/
theorem log_mapM_of_ok {f : α → Traced β} {as : List α} {bs : List β}
    (hsteps : (as.mapM f).outcome = .ok bs) :
    (as.mapM f).log = as.flatMap fun a => (f a).log := by
  induction as generalizing bs with
  | nil => rfl
  | cons a rest ih =>
      rw [List.mapM_cons] at hsteps ⊢
      simp only [outcome_bind, outcome_pure, bind_eq_ok] at hsteps
      obtain ⟨b, hb, others, hothers, _⟩ := hsteps
      rw [log_bind_of_ok hb, log_bind_of_ok hothers, ih hothers, List.flatMap_cons, log_pure,
        List.append_nil]

theorem mapM_attach_val (as : List α) (f : α → Traced β) :
    (as.attach.mapM fun a => f a.1) = as.mapM f := by
  change as.attach.mapM (f ∘ Subtype.val) = as.mapM f
  rw [← List.mapM_map, List.attach_map_subtype_val]

end Traced

end Epub
