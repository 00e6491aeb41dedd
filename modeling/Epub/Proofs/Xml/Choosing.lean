/-
Choosing prefixes for attributes.  Step by step the choice looks for a prefix that is bound,
then for the usual one, and then tries one number after another.  It always comes to an end,
since fewer numbers are taken than there are declarations; the prefix stands for the namespace
then, and every other prefix for what it stood for.
-/
import Epub.Proofs.Lists
import Epub.Proofs.Xml.Spelling

namespace Epub.Xml

namespace Frames

variable {frames : Frames} {label uri : String} {start number : Nat}

/-- Whether a prefix is bound to a URI: some frame declares it so, and no frame further inside
declares it. -/
def Binds (frames : Frames) (label uri : String) : Prop :=
  ∃ inner frame outer, frames = inner ++ frame :: outer ∧ ⟨label, uri⟩ ∈ frame ∧
    ∀ d ∈ inner.flatten, d.label ≠ label

/-- Whether each frame declares a prefix at most once. -/
def HasDistinctLabels (frames : Frames) : Prop :=
  ∀ frame ∈ frames, (frame.map NamespaceDecl.label).Nodup

instance (frames : Frames) : Decidable frames.HasDistinctLabels :=
  inferInstanceAs (Decidable (∀ frame ∈ frames, (frame.map NamespaceDecl.label).Nodup))

theorem binds_cons_iff {inner : Frame} {outer : Frames} :
    Binds (inner :: outer) label uri ↔
      ⟨label, uri⟩ ∈ inner ∨ (∀ d ∈ inner, d.label ≠ label) ∧ outer.Binds label uri := by
  constructor
  · rintro ⟨front, frame, back, hsplit, hmem, hfront⟩
    cases front with
    | nil =>
        obtain ⟨rfl, rfl⟩ := List.cons.inj hsplit
        exact Or.inl hmem
    | cons first front =>
        obtain ⟨rfl, rfl⟩ := List.cons.inj hsplit
        rw [List.flatten_cons, List.forall_mem_append] at hfront
        exact Or.inr ⟨hfront.1, front, frame, back, rfl, hmem, hfront.2⟩
  · rintro (hmem | ⟨hinner, front, frame, back, rfl, hmem, hfront⟩)
    · exact ⟨[], inner, outer, rfl, hmem, by simp⟩
    · refine ⟨inner :: front, frame, back, rfl, hmem, ?_⟩
      rw [List.flatten_cons, List.forall_mem_append]
      exact ⟨hinner, hfront⟩

/-- What is looked up is the binding in force. -/
theorem lookup?_eq_some_iff (hdistinct : frames.HasDistinctLabels) :
    frames.lookup? label = some uri ↔ frames.Binds label uri := by
  induction frames with
  | nil =>
      refine iff_of_false (by simp [lookup?]) ?_
      rintro ⟨front, frame, back, hsplit, -⟩
      simp at hsplit
  | cons inner outer ih =>
      obtain ⟨hinner, houter⟩ := List.forall_mem_cons.mp hdistinct
      rw [lookup?_cons, binds_cons_iff, ← ih houter]
      -- The inner frame decides, with its only declaration of the prefix, if it has one.
      cases hfind : inner.find? (·.label = label) with
      | none =>
          have hnot : ∀ d ∈ inner, d.label ≠ label := by
            intro d hd
            simpa using List.find?_eq_none.mp hfind d hd
          have hout : ⟨label, uri⟩ ∉ inner := fun hmem => hnot _ hmem rfl
          rw [Option.map_none, Option.none_or, or_iff_right hout, and_iff_right hnot]
      | some d =>
          have hmem := List.mem_of_find?_eq_some hfind
          have hlabel : d.label = label := by simpa using List.find?_some hfind
          have hnot : ¬∀ d ∈ inner, d.label ≠ label := fun hall => hall d hmem hlabel
          simp only [Option.map_some, Option.some_or, Option.some.injEq, hnot, false_and, or_false]
          constructor
          · rintro rfl
            rw [← hlabel]
            exact hmem
          · intro hdecl
            have hsame := find?_of_nodup_map hinner hdecl
            rw [hfind] at hsame
            rw [Option.some.inj hsame]

/-- A prefix that is in force is found, whatever frame binds it. -/
theorem boundLabel?_ne_none_iff (hdistinct : frames.HasDistinctLabels) :
    frames.boundLabel? uri ≠ none ↔ ∃ bound, bound ≠ "" ∧ frames.Binds bound uri := by
  constructor
  · intro hbound
    obtain ⟨label, hlabel⟩ := Option.ne_none_iff_exists'.mp hbound
    obtain ⟨hne, hlookup⟩ := boundLabel?_eq_some hlabel
    exact ⟨label, hne, (lookup?_eq_some_iff hdistinct).mp hlookup⟩
  · rintro ⟨bound, hne, hbinds⟩
    exact boundLabel?_ne_none hne ((lookup?_eq_some_iff hdistinct).mpr hbinds)

theorem HasDistinctLabels.declare (hdistinct : frames.HasDistinctLabels) (label uri : String) :
    (frames.declare label uri).HasDistinctLabels := by
  cases frames with
  | nil => exact hdistinct
  | cons inner outer =>
      obtain ⟨hinner, houter⟩ := List.forall_mem_cons.mp hdistinct
      exact List.forall_mem_cons.mpr ⟨Frame.nodup_declare hinner label uri, houter⟩

/-- The search for a free numbered prefix: numbers are tried in turn, from `start` on. -/
inductive Finds (frames : Frames) : Nat → Nat → Prop where
  | free {number : Nat} (hfree : frames.lookup? (numbered number) = none) :
      Finds frames number number
  | taken {start number : Nat} (htaken : frames.lookup? (numbered start) ≠ none)
      (hrest : Finds frames (start + 1) number) : Finds frames start number

/-- The search ends at the first number that is free. -/
theorem finds_iff :
    frames.Finds start number ↔ start ≤ number ∧ frames.lookup? (numbered number) = none ∧
      ∀ tried, start ≤ tried → tried < number → frames.lookup? (numbered tried) ≠ none := by
  constructor
  · intro hfinds
    induction hfinds with
    | free hfree => exact ⟨Nat.le_refl _, hfree, fun tried hle hlt => by omega⟩
    | @taken start number htaken _ ih =>
        obtain ⟨hle, hfree, hbefore⟩ := ih
        refine ⟨by omega, hfree, fun tried hstart hlt => ?_⟩
        rcases Nat.eq_or_lt_of_le hstart with rfl | hlater
        · exact htaken
        · exact hbefore tried hlater hlt
  · rintro ⟨hle, hfree, hbefore⟩
    obtain ⟨steps, rfl⟩ := Nat.exists_eq_add_of_le hle
    -- By induction on how many numbers are still to be tried in vain.
    induction steps generalizing start with
    | zero => exact .free hfree
    | succ steps ih =>
        refine .taken (hbefore start (Nat.le_refl start) (by omega)) ?_
        have hnext : start + (steps + 1) = start + 1 + steps := by omega
        rw [hnext] at hfree hbefore ⊢
        exact ih (Nat.le_add_right _ _) hfree fun tried hlater hlt => hbefore tried (by omega) hlt

/-- The search comes to an end, after as many numbers in vain as there are declarations at
most. -/
theorem finds_freeNumber (frames : Frames) (start : Nat) :
    frames.Finds start (frames.freeNumber start) ∧
      frames.freeNumber start ≤ start + frames.flatten.length := by
  obtain ⟨hfree, hrange, hbefore⟩ :=
    List.find?_range'_eq_some.mp (frames.find?_freeNumber start)
  rw [List.mem_range'_1] at hrange
  refine ⟨finds_iff.mpr ⟨hrange.1, Option.isNone_iff_eq_none.mp hfree, ?_⟩, by omega⟩
  intro tried hle hlt hnone
  have htaken := hbefore tried hle hlt
  simp [hnone] at htaken

theorem Finds.eq_freeNumber (hfinds : frames.Finds start number) :
    number = frames.freeNumber start := by
  obtain ⟨hle, hfree, hbefore⟩ := finds_iff.mp hfinds
  obtain ⟨hle', hfree', hbefore'⟩ := finds_iff.mp (frames.finds_freeNumber start).1
  rcases Nat.lt_trichotomy number (frames.freeNumber start) with hlt | heq | hlt
  · exact absurd hfree (hbefore' number hle hlt)
  · exact heq
  · exact absurd hfree' (hbefore _ hle' hlt)

namespace Choice

variable {choice after : Choice}

/-- How a prefix for an attribute is chosen: a bound one, or else the usual one if it is free,
or else the numbered one that the search ends at. -/
inductive Chooses (choice : Choice) (uri : String) : String → Choice → Prop where
  | bound {label : String} (hbound : choice.frames.boundLabel? uri = some label) :
      Chooses choice uri label choice
  | usual {label : String} (hunbound : choice.frames.boundLabel? uri = none)
      (husual : usualLabel? uri = some label) (hfree : choice.frames.lookup? label = none) :
      Chooses choice uri label ⟨choice.frames.declare label uri, choice.next⟩
  | numbered {number : Nat} (hunbound : choice.frames.boundLabel? uri = none)
      (htaken : ∀ label, usualLabel? uri = some label → choice.frames.lookup? label ≠ none)
      (hfinds : choice.frames.Finds choice.next number) :
      Chooses choice uri (numbered number)
        ⟨choice.frames.declare (numbered number) uri, number + 1⟩

theorem usual_eq_none_iff :
    ((usualLabel? uri).filter fun label => (choice.frames.lookup? label).isNone) = none ↔
      ∀ label, usualLabel? uri = some label → choice.frames.lookup? label ≠ none := by
  cases usualLabel? uri <;> simp [Option.filter]

/-- The choice comes to an end, in one way only. -/
theorem chooses_iff :
    choice.Chooses uri label after ↔ choice.attributeLabel uri = (label, after) := by
  constructor
  · intro hchooses
    cases hchooses with
    | bound hbound => rw [attributeLabel, hbound]
    | usual hunbound husual hfree =>
        have hfilter : (usualLabel? uri).filter
            (fun label => (choice.frames.lookup? label).isNone) = some label := by
          simp [husual, hfree]
        rw [attributeLabel, hunbound]
        simp only [invent, hfilter]
    | numbered hunbound htaken hfinds =>
        have hfilter := usual_eq_none_iff.mpr htaken
        rw [attributeLabel, hunbound, hfinds.eq_freeNumber]
        simp only [invent, hfilter]
  · intro hchosen
    rw [attributeLabel] at hchosen
    cases hbound : choice.frames.boundLabel? uri with
    | some bound =>
        rw [hbound] at hchosen
        cases hchosen
        exact .bound hbound
    | none =>
        simp only [hbound, invent] at hchosen
        split at hchosen
        · rename_i usual husual
          rw [Option.filter_eq_some_iff, Option.isNone_iff_eq_none] at husual
          cases hchosen
          exact .usual hbound husual.1 husual.2
        · rename_i hnone
          cases hchosen
          exact .numbered hbound (usual_eq_none_iff.mp hnone)
            (choice.frames.finds_freeNumber choice.next).1

/-- What a choice has led to: the prefix stands for the namespace, all others for what they
stood for, and nothing has changed where a prefix was bound already. -/
structure Settled (choice : Choice) (uri label : String) (after : Choice) : Prop where
  named : label ≠ ""
  bound : after.frames.lookup? label = some uri
  kept : ∀ other, other ≠ label → after.frames.lookup? other = choice.frames.lookup? other
  reused : after = choice ↔ ∃ bound, bound ≠ "" ∧ choice.frames.Binds bound uri
  tried : choice.next ≤ after.next ∧
    after.next ≤ choice.next + choice.frames.flatten.length + 1
  nonempty : after.frames ≠ []
  distinct : after.frames.HasDistinctLabels

/-- A free prefix is declared. -/
theorem settled_declare (hnonempty : choice.frames ≠ [])
    (hdistinct : choice.frames.HasDistinctLabels)
    (hunbound : choice.frames.boundLabel? uri = none) (hlabel : label ≠ "")
    (hfree : choice.frames.lookup? label = none) {next : Nat}
    (hnext : choice.next ≤ next ∧
      next ≤ choice.next + choice.frames.flatten.length + 1) :
    choice.Settled uri label ⟨choice.frames.declare label uri, next⟩ := by
  obtain ⟨inner, outer, hframes⟩ := List.exists_cons_of_ne_nil hnonempty
  have hlookup : ∀ other, (choice.frames.declare label uri).lookup? other =
      if other = label then some uri else choice.frames.lookup? other := by
    rw [hframes]
    exact lookup?_declare inner outer label uri
  have hbound : (choice.frames.declare label uri).lookup? label = some uri := by
    rw [hlookup, if_pos rfl]
  refine ⟨hlabel, hbound, fun other hne => ?_, ?_, hnext, ?_, hdistinct.declare label uri⟩
  · rw [hlookup, if_neg hne]
  · refine iff_of_false (fun hsame => ?_) ?_
    · have hframes := congrArg Choice.frames hsame
      simp only at hframes
      rw [hframes, hfree] at hbound
      contradiction
    · rw [← boundLabel?_ne_none_iff hdistinct]
      exact fun hnot => hnot hunbound
  · rw [hframes]
    exact List.cons_ne_nil _ _

/-- Whatever is bound, a prefix is chosen for an attribute, and only one: the steps of the
choice come to an end with what is computed, and a bound prefix is found if there is one. -/
theorem chooses_attributeLabel (choice : Choice) (hnonempty : choice.frames ≠ [])
    (hdistinct : choice.frames.HasDistinctLabels) (uri : String) :
    ∃ label after, choice.attributeLabel uri = (label, after) ∧
      (∀ label' after', choice.Chooses uri label' after' ↔ label' = label ∧ after' = after) ∧
      choice.Settled uri label after ∧
      (choice.frames.boundLabel? uri ≠ none ↔
        ∃ bound, bound ≠ "" ∧ choice.frames.Binds bound uri) := by
  obtain ⟨⟨label, after⟩, hchosen⟩ : ∃ chosen, choice.attributeLabel uri = chosen := ⟨_, rfl⟩
  refine ⟨label, after, hchosen, fun label' after' => ?_, ?_,
    boundLabel?_ne_none_iff hdistinct⟩
  · rw [chooses_iff, hchosen, Prod.mk.injEq, eq_comm, @eq_comm _ after]
  · cases chooses_iff.mpr hchosen with
    | bound hbound =>
        obtain ⟨hlabel, hlookup⟩ := boundLabel?_eq_some hbound
        refine ⟨hlabel, hlookup, fun _ _ => rfl, iff_of_true rfl ?_, by omega, hnonempty,
          hdistinct⟩
        exact ⟨label, hlabel, (lookup?_eq_some_iff hdistinct).mp hlookup⟩
    | usual hunbound husual hfree =>
        exact settled_declare hnonempty hdistinct hunbound
          (isLabel_of_usualLabel? husual).1.ne_empty hfree (by omega)
    | numbered hunbound _ hfinds =>
        obtain ⟨hle, hfree, -⟩ := finds_iff.mp hfinds
        have hlimit := (choice.frames.finds_freeNumber choice.next).2
        rw [← hfinds.eq_freeNumber] at hlimit
        exact settled_declare hnonempty hdistinct hunbound (isLabel_numbered _).ne_empty hfree
          (by omega)

/-- A prefix for `urn:x` that an inner frame takes for something else, and the first numbered
prefixes taken. -/
def crowded : Choice :=
  ⟨[[⟨"p", "urn:y"⟩, ⟨"ns0", "urn:z"⟩], [⟨"p", "urn:x"⟩, ⟨"ns1", ""⟩],
    [⟨"xml", xmlNamespace⟩]], 0⟩

theorem chooses_attributeLabel_crowded :
    crowded.frames ≠ [] ∧ crowded.frames.HasDistinctLabels ∧
      crowded.Settled "urn:x" "ns2" ⟨crowded.frames.declare "ns2" "urn:x", 3⟩ ∧
      crowded.Chooses "urn:y" "p" crowded ∧ crowded.Settled "urn:y" "p" crowded := by
  have hnonempty : crowded.frames ≠ [] := by decide
  have hdistinct : crowded.frames.HasDistinctLabels := by decide
  obtain ⟨_, _, hchosen, -, hsettled, -⟩ :=
    chooses_attributeLabel crowded hnonempty hdistinct "urn:x"
  obtain ⟨rfl, rfl⟩ := Prod.mk.inj hchosen
  obtain ⟨_, _, hreused, hchooses, hkept, -⟩ :=
    chooses_attributeLabel crowded hnonempty hdistinct "urn:y"
  obtain ⟨rfl, rfl⟩ := Prod.mk.inj hreused
  exact ⟨hnonempty, hdistinct, hsettled, (hchooses "p" crowded).mpr ⟨rfl, rfl⟩, hkept⟩

end Choice

end Frames

end Epub.Xml
