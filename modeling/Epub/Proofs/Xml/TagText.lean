/-
Reading one tag back: a tag laid out from a name and spelled attributes ends
where it should, and is cut into that name and these attributes again.
-/
import Epub.Proofs.Xml.Scanning
import Mathlib.Data.List.Forall2

namespace Epub.Xml

open Epub.Text

/-- An attribute as it stands in a tag. -/
def spellingChars (spelling : Spelling) : List Char :=
  ' ' :: spelling.1.toList ++ '=' :: '"' :: (escape spelling.2).toList ++ ['"']

theorem toList_renderAttributes (attributes : List Spelling) :
    (renderAttributes attributes).toList = attributes.flatMap spellingChars := by
  rw [renderAttributes, String.toList_join, List.flatMap_map]
  congr 1
  funext ⟨name, value⟩
  simp [spellingChars, String.toList_append]

theorem quote_not_mem_escape (s : String) : '"' ∉ (escape s).toList := by
  have hchar : ∀ c : Char, '"' ∉ (escapeChar c).toList := by
    intro c
    by_cases hmem : c ∈ escapedChars
    · exact (escapeChar_of_mem c hmem).1
    · rw [escapeChar_of_not_mem hmem, List.mem_singleton]
      rintro rfl
      simp [escapedChars] at hmem
  rw [toList_escape]
  intro hmem
  obtain ⟨c, _, hc⟩ := List.mem_flatMap.mp hmem
  exact hchar c hc

/-- A stretch of a tag that leaves no quotation mark open and does not end the
tag. -/
def IsBalanced (cs : List Char) : Prop :=
  ∀ rest, cutTag none (cs ++ rest) =
    (cutTag none rest).map fun (before, after) => (cs ++ before, after)

namespace IsBalanced

theorem nil : IsBalanced [] := by
  intro rest
  rw [List.nil_append]
  cases cutTag none rest <;> rfl

theorem append {left right : List Char} (hleft : IsBalanced left)
    (hright : IsBalanced right) : IsBalanced (left ++ right) := by
  intro rest
  rw [List.append_assoc, hleft, hright]
  cases cutTag none rest with
  | error fault => rfl
  | ok pair => simp [Except.map]

theorem flatMap {α : Type} {as : List α} {f : α → List Char}
    (hf : ∀ a ∈ as, IsBalanced (f a)) : IsBalanced (as.flatMap f) := by
  induction as with
  | nil => exact nil
  | cons a rest ih =>
      rw [List.flatMap_cons]
      exact (hf a List.mem_cons_self).append
        (ih fun b hb => hf b (List.mem_cons_of_mem a hb))

theorem of_unquoted {cs : List Char}
    (hcs : ∀ c ∈ cs, c ≠ '>' ∧ isQuote c = false) : IsBalanced cs := by
  induction cs with
  | nil => exact nil
  | cons c tail ih =>
      intro rest
      have hc := hcs c List.mem_cons_self
      have htail := ih fun d hd => hcs d (List.mem_cons_of_mem c hd)
      rw [List.cons_append, cutTag]
      simp only [hc.1, ↓reduceIte, hc.2, Bool.false_eq_true, htail rest]
      cases cutTag none rest <;> rfl

theorem of_quoted {value : List Char} (hvalue : '"' ∉ value) :
    IsBalanced ('"' :: value ++ ['"']) := by
  have hinside : ∀ rest, cutTag (some '"') (value ++ '"' :: rest) =
      (cutTag none rest).map fun (before, after) => (value ++ '"' :: before, after) := by
    intro rest
    induction value with
    | nil =>
        simp only [List.nil_append, cutTag, ↓reduceIte]
    | cons c tail ih =>
        have hc : c ≠ '"' := by
          rintro rfl
          exact hvalue List.mem_cons_self
        rw [List.cons_append, cutTag]
        simp only [hc, ↓reduceIte]
        rw [ih fun hmem => hvalue (List.mem_cons_of_mem c hmem)]
        cases cutTag none rest <;> rfl
  intro rest
  simp only [List.cons_append, List.append_assoc, List.nil_append, cutTag]
  simp only [show ('"' : Char) ≠ '>' by decide, show isQuote '"' = true by decide,
    ↓reduceIte, hinside]
  cases cutTag none rest <;> rfl

theorem of_isPlain {cs : List Char} (hcs : IsPlain cs) : IsBalanced cs := by
  apply of_unquoted
  intro c hc
  have hmark := hcs.2 c hc
  simp only [markupChars, List.mem_cons, not_or] at hmark
  simp [isQuote, hmark]

theorem spelling {spelling : Spelling} (hname : IsPlain spelling.1.toList) :
    IsBalanced (spellingChars spelling) := by
  have hspace : IsBalanced [' '] := of_unquoted (by decide)
  have hequals : IsBalanced ['='] := of_unquoted (by decide)
  have hquoted := of_quoted (quote_not_mem_escape spelling.2)
  have hall := ((hspace.append (of_isPlain hname)).append hequals).append hquoted
  simpa [spellingChars] using hall

/-- Such a stretch is everything up to the end of its tag. -/
theorem cutTag_eq {cs : List Char} (hcs : IsBalanced cs) (rest : List Char) :
    cutTag none (cs ++ '>' :: rest) = .ok (cs, rest) := by
  rw [hcs]
  simp [cutTag, Except.map]

end IsBalanced

/-- Whether an attribute as written stands for a spelled one. -/
def RawAttribute.Spells (raw : RawAttribute) (spelling : Spelling) : Prop :=
  raw.key = spelling.1.toList ∧ raw.value = .ok (escape spelling.2).toList

theorem rawAttributesFrom_nil (position : Nat) :
    rawAttributesFrom position [] = ([], none) := by
  rw [rawAttributesFrom]
  rfl

theorem cutValue_quoted (position : Nat) {value : List Char} (rest : List Char)
    (hvalue : '"' ∉ value) :
    ∃ next, cutValue position ('"' :: value ++ '"' :: rest) = .ok (value, next, rest) := by
  have htake : (value ++ '"' :: rest).takeWhile (· ≠ '"') = value := by
    rw [List.takeWhile_append_of_pos (by
      intro c hc
      simp only [decide_eq_true_eq]
      rintro rfl
      exact hvalue hc)]
    simp
  have hspace : ('"' :: (value ++ '"' :: rest)).dropWhile isSpace =
      '"' :: (value ++ '"' :: rest) := List.dropWhile_cons_of_neg (by decide)
  simp only [cutValue, List.cons_append, hspace, htake, List.drop_left, true_or,
    ↓reduceIte]
  exact ⟨_, rfl⟩

/-- An attribute whose key and value are whole is cut off, and the others are
read behind it. -/
theorem rawAttributesFrom_of_cut (position : Nat) {cs rest behind after chars : List Char}
    {c : Char} (hspace : cs.dropWhile isSpace = c :: rest)
    (hequal : (rest.dropWhile isKeyChar).dropWhile isSpace = '=' :: behind)
    (hvalue : ∀ start, ∃ next, cutValue start behind = .ok (chars, next, after)) :
    ∃ start next, rawAttributesFrom position cs =
      (⟨c :: rest.takeWhile isKeyChar, start, .ok chars⟩ :: (rawAttributesFrom next after).1,
        (rawAttributesFrom next after).2) := by
  rw [rawAttributesFrom]
  split
  · rename_i hnil
    rw [hspace] at hnil
    contradiction
  · rename_i c' rest' hcons
    rw [hspace, List.cons.injEq] at hcons
    obtain ⟨rfl, rfl⟩ := hcons
    dsimp only
    split
    · rename_i behind' hbehind
      rw [hequal, List.cons.injEq] at hbehind
      obtain ⟨_, rfl⟩ := hbehind
      split
      · rename_i fault hfault
        obtain ⟨next, hnext⟩ := hvalue _
        rw [hnext] at hfault
        contradiction
      · rename_i chars' next' after' hok
        obtain ⟨next, hnext⟩ := hvalue _
        rw [hnext] at hok
        cases hok
        exact ⟨_, _, rfl⟩
    · rename_i hnot
      exact absurd hequal (hnot behind)

theorem not_isSpace_of_not_mem {c : Char} (hc : c ∉ markupChars) : isSpace c = false := by
  simp only [markupChars, List.mem_cons, not_or] at hc
  simp [isSpace, hc]

theorem isKeyChar_of_not_mem {c : Char} (hc : c ∉ markupChars) : isKeyChar c = true := by
  have hspace := not_isSpace_of_not_mem hc
  simp only [markupChars, List.mem_cons, not_or] at hc
  simp [isKeyChar, hspace, hc]

theorem rawAttributesFrom_cons (position : Nat) {spelling : Spelling}
    (rest : List Char) (hname : IsPlain spelling.1.toList) :
    ∃ raw next, raw.Spells spelling ∧
      rawAttributesFrom position (spellingChars spelling ++ rest) =
        (raw :: (rawAttributesFrom next rest).1, (rawAttributesFrom next rest).2) := by
  obtain ⟨name, value⟩ := spelling
  obtain ⟨hne, hplain⟩ := hname
  simp only at hne hplain
  cases hchars : name.toList with
  | nil => exact absurd hchars hne
  | cons c key =>
      rw [hchars] at hplain
      obtain ⟨behind, hbehind⟩ : ∃ behind, behind =
        '"' :: (escape value).toList ++ '"' :: rest := ⟨_, rfl⟩
      have hspelled : spellingChars (name, value) ++ rest =
          ' ' :: c :: (key ++ '=' :: behind) := by
        simp [spellingChars, hchars, hbehind]
      have hspace : (spellingChars (name, value) ++ rest).dropWhile isSpace =
          c :: (key ++ '=' :: behind) := by
        rw [hspelled, List.dropWhile_cons_of_pos (by decide),
          List.dropWhile_cons_of_neg (by
            simp [not_isSpace_of_not_mem (hplain c List.mem_cons_self)])]
      have hkey : ∀ d ∈ key, isKeyChar d = true := fun d hd =>
        isKeyChar_of_not_mem (hplain d (List.mem_cons_of_mem c hd))
      have htake : (key ++ '=' :: behind).takeWhile isKeyChar = key := by
        rw [List.takeWhile_append_of_pos hkey]
        simp [isKeyChar]
      have hequal : ((key ++ '=' :: behind).dropWhile isKeyChar).dropWhile isSpace =
          '=' :: behind := by
        rw [List.dropWhile_append_of_pos hkey]
        simp [isKeyChar, isSpace]
      obtain ⟨start, next, hfrom⟩ := rawAttributesFrom_of_cut position hspace hequal
        fun start => hbehind ▸ cutValue_quoted start rest (quote_not_mem_escape value)
      rw [htake] at hfrom
      exact ⟨_, next, ⟨hchars.symm, rfl⟩, hfrom⟩

/-- The attributes of a tag are those that were spelled, in order. -/
theorem rawAttributesFrom_flatMap (position : Nat) {attributes : List Spelling}
    (hnames : ∀ spelling ∈ attributes, IsPlain spelling.1.toList) :
    ∃ raws, rawAttributesFrom position (attributes.flatMap spellingChars) = (raws, none) ∧
      List.Forall₂ RawAttribute.Spells raws attributes := by
  induction attributes generalizing position with
  | nil => exact ⟨[], rawAttributesFrom_nil position, .nil⟩
  | cons spelling rest ih =>
      obtain ⟨raw, next, hraw, hcons⟩ := rawAttributesFrom_cons position
        (rest.flatMap spellingChars) (hnames spelling List.mem_cons_self)
      obtain ⟨raws, hraws, hspells⟩ :=
        ih next fun other hother => hnames other (List.mem_cons_of_mem spelling hother)
      refine ⟨raw :: raws, ?_, .cons hraw hspells⟩
      rw [List.flatMap_cons, hcons, hraws]

theorem tagName_append {name : List Char} (attributes : List Spelling)
    (hname : IsPlain name) :
    tagName (name ++ attributes.flatMap spellingChars) = name := by
  have hplain : ∀ c ∈ name, (!isSpace c) = true := fun c hc => by
    simp [not_isSpace_of_not_mem (hname.2 c hc)]
  rw [tagName, List.takeWhile_append_of_pos hplain]
  cases attributes with
  | nil => simp
  | cons spelling rest => simp [spellingChars, isSpace]

/-- The attributes in the content of a tag. -/
theorem rawAttributes_append {name : List Char} {attributes : List Spelling}
    (hname : IsPlain name)
    (hnames : ∀ spelling ∈ attributes, IsPlain spelling.1.toList) :
    ∃ raws, rawAttributes (name ++ attributes.flatMap spellingChars) = (raws, none) ∧
      List.Forall₂ RawAttribute.Spells raws attributes := by
  rw [rawAttributes]
  simp only [tagName_append attributes hname, List.drop_left]
  exact rawAttributesFrom_flatMap _ hnames

end Epub.Xml
