/-
What references stand for.  A name or a number means the same in text and in an
attribute value, with one difference: text also takes a plus sign in front of the
digits and the number zero, which attribute values refuse.
-/
import Epub.Proofs.Text.Numeral
import Epub.Proofs.Xml.Document

namespace Epub.Xml

open Epub.Text

/-- The predefined names with their characters. -/
def predefinedNames : List (List Char × Char) :=
  [("lt".toList, '<'), ("gt".toList, '>'), ("amp".toList, '&'), ("apos".toList, '\''),
    ("quot".toList, '"')]

/-- The two ways to write a number: decimal behind `#`, hexadecimal behind `#x`. -/
inductive IsNumbered : List Char → Nat → List Char → Prop where
  | decimal (digits : List Char) : IsNumbered ('#' :: digits) 10 digits
  | hexadecimal (digits : List Char) : IsNumbered ('#' :: 'x' :: digits) 16 digits

/-- Whether a reference of this name stands for `c`.  None stands for the character
zero. -/
inductive StandsFor : List Char → Char → Prop where
  | named {name : List Char} {c : Char} (hname : (name, c) ∈ predefinedNames) : StandsFor name c
  | numbered {name digits : List Char} {c : Char} {base : Nat}
      (hform : IsNumbered name base digits) (hdigits : IsNumeral base digits c.toNat)
      (hc : c ≠ '\x00') : StandsFor name c

/-- Whether it is text alone that takes the name for `c`: there is a plus sign in front of
the digits, or the number is zero. -/
inductive IsLax : List Char → Char → Prop where
  | signed {name digits : List Char} {c : Char} {base : Nat}
      (hform : IsNumbered name base ('+' :: digits)) (hdigits : IsNumeral base digits c.toNat) :
      IsLax name c
  | zero {name digits : List Char} {base : Nat} (hform : IsNumbered name base digits)
      (hdigits : IsNumeral base digits 0) : IsLax name '\x00'

section Resolving

variable {name digits number : List Char} {base : Nat} {c : Char}

namespace IsNumbered

theorem base_eq (hform : IsNumbered name base digits) : base = 10 ∨ base = 16 := by
  cases hform with
  | decimal => exact .inl rfl
  | hexadecimal => exact .inr rfl

theorem base_pos (hform : IsNumbered name base digits) : 0 < base := by
  have := hform.base_eq
  omega

theorem base_le (hform : IsNumbered name base digits) : base ≤ 16 := by
  have := hform.base_eq
  omega

theorem of_numericForm (number : List Char) :
    IsNumbered ('#' :: number) (numericForm number).1 (numericForm number).2 := by
  unfold numericForm
  split
  · exact .hexadecimal _
  · exact .decimal number

/-- Which way it is shows, for what is written in decimal starts with no `x`. -/
theorem numericForm_eq (hform : IsNumbered ('#' :: number) base digits)
    (hdigits : digits.head? ≠ some 'x') : numericForm number = (base, digits) := by
  cases hform with
  | hexadecimal => rfl
  | decimal =>
      unfold numericForm
      split
      · exact absurd rfl hdigits
      · rfl

end IsNumbered

/-- A number behind `#` is read in the base and from the digits that its form tells. -/
theorem exists_isNumbered_iff {P : Nat → List Char → Prop}
    (hfirst : ∀ base digits, base ≤ 16 → P base digits → digits.head? ≠ some 'x') :
    (∃ base digits, IsNumbered ('#' :: number) base digits ∧ P base digits) ↔
      P (numericForm number).1 (numericForm number).2 := by
  constructor
  · rintro ⟨base, digits, hform, hholds⟩
    have hhead := hfirst base digits hform.base_le hholds
    rw [hform.numericForm_eq hhead]
    exact hholds
  · exact fun hholds => ⟨_, _, .of_numericForm number, hholds⟩

theorem head?_of_isNumeral {n : Nat} (hbase : base ≤ 16) (hdigits : IsNumeral base digits n) :
    ∀ c ∈ digits.head?, c ≠ 'x' ∧ c ≠ '+' ∧ c ≠ '-' := by
  intro c hc
  have hmem := hdigits.mem_hexadecimal hbase c (List.mem_of_mem_head? hc)
  refine ⟨?_, ?_, ?_⟩
  all_goals
    rintro rfl
    exact absurd hmem (by decide)

theorem predefined?_eq_some : predefined? name = some c ↔ (name, c) ∈ predefinedNames := by
  simp only [predefined?, predefinedNames, List.mem_cons, Prod.mk.injEq, List.not_mem_nil,
    or_false]
  constructor
  · intro hsome
    repeat' split at hsome
    all_goals cases hsome
    all_goals simp [*]
  · rintro (⟨rfl, rfl⟩ | ⟨rfl, rfl⟩ | ⟨rfl, rfl⟩ | ⟨rfl, rfl⟩ | ⟨rfl, rfl⟩) <;> decide

/-- A character has the number that its code is. -/
theorem scalar?_eq_some {code : Nat} : scalar? code = some c ↔ c.toNat = code := by
  rw [scalar?, Option.ite_none_right_eq_some, Option.some.injEq]
  constructor
  · rintro ⟨hvalid, rfl⟩
    rw [Char.ofNat, dif_pos hvalid]
    rfl
  · rintro rfl
    exact ⟨c.valid, Char.ofNat_toNat c⟩

theorem toNat_le_limit32 (c : Char) : c.toNat ≤ limit32 := by
  have hvalid : c.toNat.isValidChar := c.valid
  have hlimit : limit32 = 4294967295 := by decide
  rcases hvalid with hlow | hhigh <;> omega

/-- The names behind which there is no `#`. -/
theorem standsFor_named (hname : ∀ number, name = '#' :: number → False) :
    StandsFor name c ↔ predefined? name = some c := by
  rw [predefined?_eq_some]
  constructor
  · intro hstands
    cases hstands with
    | named hmem => exact hmem
    | numbered hform => cases hform <;> exact (hname _ rfl).elim
  · exact .named

theorem not_isLax_named (hname : ∀ number, name = '#' :: number → False) :
    ¬IsLax name c := by
  intro hlax
  cases hlax with
  | signed hform => cases hform <;> exact hname _ rfl
  | zero hform => cases hform <;> exact hname _ rfl

theorem standsFor_numbered : StandsFor ('#' :: number) c ↔
    IsNumeral (numericForm number).1 (numericForm number).2 c.toNat ∧ c ≠ '\x00' := by
  rw [← exists_isNumbered_iff (P := fun base digits => IsNumeral base digits c.toNat ∧ c ≠ '\x00')
    fun base digits hbase hholds heq => (head?_of_isNumeral hbase hholds.1 'x' heq).1 rfl]
  constructor
  · intro hstands
    cases hstands with
    | named hmem => simp [predefinedNames] at hmem
    | numbered hform hdigits hc => exact ⟨_, _, hform, hdigits, hc⟩
  · rintro ⟨base, digits, hform, hdigits, hc⟩
    exact .numbered hform hdigits hc

theorem isLax_numbered : IsLax ('#' :: number) c ↔
    (∃ digits, (numericForm number).2 = '+' :: digits ∧
        IsNumeral (numericForm number).1 digits c.toNat) ∨
      IsNumeral (numericForm number).1 (numericForm number).2 0 ∧ c = '\x00' := by
  rw [← exists_isNumbered_iff (P := fun base digits => (∃ rest, digits = '+' :: rest ∧
      IsNumeral base rest c.toNat) ∨ IsNumeral base digits 0 ∧ c = '\x00')]
  · constructor
    · intro hlax
      cases hlax with
      | signed hform hdigits => exact ⟨_, _, hform, .inl ⟨_, rfl, hdigits⟩⟩
      | zero hform hdigits => exact ⟨_, _, hform, .inr ⟨hdigits, rfl⟩⟩
    · rintro ⟨base, digits, hform, ⟨rest, rfl, hdigits⟩ | ⟨hdigits, rfl⟩⟩
      · exact .signed hform hdigits
      · exact .zero hform hdigits
  · rintro base digits hbase (⟨rest, rfl, -⟩ | ⟨hdigits, -⟩) heq
    · exact absurd (Option.some.inj heq) (by decide)
    · exact (head?_of_isNumeral hbase hdigits 'x' heq).1 rfl

/-- No name that stands for a character ends a reference or a text. -/
theorem StandsFor.name_ne (hstands : StandsFor name c) :
    ∀ d ∈ name, d ≠ ';' ∧ d ≠ '&' ∧ d ≠ '<' := by
  have hdigits : ∀ {base n digits}, base ≤ 16 → IsNumeral base digits n →
      ∀ d ∈ digits, d ≠ ';' ∧ d ≠ '&' ∧ d ≠ '<' := by
    intro base n digits hbase hnumeral d hd
    have hmem := hnumeral.mem_hexadecimal hbase d hd
    refine ⟨?_, ?_, ?_⟩
    all_goals
      rintro rfl
      exact absurd hmem (by decide)
  cases hstands with
  | named hmem =>
      have hall : ∀ pair ∈ predefinedNames, ∀ d ∈ pair.1, d ≠ ';' ∧ d ≠ '&' ∧ d ≠ '<' := by
        decide
      exact hall _ hmem
  | numbered hform hnumeral hc =>
      have hrest := hdigits hform.base_le hnumeral
      cases hform with
      | decimal => exact List.forall_mem_cons.mpr ⟨by decide, hrest⟩
      | hexadecimal =>
          exact List.forall_mem_cons.mpr ⟨by decide, List.forall_mem_cons.mpr ⟨by decide, hrest⟩⟩

/-- Text takes what the name stands for, and the lax numbers. -/
theorem resolveText?_eq_some :
    resolveText? name = some c ↔ StandsFor name c ∨ IsLax name c := by
  unfold resolveText?
  split
  · rename_i number
    have hform := IsNumbered.of_numericForm number
    have hread : ∀ {code}, readSignedNumeral (numericForm number).1 limit32
        (numericForm number).2 = .ok code ↔ _ :=
      readSignedNumeral_eq_ok hform.base_pos hform.base_le
    rw [standsFor_numbered, isLax_numbered]
    constructor
    · intro hsome
      dsimp only at hsome
      split at hsome
      · rename_i code hcode
        rw [scalar?_eq_some] at hsome
        subst hsome
        rcases (hread.mp hcode).1 with hdigits | hsigned
        · by_cases hc : c = '\x00'
          · subst hc
            exact .inr (.inr ⟨hdigits, rfl⟩)
          · exact .inl ⟨hdigits, hc⟩
        · exact .inr (.inl hsigned)
      · contradiction
    · intro hnumber
      have hcode : readSignedNumeral (numericForm number).1 limit32
          (numericForm number).2 = .ok c.toNat := by
        refine hread.mpr ⟨?_, toNat_le_limit32 c⟩
        rcases hnumber with ⟨hdigits, -⟩ | hsigned | ⟨hdigits, rfl⟩
        · exact .inl hdigits
        · exact .inr hsigned
        · exact .inl hdigits
      dsimp only
      rw [hcode]
      exact scalar?_eq_some.mpr rfl
  · rename_i hname
    rw [standsFor_named hname, or_iff_left (not_isLax_named hname)]

/-- A number in an attribute value has neither a sign nor the value zero. -/
theorem resolveNumber_eq_ok : resolveNumber number = .ok c ↔ StandsFor ('#' :: number) c := by
  have hform := IsNumbered.of_numericForm number
  have hread : ∀ {code}, readNumeral (numericForm number).1 limit32
      (numericForm number).2 = .ok code ↔ _ := readNumeral_eq_ok hform.base_pos hform.base_le
  rw [standsFor_numbered, resolveNumber]
  dsimp only
  constructor
  · intro hok
    split at hok
    · contradiction
    · split at hok
      · contradiction
      · contradiction
      · rename_i code hzero hcode
        split at hok
        · rename_i c' hc
          cases hok
          rw [scalar?_eq_some] at hc
          subst hc
          refine ⟨(hread.mp hcode).1, ?_⟩
          rintro rfl
          exact hzero rfl
        · contradiction
  · rintro ⟨hdigits, hc⟩
    have hhead := head?_of_isNumeral hform.base_le hdigits
    have hscalar : scalar? c.toNat = some c := scalar?_eq_some.mpr rfl
    rw [if_neg]
    · rw [hread.mpr ⟨hdigits, toNat_le_limit32 c⟩]
      split
      · contradiction
      · rename_i hzero
        exact absurd (Char.toNat_inj.mp (Except.ok.inj hzero)) hc
      · rename_i code _ hcode
        rw [← Except.ok.inj hcode, hscalar]
    · rintro (hplus | hminus)
      · exact (hhead '+' hplus).2.1 rfl
      · exact (hhead '-' hminus).2.2 rfl

/-- An attribute value takes what the name stands for and nothing else. -/
theorem resolveValue_eq_ok {start stop : Nat} :
    resolveValue start stop name = .ok c ↔ StandsFor name c := by
  unfold resolveValue
  split
  · exact resolveNumber_eq_ok
  · rename_i hname
    rw [standsFor_named hname]
    cases predefined? name with
    | none => simp
    | some c' => simp

/-- What an attribute value says to the lax numbers. -/
theorem resolveValue_of_isLax (hlax : IsLax name c) (start stop : Nat) :
    ∃ fault, (fault = .signedNumber ∨ fault = .nullCharacter) ∧
      resolveValue start stop name = .error fault := by
  unfold resolveValue
  split
  · rename_i number
    have hform := IsNumbered.of_numericForm number
    rw [resolveNumber]
    dsimp only
    rcases isLax_numbered.mp hlax with ⟨digits, hsigned, -⟩ | ⟨hdigits, -⟩
    · rw [if_pos (.inl (by rw [hsigned]; rfl))]
      exact ⟨_, .inl rfl, rfl⟩
    · have hhead := head?_of_isNumeral hform.base_le hdigits
      rw [if_neg]
      · rw [(readNumeral_eq_ok hform.base_pos hform.base_le).mpr ⟨hdigits, Nat.zero_le _⟩]
        exact ⟨_, .inr rfl, rfl⟩
      · rintro (hplus | hminus)
        · exact (hhead '+' hplus).2.1 rfl
        · exact (hhead '-' hminus).2.2 rfl
  · rename_i hname
    exact absurd hlax (not_isLax_named hname)

end Resolving

section Documents

/-- A document with a reference in its text. -/
def referenceInText (name : String) : ByteArray :=
  ("<a>x&" ++ name ++ ";</a>").toUTF8

/-- A document with a reference in an attribute value. -/
def referenceInValue (name : String) : ByteArray :=
  ("<a b=\"x&" ++ name ++ ";\"/>").toUTF8

/-- The first of the two when the reference stands for `c`. -/
def textOf (c : Char) : Document :=
  ⟨⟨"a", none, [], [], some (String.ofList ['x', c]), []⟩⟩

/-- The second of the two when the reference stands for `c`. -/
def valueOf (c : Char) : Document :=
  ⟨⟨"a", none, [⟨"b", none, String.ofList ['x', c]⟩], [], none, []⟩⟩

/-- The element of both while it is open, without an attribute. -/
def openedBare : OpenElement :=
  ⟨['a'], Element.empty "a" none, [], [], Scope.initial⟩

variable {name : String}

theorem readDocument_referenceInText (hname : ∀ d ∈ name.toList, d ≠ ';' ∧ d ≠ '&' ∧ d ≠ '<') :
    readDocument (referenceInText name) =
      match resolveText? name.toList with
      | some c => .ok (textOf c)
      | none => .error (.malformed (.unknownEntity name)) := by
  have hcontent : IsTagContent ['a'] :=
    ⟨IsBalanced.of_unquoted (by decide), by simp, by simp, by simp⟩
  have hopen : openElement ReadState.initial.scope ['a'] = .ok openedBare := by
    have hraws : rawAttributes ['a'] = ([], none) := rawAttributesFrom_nil _
    rw [openElement, hraws]
    rfl
  have hchars : ("<a>x&" ++ name ++ ";</a>").toList =
      '<' :: ['a'] ++ '>' :: 'x' :: ('&' :: name.toList ++ ';' :: endTagChars "a") := by
    simp [String.toList_append, endTagChars]
  rw [referenceInText, readDocument_of_less hchars, hchars,
    readFrom_startTag hcontent hopen, readFrom_textChar _ _ (by decide)]
  cases hresolve : resolveText? name.toList with
  | some c =>
      have hx : isBlank 'x' = false := by decide
      have hclose : ({ openedBare with text := ['x', c] } : OpenElement).close =
          (textOf c).root := by
        have htext : ({ openedBare with text := ['x', c] } : OpenElement).text =
            (String.ofList ['x', c]).toList := by simp
        rw [close_of_text htext (by simp [isBlankText, hx])]
        rfl
      have hattach : ReadState.attach ⟨[], none⟩
          ({ openedBare with text := ['x', c] } : OpenElement).close =
            .ok ⟨[], some (textOf c).root⟩ := by
        rw [hclose]
        rfl
      have hplain : IsPlain "a".toList := by decide
      have hend := readFrom_endTag hplain rfl hattach []
      rw [List.append_nil, readFrom_nil] at hend
      rw [readFrom_reference _ _ hname hresolve]
      exact hend
  | none =>
      rw [List.cons_append, readFrom_error (cutToken_reference hname _)]
      simp [ReadState.step, ReadState.addText, hresolve]

/-- A tag with one attribute opens an element with its value, if that can be resolved. -/
theorem openElement_of_value {value : List Char} (hvalue : '"' ∉ value) :
    openElement Scope.initial (['a', ' ', 'b', '='] ++ '"' :: value ++ ['"']) =
      match unescape value with
      | .ok s => .ok { openedBare with element := openedBare.element.setAttribute ⟨"b", none⟩ s }
      | .error fault => .error (.malformed (.brokenReference fault)) := by
  have hspace : ([' ', 'b', '='] ++ '"' :: value ++ ['"']).dropWhile isSpace =
      'b' :: '=' :: ('"' :: value ++ ['"']) := rfl
  obtain ⟨start, next, hraws⟩ := rawAttributesFrom_of_cut 1 hspace rfl
    fun start => cutValue_quoted start [] hvalue
  change rawAttributes (['a', ' ', 'b', '='] ++ '"' :: value ++ ['"']) =
    (⟨['b'], start, .ok value⟩ :: (rawAttributesFrom next []).1, _) at hraws
  rw [rawAttributesFrom_nil] at hraws
  have hadd : addAttributes Scope.initial none openedBare.element []
      [⟨['b'], start, .ok value⟩] =
        ((unescape value).mapError fun fault => .malformed (.brokenReference fault)).bind fun s =>
          .ok (openedBare.element.setAttribute ⟨"b", none⟩ s) := rfl
  rw [openElement, hraws]
  change (addAttributes Scope.initial none openedBare.element [] [⟨['b'], start, .ok value⟩]).bind
    (fun e => .ok { openedBare with element := e }) = _
  rw [hadd]
  cases unescape value <;> rfl

theorem readDocument_referenceInValue (hname : ∀ d ∈ name.toList, d ≠ ';' ∧ d ≠ '&' ∧ d ≠ '"') :
    readDocument (referenceInValue name) =
      match resolveValue 2 (2 + byteLength name.toList) name.toList with
      | .ok c => .ok (valueOf c)
      | .error fault => .error (.malformed (.brokenReference fault)) := by
  obtain ⟨value, hvalue⟩ : ∃ value, value = 'x' :: ('&' :: name.toList ++ [';']) := ⟨_, rfl⟩
  have hquote : '"' ∉ value := by
    rw [hvalue]
    simp only [List.cons_append, List.mem_cons, List.mem_append, List.not_mem_nil, or_false]
    rintro (h | h | h | h)
    · exact absurd h (by decide)
    · exact absurd h (by decide)
    · exact (hname _ h).2.2 rfl
    · exact absurd h (by decide)
  have hunescape : unescape value =
      (resolveValue 2 (2 + byteLength name.toList) name.toList).map
        fun c => String.ofList ['x', c] := by
    have hreference := unescapeFrom_reference 1 (fun d hd => ⟨(hname d hd).1, (hname d hd).2.1⟩) []
    rw [unescape, hvalue, unescapeFrom_cons _ _ (by decide)]
    change ((unescapeFrom 1 _).map _).map _ = _
    rw [hreference, unescapeFrom]
    cases resolveValue 2 (2 + byteLength name.toList) name.toList <;> rfl
  have hcontent : IsTagContent (['a', ' ', 'b', '='] ++ '"' :: value ++ ['"']) := by
    refine ⟨?_, by simp, by simp, ?_⟩
    · have hfront : IsBalanced ['a', ' ', 'b', '='] := IsBalanced.of_unquoted (by decide)
      exact hfront.append (IsBalanced.of_quoted hquote)
    · rw [List.getLast?_concat]
      decide
  have hchars : ("<a b=\"x&" ++ name ++ ";\"/>").toList =
      '<' :: (['a', ' ', 'b', '='] ++ '"' :: value ++ ['"']) ++ ['/', '>'] := by
    simp [String.toList_append, hvalue]
  have hopen : openElement ReadState.initial.scope
      (['a', ' ', 'b', '='] ++ '"' :: value ++ ['"']) = _ := openElement_of_value hquote
  rw [hunescape] at hopen
  rw [referenceInValue, readDocument_of_less hchars, hchars]
  cases hresolve : resolveValue 2 (2 + byteLength name.toList) name.toList with
  | ok c =>
      rw [hresolve] at hopen
      dsimp only [Except.map] at hopen
      have hread : readFrom ReadState.initial
          ('<' :: (['a', ' ', 'b', '='] ++ '"' :: value ++ ['"']) ++ ['/', '>']) =
            readFrom ⟨[], some (valueOf c).root⟩ [] := readFrom_emptyTag hcontent hopen rfl []
      rw [hread, readFrom_nil]
      rfl
  | error fault =>
      rw [hresolve] at hopen
      apply readFrom_error (hcontent.cutToken_emptyTag [])
      rw [ReadState.step]
      exact congrArg (· >>= _) hopen

section Outcomes

variable (hname : ∀ d ∈ name.toList, d ∉ [';', '&', '<', '"'])
include hname

theorem readDocument_references :
    readDocument (referenceInText name) =
        (match resolveText? name.toList with
        | some c => .ok (textOf c)
        | none => .error (.malformed (.unknownEntity name))) ∧
      readDocument (referenceInValue name) =
        match resolveValue 2 (2 + byteLength name.toList) name.toList with
        | .ok c => .ok (valueOf c)
        | .error fault => .error (.malformed (.brokenReference fault)) := by
  simp only [List.mem_cons, List.not_mem_nil, or_false, not_or] at hname
  constructor
  · exact readDocument_referenceInText fun d hd =>
      ⟨(hname d hd).1, (hname d hd).2.1, (hname d hd).2.2.1⟩
  · exact readDocument_referenceInValue fun d hd =>
      ⟨(hname d hd).1, (hname d hd).2.1, (hname d hd).2.2.2⟩

theorem readDocument_of_standsFor {c : Char} (hstands : StandsFor name.toList c) :
    readDocument (referenceInText name) = .ok (textOf c) ∧
      readDocument (referenceInValue name) = .ok (valueOf c) := by
  obtain ⟨htext, hvalue⟩ := readDocument_references hname
  rw [htext, hvalue, resolveText?_eq_some.mpr (.inl hstands), resolveValue_eq_ok.mpr hstands]
  exact ⟨rfl, rfl⟩

theorem readDocument_of_isLax {c : Char} (hlax : IsLax name.toList c) :
    readDocument (referenceInText name) = .ok (textOf c) ∧
      ∃ fault, (fault = .signedNumber ∨ fault = .nullCharacter) ∧
        readDocument (referenceInValue name) = .error (.malformed (.brokenReference fault)) := by
  obtain ⟨htext, hvalue⟩ := readDocument_references hname
  obtain ⟨fault, hfault, hresolve⟩ := resolveValue_of_isLax hlax 2 (2 + byteLength name.toList)
  rw [htext, hvalue, resolveText?_eq_some.mpr (.inr hlax), hresolve]
  exact ⟨rfl, fault, hfault, rfl⟩

theorem readDocument_of_neither
    (hneither : ∀ c, ¬StandsFor name.toList c ∧ ¬IsLax name.toList c) :
    readDocument (referenceInText name) = .error (.malformed (.unknownEntity name)) ∧
      ∃ fault,
        readDocument (referenceInValue name) = .error (.malformed (.brokenReference fault)) := by
  obtain ⟨htext, hvalue⟩ := readDocument_references hname
  rw [htext, hvalue]
  constructor
  · cases hresolve : resolveText? name.toList with
    | none => rfl
    | some c =>
        rcases resolveText?_eq_some.mp hresolve with hstands | hlax
        · exact absurd hstands (hneither c).1
        · exact absurd hlax (hneither c).2
  · cases hresolve : resolveValue 2 (2 + byteLength name.toList) name.toList with
    | error fault => exact ⟨fault, rfl⟩
    | ok c => exact absurd (resolveValue_eq_ok.mp hresolve) (hneither c).1

/-- In text and in an attribute value a reference is read alike, unless the number in it
has a plus sign or is zero.  What the name stands for is read in both.  The lax numbers are
read in text and refused in a value, and everything else is refused in both. -/
theorem readDocument_reference :
    (∀ c, StandsFor name.toList c →
      readDocument (referenceInText name) = .ok (textOf c) ∧
        readDocument (referenceInValue name) = .ok (valueOf c)) ∧
    (∀ c, IsLax name.toList c →
      readDocument (referenceInText name) = .ok (textOf c) ∧
        ∃ fault, (fault = .signedNumber ∨ fault = .nullCharacter) ∧
          readDocument (referenceInValue name) = .error (.malformed (.brokenReference fault))) ∧
    ((∀ c, ¬StandsFor name.toList c ∧ ¬IsLax name.toList c) →
      readDocument (referenceInText name) = .error (.malformed (.unknownEntity name)) ∧
        ∃ fault,
          readDocument (referenceInValue name) = .error (.malformed (.brokenReference fault))) ∧
    (((∃ document, readDocument (referenceInText name) = .ok document) ↔
        ∃ document, readDocument (referenceInValue name) = .ok document) ↔
      ∀ c, ¬IsLax name.toList c) := by
  refine ⟨fun c => readDocument_of_standsFor hname, fun c => readDocument_of_isLax hname,
    readDocument_of_neither hname, ?_⟩
  constructor
  · intro halike c hlax
    obtain ⟨hread, fault, -, hrefused⟩ := readDocument_of_isLax hname hlax
    obtain ⟨document, hboth⟩ := halike.mp ⟨_, hread⟩
    rw [hrefused] at hboth
    contradiction
  · intro hnolax
    by_cases hsome : ∃ c, StandsFor name.toList c
    · obtain ⟨c, hstands⟩ := hsome
      obtain ⟨htext, hvalue⟩ := readDocument_of_standsFor hname hstands
      exact ⟨fun _ => ⟨_, hvalue⟩, fun _ => ⟨_, htext⟩⟩
    · have hneither : ∀ c, ¬StandsFor name.toList c ∧ ¬IsLax name.toList c := fun c =>
        ⟨fun hstands => hsome ⟨c, hstands⟩, hnolax c⟩
      obtain ⟨htext, fault, hvalue⟩ := readDocument_of_neither hname hneither
      rw [htext, hvalue]
      simp

end Outcomes

/-- The closing quotation mark, by its number. -/
theorem readDocument_reference_quotationMark :
    (∀ d ∈ "#x201D".toList, d ∉ [';', '&', '<', '"']) ∧ StandsFor "#x201D".toList '”' ∧
      readDocument (referenceInText "#x201D") = .ok (textOf '”') ∧
      readDocument (referenceInValue "#x201D") = .ok (valueOf '”') := by
  have hname : ∀ d ∈ "#x201D".toList, d ∉ [';', '&', '<', '"'] := by decide
  have hdigits : List.Forall₂ (IsDigit 16) "201D".toList [2, 0, 1, 13] :=
    .cons (by decide) (.cons (by decide) (.cons (by decide) (.cons (by decide) .nil)))
  have hstands : StandsFor "#x201D".toList '”' :=
    .numbered (.hexadecimal _) ⟨by decide, _, hdigits, by decide⟩ (by decide)
  exact ⟨hname, hstands, (readDocument_reference hname).1 '”' hstands⟩

/-- A number with a plus sign and the number zero are read in text alone. -/
theorem not_alike_lax :
    readDocument (referenceInText "#+65") = .ok (textOf 'A') ∧
      (∀ document, readDocument (referenceInValue "#+65") ≠ .ok document) ∧
      readDocument (referenceInText "#0") = .ok (textOf '\x00') ∧
      ∀ document, readDocument (referenceInValue "#0") ≠ .ok document := by
  have hplus : readDocument (referenceInValue "#+65") =
      .error (.malformed (.brokenReference .signedNumber)) := by decide +kernel
  have hzero : readDocument (referenceInValue "#0") =
      .error (.malformed (.brokenReference .nullCharacter)) := by decide +kernel
  refine ⟨by decide +kernel, ?_, by decide +kernel, ?_⟩
  · rw [hplus]
    simp
  · rw [hzero]
    simp

end Documents

end Epub.Xml
