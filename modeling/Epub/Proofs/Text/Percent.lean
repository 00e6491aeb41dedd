/-
What percent escapes stand for.  An escape is a percent sign with two hexadecimal digits
behind it; it stands for one byte, and all other bytes stand for themselves.
-/
import Epub.Proofs.Text.Numeral
import Epub.Proofs.Text.Utf8
import Epub.Text.Percent

namespace Epub.Text.Percent

/-- Whether `high` and `low` are the hexadecimal digits of `escaped`. -/
def IsWritten (high low escaped : UInt8) : Prop :=
  ∃ h l, IsDigit 16 (Char.ofNat high.toNat) h ∧ IsDigit 16 (Char.ofNat low.toNat) l ∧
    escaped = UInt8.ofNat (16 * h + l)

/-- Whether bytes start with an escape. -/
def StartsEscaped (bytes : List UInt8) : Prop :=
  ∃ high low escaped tail, bytes = 0x25 :: high :: low :: tail ∧ IsWritten high low escaped

/-- The bytes that bytes with escapes stand for. -/
inductive Unescapes : List UInt8 → List UInt8 → Prop where
  | nil : Unescapes [] []
  | escape {high low escaped : UInt8} {tail rest : List UInt8} :
      IsWritten high low escaped → Unescapes tail rest →
        Unescapes (0x25 :: high :: low :: tail) (escaped :: rest)
  | byte {byte : UInt8} {tail rest : List UInt8} :
      ¬StartsEscaped (byte :: tail) → Unescapes tail rest →
        Unescapes (byte :: tail) (byte :: rest)

/-- The text that a text with escapes stands for. -/
def Decodes (written text : String) : Prop :=
  Unescapes written.toUTF8.toList text.toUTF8.toList

section Bytes

variable {high low escaped byte : UInt8} {bytes decoded tail : List UInt8}

theorem escapedByte_eq_some :
    escapedByte high low = some escaped ↔ IsWritten high low escaped := by
  simp only [escapedByte, IsWritten, Option.bind_eq_bind, Option.bind_eq_some_iff,
    Option.pure_def, Option.some.injEq, digitValue_eq_some (Nat.le_refl 16)]
  constructor
  · rintro ⟨h, hhigh, l, hlow, rfl⟩
    exact ⟨h, l, hhigh, hlow, rfl⟩
  · rintro ⟨h, l, hhigh, hlow, rfl⟩
    exact ⟨h, hhigh, l, hlow, rfl⟩

theorem decodeBytes_escape (hwritten : IsWritten high low escaped) :
    decodeBytes (0x25 :: high :: low :: tail) = escaped :: decodeBytes tail := by
  rw [decodeBytes, if_pos rfl, escapedByte_eq_some.mpr hwritten]

theorem decodeBytes_byte (hplain : ¬StartsEscaped (byte :: tail)) :
    decodeBytes (byte :: tail) = byte :: decodeBytes tail := by
  match tail with
  | [] => rfl
  | [_] => rfl
  | high :: low :: rest =>
      have hnone : (if byte = 0x25 then escapedByte high low else none) = none := by
        split
        · rename_i hpercent
          rw [Option.eq_none_iff_forall_ne_some]
          intro escaped hescaped
          exact hplain ⟨high, low, escaped, rest, by rw [hpercent],
            escapedByte_eq_some.mp hescaped⟩
        · rfl
      rw [decodeBytes, hnone]

theorem unescapes_decodeBytes (bytes : List UInt8) : Unescapes bytes (decodeBytes bytes) := by
  match bytes with
  | [] => exact .nil
  | byte :: tail =>
      by_cases hescaped : StartsEscaped (byte :: tail)
      · obtain ⟨high, low, escaped, rest, hbytes, hwritten⟩ := hescaped
        have hrest := unescapes_decodeBytes rest
        rw [hbytes, decodeBytes_escape hwritten]
        exact .escape hwritten hrest
      · rw [decodeBytes_byte hescaped]
        exact .byte hescaped (unescapes_decodeBytes tail)
termination_by bytes.length
decreasing_by
  · have hlength := congrArg List.length hbytes
    simp only [List.length_cons] at hlength ⊢
    omega
  · exact Nat.lt_succ_self _

theorem decodeBytes_eq_iff : decodeBytes bytes = decoded ↔ Unescapes bytes decoded := by
  constructor
  · rintro rfl
    exact unescapes_decodeBytes bytes
  · intro hunescapes
    induction hunescapes with
    | nil => rfl
    | escape hwritten _ ih => rw [decodeBytes_escape hwritten, ih]
    | byte hplain _ ih => rw [decodeBytes_byte hplain, ih]

end Bytes

theorem decode?_eq_some {written text : String} :
    decode? written = some text ↔ Decodes written text := by
  rw [decode?, fromUTF8?_eq_some, Decodes, ← decodeBytes_eq_iff]
  exact eq_comm

theorem Decodes.unique {written text other : String} (htext : Decodes written text)
    (hother : Decodes written other) : text = other :=
  Option.some.inj ((decode?_eq_some.mpr htext).symm.trans (decode?_eq_some.mpr hother))

end Epub.Text.Percent
