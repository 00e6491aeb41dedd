/-
Texts and their bytes.  The bytes of a text are the only ones that it is read back from.
-/
import Epub.Text.Utf8

namespace Epub.Text

theorem toList_byteArray (bytes : ByteArray) : bytes.toList = bytes.data.toList := by
  have hloop : ∀ (i : Nat) (r : List UInt8), ByteArray.toList.loop bytes i r =
      r.reverse ++ bytes.data.toList.drop i := by
    intro i r
    fun_induction ByteArray.toList.loop bytes i r with
    | case1 i r hlt ih =>
        have hsize : i < bytes.data.toList.length := by
          rw [Array.length_toList]
          exact hlt
        rw [ih, List.drop_eq_getElem_cons hsize]
        have hget : bytes.get! i = bytes.data.toList[i] := by
          rw [Array.getElem_toList]
          exact getElem!_pos bytes.data i hlt
        simp [hget]
    | case2 i r hge =>
        rw [List.drop_eq_nil_of_le, List.append_nil]
        rw [Array.length_toList]
        exact Nat.le_of_not_lt hge
  rw [ByteArray.toList, hloop]
  rfl

/-- Bytes spell the text whose bytes they are. -/
theorem fromUTF8?_eq_some {bytes : List UInt8} {text : String} :
    String.fromUTF8? bytes.toByteArray = some text ↔ text.toUTF8.toList = bytes := by
  have hbytes : text.toUTF8.toList = bytes ↔ text.toUTF8 = bytes.toByteArray := by
    rw [toList_byteArray, ByteArray.ext_iff, List.data_toByteArray, ← Array.toList_inj]
  rw [hbytes, String.fromUTF8?]
  constructor
  · intro hsome
    split at hsome
    · cases hsome
      rfl
    · contradiction
  · intro hsame
    have hvalid : bytes.toByteArray.IsValidUTF8 := hsame ▸ text.isValidUTF8
    rw [dif_pos hvalid, Option.some.injEq, ← String.toByteArray_inj]
    exact hsame.symm

theorem decode_toUTF8 (s : String) : Utf8.decode s.toUTF8 = .ok s := by
  have hvalid : s.toUTF8.IsValidUTF8 := s.isValidUTF8
  rw [Utf8.decode, String.fromUTF8?, dif_pos hvalid]
  rfl

end Epub.Text
