import Mathlib.Tactic.Common

/-!
# Texts as bytes

The bytes of a text are those of its characters, one after the other, and the text can be had back
from them.
-/

namespace InfraGraph

theorem toList_loop_eq (bytes : ByteArray) (i : Nat) (front : List UInt8) :
    ByteArray.toList.loop bytes i front = front.reverse ++ bytes.data.toList.drop i := by
  induction hleft : bytes.size - i generalizing i front with
  | zero =>
      have hsize : bytes.data.toList.length ≤ i := Nat.le_of_sub_eq_zero hleft
      have hdone : ¬ i < bytes.size := by omega
      rw [ByteArray.toList.loop.eq_1, if_neg hdone, List.drop_eq_nil_of_le hsize, List.append_nil]
  | succ left ih =>
      have hi : i < bytes.size := by omega
      have hlength : i < bytes.data.toList.length := hi
      have hget : bytes.get! i = bytes.data.toList[i] := by
        rw [ByteArray.get!, getElem!_pos bytes.data i hi, Array.getElem_toList]
      rw [ByteArray.toList.loop.eq_1, if_pos hi, ih _ _ (by omega), List.reverse_cons,
        List.append_assoc, List.singleton_append, List.drop_eq_getElem_cons hlength, hget]

theorem toList_eq_data (bytes : ByteArray) : bytes.toList = bytes.data.toList :=
  toList_loop_eq bytes 0 []

theorem fromUTF8?_toUTF8 (text : String) : String.fromUTF8? text.toUTF8 = some text := by
  have hvalid : text.toUTF8.IsValidUTF8 := text.isValidUTF8
  rw [String.fromUTF8?, dif_pos hvalid]
  rfl

namespace Text

/-- The bytes of a text in UTF-8. -/
def bytes (s : String) : List UInt8 :=
  s.toUTF8.data.toList

theorem bytes_eq_flatMap (s : String) : bytes s = s.toList.flatMap String.utf8EncodeChar := by
  rw [bytes, String.toUTF8_eq_toByteArray, ← String.utf8Encode_toList, List.utf8Encode,
    List.data_toByteArray]

theorem bytes_inj {a b : String} (h : bytes a = bytes b) : a = b := by
  have hbytes : a.toUTF8 = b.toUTF8 := ByteArray.ext (Array.toList_inj.1 h)
  have htext := congrArg String.fromUTF8? hbytes
  rwa [fromUTF8?_toUTF8, fromUTF8?_toUTF8, Option.some.injEq] at htext

/-- Only the zero character has a zero byte. -/
theorem eq_zero_of_zero_mem {c : Char} (h : 0 ∈ String.utf8EncodeChar c) : c = Char.ofNat 0 := by
  have hcode : c.val.toNat = 0 := by
    have hmax : c.val.toNat ≤ 0x10ffff := by
      have := c.valid
      simp only [UInt32.isValidChar, Nat.isValidChar] at this
      omega
    unfold String.utf8EncodeChar at h
    generalize c.val.toNat = n at h hmax
    simp only at h
    split_ifs at h <;>
      simp only [List.mem_cons, List.not_mem_nil, or_false, ← UInt8.toNat_inj, UInt8.toNat_ofNat',
        UInt8.toNat_ofNat] at h <;>
      omega
  rw [← Char.toNat_inj]
  exact hcode

end Text

end InfraGraph
