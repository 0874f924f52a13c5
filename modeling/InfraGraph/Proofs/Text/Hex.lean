import InfraGraph.Digest.Basic
import InfraGraph.Proofs.Text.Utf8

/-!
# Hexadecimal text tells bytes apart

Every byte becomes two digits, and digits of different values are different, so the bytes can be
read back.  A digest has as many bytes as the hash, and its digits are all there is in its text.
-/

namespace InfraGraph

namespace Text

theorem hexDigit_inj {a b : Nat} (ha : a < 16) (hb : b < 16) (h : hexDigit a = hexDigit b) :
    a = b := by
  have hall : ∀ x y : Fin 16, hexDigit x = hexDigit y → x = y := by decide
  exact congrArg Fin.val (hall ⟨a, ha⟩ ⟨b, hb⟩ h)

theorem hexOfByte_inj {a b : UInt8} (h : hexOfByte a = hexOfByte b) : a = b := by
  have ha : a.toNat < 256 := a.toNat_lt
  have hb : b.toNat < 256 := b.toNat_lt
  obtain ⟨hhigh, hlow⟩ := List.cons.inj h
  have hhigh := hexDigit_inj (by omega) (by omega) hhigh
  have hlow := hexDigit_inj (by omega) (by omega) (List.cons.inj hlow).1
  rw [← UInt8.toNat_inj]
  omega

theorem hexOfBytes_inj {a b : List UInt8} (h : hexOfBytes a = hexOfBytes b) : a = b := by
  have hchars : a.flatMap hexOfByte = b.flatMap hexOfByte := String.ofList_injective h
  clear h
  induction a generalizing b with
  | nil =>
      cases b with
      | nil => rfl
      | cons y b => simp [hexOfByte] at hchars
  | cons x a ih =>
      cases b with
      | nil => simp [hexOfByte] at hchars
      | cons y b =>
          rw [List.flatMap_cons, List.flatMap_cons] at hchars
          obtain ⟨hbyte, hrest⟩ := List.append_inj hchars rfl
          rw [hexOfByte_inj hbyte, ih hrest]

/-! ### Reading digits back -/

/-- The digits of hexadecimal text. -/
def hexAlphabet : List Char :=
  ['0', '1', '2', '3', '4', '5', '6', '7', '8', '9', 'a', 'b', 'c', 'd', 'e', 'f']

theorem hexDigit_mem_hexAlphabet {n : Nat} (h : n < 16) : hexDigit n ∈ hexAlphabet := by
  have hall : ∀ n : Fin 16, hexDigit n ∈ hexAlphabet := by decide
  exact hall ⟨n, h⟩

theorem utf8EncodeChar_hexDigit {n : Nat} (h : n < 16) :
    ∃ symbol, String.utf8EncodeChar (hexDigit n) = [symbol] ∧ hexValue? symbol = some n := by
  have hall : ∀ n : Fin 16, ∃ symbol, String.utf8EncodeChar (hexDigit n) = [symbol] ∧
      hexValue? symbol = some n.val := by
    intro n
    refine ⟨UInt8.ofNat (hexDigit n).toNat, ?_, ?_⟩ <;> revert n <;> decide
  exact hall ⟨n, h⟩

theorem mem_hexOfBytes {bytes : List UInt8} {c : Char} (h : c ∈ (hexOfBytes bytes).toList) :
    c ∈ hexAlphabet := by
  rw [hexOfBytes, String.toList_ofList, List.mem_flatMap] at h
  obtain ⟨b, _, hc⟩ := h
  have hb : b.toNat < 256 := b.toNat_lt
  simp only [hexOfByte, List.mem_cons, List.not_mem_nil, or_false] at hc
  rcases hc with rfl | rfl
  · exact hexDigit_mem_hexAlphabet (by omega)
  · exact hexDigit_mem_hexAlphabet (by omega)

theorem exists_symbols_hexOfByte (b : UInt8) :
    ∃ high low, (hexOfByte b).flatMap String.utf8EncodeChar = [high, low] ∧
      hexValue? high = some (b.toNat / 16) ∧ hexValue? low = some (b.toNat % 16) := by
  have hb : b.toNat < 256 := b.toNat_lt
  obtain ⟨high, hhigh, hhighValue⟩ := utf8EncodeChar_hexDigit (show b.toNat / 16 < 16 by omega)
  obtain ⟨low, hlow, hlowValue⟩ := utf8EncodeChar_hexDigit (show b.toNat % 16 < 16 by omega)
  exact ⟨high, low, by simp [hexOfByte, hhigh, hlow], hhighValue, hlowValue⟩

theorem bytesOfHexFrom_flatMap (position : Nat) (bytes : List UInt8) :
    bytesOfHexFrom position (bytes.flatMap fun b => (hexOfByte b).flatMap String.utf8EncodeChar) =
      .ok bytes := by
  induction bytes generalizing position with
  | nil => rfl
  | cons b bytes ih =>
      obtain ⟨high, low, hsymbols, hhigh, hlow⟩ := exists_symbols_hexOfByte b
      have hbyte : UInt8.ofNat (16 * (b.toNat / 16) + b.toNat % 16) = b := by
        rw [Nat.div_add_mod, UInt8.ofNat_toNat]
      rw [List.flatMap_cons, hsymbols, List.cons_append, List.cons_append, List.nil_append,
        bytesOfHexFrom, hhigh, hlow]
      simp only [ih, Except.map, hbyte]

theorem length_symbols (bytes : List UInt8) :
    (bytes.flatMap fun b => (hexOfByte b).flatMap String.utf8EncodeChar).length =
      2 * bytes.length := by
  induction bytes with
  | nil => rfl
  | cons b bytes ih =>
      obtain ⟨high, low, hsymbols, _, _⟩ := exists_symbols_hexOfByte b
      rw [List.flatMap_cons, hsymbols, List.length_append, ih, List.length_cons]
      simp only [List.length_cons, List.length_nil]
      omega

/-- The text of some bytes is read as these bytes. -/
theorem bytesOfHex_hexOfBytes (bytes : List UInt8) : bytesOfHex (hexOfBytes bytes) = .ok bytes := by
  have hsymbols : (hexOfBytes bytes).toUTF8.toList =
      bytes.flatMap fun b => (hexOfByte b).flatMap String.utf8EncodeChar := by
    rw [toList_eq_data]
    exact (bytes_eq_flatMap _).trans
      (by rw [hexOfBytes, String.toList_ofList, List.flatMap_assoc])
  have heven : ¬ 2 * bytes.length % 2 = 1 := by omega
  rw [bytesOfHex, hsymbols]
  simp only [length_symbols, heven, if_false]
  exact bytesOfHexFrom_flatMap 0 bytes

/-- Every digit is one byte. -/
theorem utf8ByteSize_hexOfBytes (bytes : List UInt8) :
    (hexOfBytes bytes).utf8ByteSize = 2 * bytes.length := by
  have hsize : (hexOfBytes bytes).utf8ByteSize = (Text.bytes (hexOfBytes bytes)).length := rfl
  rw [hsize, bytes_eq_flatMap, hexOfBytes, String.toList_ofList, List.flatMap_assoc,
    length_symbols]

end Text

namespace ContentDigest

theorem toHex_inj {a b : ContentDigest} (h : a.toHex = b.toHex) : a = b :=
  congrArg ContentDigest.mk (Text.hexOfBytes_inj h)

/-- The number of bytes of a hash is fixed. -/
theorem length_bytes_of (contents : ByteArray) : (of contents).bytes.length = size := by
  have hwords (n : Digest.Blake3.Node) (marks : UInt32) : (n.compress marks).toList.length = 8 := by
    simp [Digest.Blake3.Node.compress]
  rw [of, Digest.Blake3.hash, List.length_flatMap]
  have hbytes : ∀ words : List UInt32,
      (words.map fun w => (Digest.Blake3.bytesOfWord w).length).sum = 4 * words.length := by
    intro words
    induction words with
    | nil => rfl
    | cons w words ih =>
        rw [List.map_cons, List.sum_cons, ih, List.length_cons, Digest.Blake3.bytesOfWord]
        simp only [List.length_cons, List.length_nil]
        omega
  rw [hbytes, hwords]
  rfl

theorem ofHex_toHex {digest : ContentDigest} (h : digest.bytes.length = size) :
    ofHex digest.toHex = .ok digest := by
  rw [ofHex, toHex, Text.bytesOfHex_hexOfBytes]
  simp only [ofBytes, h, if_true]

theorem length_of_ofHex {text : String} {digest : ContentDigest} (h : ofHex text = .ok digest) :
    digest.bytes.length = size := by
  rw [ofHex] at h
  split at h
  · rename_i bytes _
    by_cases hsize : bytes.length = size
    · rw [ofBytes, if_pos hsize, Except.ok.injEq] at h
      rwa [← h]
    · rw [ofBytes, if_neg hsize] at h
      cases h
  · cases h

end ContentDigest

end InfraGraph
