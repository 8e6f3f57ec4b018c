import Ostadix.Lib.Bytes

/-! # Lowercase hexadecimal text -/

namespace Ostadix.Lib

open List

def hexDigit (nibble : Nat) : UInt8 :=
  if nibble < 10 then UInt8.ofNat (48 + nibble) else UInt8.ofNat (87 + nibble)

def hexValue (digit : UInt8) : Option Nat :=
  if 48 ≤ digit ∧ digit ≤ 57 then some (digit.toNat - 48)
  else if 97 ≤ digit ∧ digit ≤ 102 then some (digit.toNat - 87)
  else none

def hexDigits (bytes : Bytes) : Bytes :=
  bytes.flatMap fun byte => [hexDigit (byte.toNat / 16), hexDigit (byte.toNat % 16)]

/-- The bytes written by an even number of lowercase digits. -/
def ofHexDigits : Bytes → Option Bytes
  | [] => some []
  | [_] => none
  | high :: low :: digits => do
      let high ← hexValue high
      let low ← hexValue low
      let bytes ← ofHexDigits digits
      return UInt8.ofNat (high * 16 + low) :: bytes

private theorem hexValue_hexDigit : ∀ nibble : Fin 16,
    hexValue (hexDigit nibble.1) = some nibble.1 ∧ (hexDigit nibble.1).toNat < 128 := by
  decide

theorem ofHexDigits_hexDigits (bs : Bytes) : ofHexDigits (hexDigits bs) = some bs := by
  induction bs with
  | nil => rfl
  | cons byte bs ih =>
    have small : byte.toNat < 256 := byte.toNat_lt
    have high := (hexValue_hexDigit ⟨byte.toNat / 16, by omega⟩).1
    have low := (hexValue_hexDigit ⟨byte.toNat % 16, by omega⟩).1
    have whole : UInt8.ofNat (byte.toNat / 16 * 16 + byte.toNat % 16) = byte := by
      rw [Nat.div_add_mod']
      exact UInt8.ofNat_toNat
    simp only [hexDigits, flatMap_cons, cons_append, nil_append, ofHexDigits] at high low ⊢
    rw [high, low, show bs.flatMap _ = hexDigits bs from rfl, ih]
    show some (UInt8.ofNat (byte.toNat / 16 * 16 + byte.toNat % 16) :: bs) = _
    rw [whole]

theorem length_hexDigits (bs : Bytes) : (hexDigits bs).length = 2 * bs.length := by
  simp [hexDigits, Nat.mul_comm]

/-! ## As text -/

def asciiText (digits : Bytes) : String :=
  String.ofList (digits.map fun digit => Char.ofNat digit.toNat)

theorem utf8Bytes_asciiText {digits : Bytes} (ascii : ∀ digit ∈ digits, digit.toNat < 128) :
    utf8Bytes (asciiText digits) = digits := by
  rw [utf8Bytes, asciiText, String.toByteArray_ofList, List.utf8Encode, toList_data_toByteArray]
  induction digits with
  | nil => rfl
  | cons digit digits ih =>
    simp only [forall_mem_cons] at ascii
    have sca : (Char.ofNat digit.toNat).val.toNat = digit.toNat := by
      rw [Char.ofNat, dif_pos (Or.inl (by omega))]
      rfl
    rw [map_cons, flatMap_cons, ih ascii.2, String.utf8EncodeChar]
    simp only [sca]
    rw [if_pos (by omega), UInt8.ofNat_toNat]
    rfl

def hexEncode (bytes : Bytes) : String :=
  asciiText (hexDigits bytes)

def hexDecode (text : String) : Option Bytes :=
  ofHexDigits (utf8Bytes text)

theorem utf8Bytes_hexEncode (bs : Bytes) : utf8Bytes (hexEncode bs) = hexDigits bs := by
  apply utf8Bytes_asciiText
  intro digit hm
  obtain ⟨byte, _, isDigit⟩ := mem_flatMap.mp hm
  have small : byte.toNat < 256 := byte.toNat_lt
  simp only [mem_cons, not_mem_nil, or_false] at isDigit
  obtain rfl | rfl := isDigit
  · exact (hexValue_hexDigit ⟨byte.toNat / 16, by omega⟩).2
  · exact (hexValue_hexDigit ⟨byte.toNat % 16, by omega⟩).2

theorem hexDecode_hexEncode (bs : Bytes) : hexDecode (hexEncode bs) = some bs := by
  rw [hexDecode, utf8Bytes_hexEncode, ofHexDigits_hexDigits]

theorem length_hexEncode (bs : Bytes) : (utf8Bytes (hexEncode bs)).length = 2 * bs.length := by
  rw [utf8Bytes_hexEncode, length_hexDigits]

end Ostadix.Lib
