import Mathlib.Data.Nat.Digits.Lemmas

/-! # Big-endian byte strings

Fixed-width big-endian integers as lists of bytes, with the two round trips between a number
and its digits. Nothing here depends on a particular wire format. -/

namespace Ostadix.Lib

open List Nat

abbrev Bytes := List UInt8

/-- The `width` low base-256 digits of `n`, most significant first. -/
def toBigEndian : Nat → Nat → Bytes
  | 0, _ => []
  | width + 1, n => UInt8.ofNat (n / 256 ^ width) :: toBigEndian width n

def ofBigEndian (bytes : Bytes) : Nat :=
  bytes.foldl (fun acc byte => acc * 256 + byte.toNat) 0

@[simp] theorem length_toBigEndian (w n : Nat) : (toBigEndian w n).length = w := by
  induction w with
  | zero => rfl
  | succ w ih => simp [toBigEndian, ih]

theorem foldl_bigEndian (bs : Bytes) (acc : Nat) :
    bs.foldl (fun acc byte => acc * 256 + byte.toNat) acc =
      acc * 256 ^ bs.length + ofBigEndian bs := by
  induction bs generalizing acc with
  | nil => simp [ofBigEndian]
  | cons byte bs ih =>
    simp only [foldl_cons, length_cons, ofBigEndian]
    rw [ih, ih (0 * 256 + byte.toNat), pow_succ]
    ring

theorem ofBigEndian_cons (byte : UInt8) (bs : Bytes) :
    ofBigEndian (byte :: bs) = byte.toNat * 256 ^ bs.length + ofBigEndian bs := by
  simp only [ofBigEndian, foldl_cons]
  rw [foldl_bigEndian]
  simp [ofBigEndian]

theorem ofBigEndian_lt (bs : Bytes) : ofBigEndian bs < 256 ^ bs.length := by
  induction bs with
  | nil => simp [ofBigEndian]
  | cons byte bs =>
    rw [ofBigEndian_cons, length_cons, pow_succ]
    have small : byte.toNat < 256 := UInt8.toNat_lt byte
    calc byte.toNat * 256 ^ bs.length + ofBigEndian bs
        < byte.toNat * 256 ^ bs.length + 256 ^ bs.length := by omega
      _ = (byte.toNat + 1) * 256 ^ bs.length := by ring
      _ ≤ 256 * 256 ^ bs.length := mul_le_mul_right _ small
      _ = 256 ^ bs.length * 256 := mul_comm _ _

theorem ofBigEndian_toBigEndian (w n : Nat) : ofBigEndian (toBigEndian w n) = n % 256 ^ w := by
  induction w with
  | zero => simp [toBigEndian, ofBigEndian, mod_one]
  | succ w ih =>
    have digit : (UInt8.ofNat (n / 256 ^ w)).toNat = n / 256 ^ w % 256 := by
      simp [UInt8.toNat_ofNat']
    rw [toBigEndian, ofBigEndian_cons, ih, length_toBigEndian, digit, pow_succ, mod_mul,
      mul_comm, add_comm]

theorem ofBigEndian_toBigEndian_of_lt {w n : Nat} (fits : n < 256 ^ w) :
    ofBigEndian (toBigEndian w n) = n := by
  rw [ofBigEndian_toBigEndian, mod_eq_of_lt fits]

/-- Digits above the width do not change the low digits. -/
theorem toBigEndian_add_mul (w n high : Nat) :
    toBigEndian w (high * 256 ^ w + n) = toBigEndian w n := by
  suffices general : ∀ small ≤ w,
      toBigEndian small (high * 256 ^ w + n) = toBigEndian small n from general w le_rfl
  intro small within
  induction small with
  | zero => rfl
  | succ small ih =>
    rw [toBigEndian, toBigEndian, ih (by omega)]
    congr 1
    obtain ⟨extra, rfl⟩ : ∃ extra, w = small + 1 + extra := ⟨w - (small + 1), by omega⟩
    have split : high * 256 ^ (small + 1 + extra) = 256 ^ small * (256 * (high * 256 ^ extra)) := by
      ring
    rw [split, Nat.mul_add_div (Nat.pow_pos (by omega))]
    apply UInt8.toNat_inj.mp
    simp only [UInt8.toNat_ofNat']
    omega

theorem toBigEndian_ofBigEndian (bs : Bytes) : toBigEndian bs.length (ofBigEndian bs) = bs := by
  induction bs with
  | nil => rfl
  | cons byte bs ih =>
    rw [ofBigEndian_cons, length_cons, toBigEndian, toBigEndian_add_mul, ih]
    congr 1
    rw [Nat.mul_comm, Nat.mul_add_div (Nat.pow_pos (by omega)),
      Nat.div_eq_of_lt (ofBigEndian_lt bs), Nat.add_zero]
    exact UInt8.ofNat_toNat

/-! ## Numbers without leading zeros -/

/-- The base-256 digits of `n`, most significant first; none for zero. -/
def bigEndianDigits (n : Nat) : Bytes :=
  (Nat.digits 256 n).reverse.map UInt8.ofNat

theorem ofBigEndian_eq_ofDigits (bs : Bytes) :
    ofBigEndian bs = Nat.ofDigits 256 (bs.reverse.map UInt8.toNat) := by
  induction bs with
  | nil => rfl
  | cons byte bs ih =>
    rw [ofBigEndian_cons, ih, reverse_cons, map_append, ofDigits_append, length_map, length_reverse]
    simp only [map_cons, map_nil, ofDigits_singleton]
    ring

theorem ofBigEndian_bigEndianDigits (n : Nat) : ofBigEndian (bigEndianDigits n) = n := by
  have digits : (bigEndianDigits n).reverse.map UInt8.toNat = Nat.digits 256 n := by
    rw [bigEndianDigits, ← map_reverse, reverse_reverse, map_map]
    conv_rhs => rw [← map_id (Nat.digits 256 n)]
    refine map_congr_left fun digit hm => ?_
    exact UInt8.toNat_ofNat_of_lt' (digits_lt_base (by decide) hm)
  rw [ofBigEndian_eq_ofDigits, digits, ofDigits_digits]

theorem bigEndianDigits_ofBigEndian {bs : Bytes} (leading : bs.head? ≠ some 0) :
    bigEndianDigits (ofBigEndian bs) = bs := by
  have digits : Nat.digits 256 (ofBigEndian bs) = bs.reverse.map UInt8.toNat := by
    rw [ofBigEndian_eq_ofDigits]
    refine digits_ofDigits 256 (by decide) _ ?_ ?_
    · intro digit hm
      obtain ⟨byte, _, rfl⟩ := mem_map.mp hm
      exact UInt8.toNat_lt byte
    · intro hnil
      cases bs with
      | nil => exact absurd rfl hnil
      | cons =>
        simp only [reverse_cons, map_append, map_cons, map_nil, getLast_append_singleton]
        intro zero
        exact leading (congrArg some (UInt8.toNat_inj.mp zero))
  rw [bigEndianDigits, digits, ← map_reverse, reverse_reverse, map_map]
  conv_rhs => rw [← map_id bs]
  exact map_congr_left fun byte _ => UInt8.ofNat_toNat

theorem bigEndianDigits_head? (n : Nat) : (bigEndianDigits n).head? ≠ some 0 := by
  intro zero
  rw [bigEndianDigits, head?_map, head?_reverse, Option.map_eq_some_iff] at zero
  obtain ⟨digit, last, zero⟩ := zero
  have hnz : digit ≠ 0 := by
    have hnil : Nat.digits 256 n ≠ [] := ne_nil_of_mem (mem_of_getLast? last)
    have he := getLast?_eq_some_getLast hnil
    rw [last] at he
    cases he
    exact getLast_digit_ne_zero 256 (digits_ne_nil_iff_ne_zero.mp hnil)
  have small : digit < 256 := digits_lt_base (by decide) (mem_of_getLast? last)
  have := congrArg UInt8.toNat zero
  rw [UInt8.toNat_ofNat_of_lt' small] at this
  exact hnz this

theorem bigEndianDigits_ne_nil {n : Nat} (hpos : n ≠ 0) : bigEndianDigits n ≠ [] := by
  rw [bigEndianDigits, ne_eq, map_eq_nil_iff, reverse_eq_nil_iff]
  exact digits_ne_nil_iff_ne_zero.mpr hpos

/-! ## Concatenated pieces -/

theorem mul_length_le_length_flatMap {α : Type} {piece : α → Bytes} {parts : List α} {least : Nat}
    (large : ∀ part ∈ parts, least ≤ (piece part).length) :
    least * parts.length ≤ (parts.flatMap piece).length := by
  induction parts with
  | nil => simp
  | cons part parts ih =>
    simp only [forall_mem_cons] at large
    have := ih large.2
    rw [flatMap_cons, length_append, length_cons, mul_add, mul_one]
    omega

theorem length_le_length_flatMap {α : Type} (piece : α → Bytes) {parts : List α} {part : α}
    (hm : part ∈ parts) : (piece part).length ≤ (parts.flatMap piece).length :=
  (sublist_flatten_of_mem (mem_map_of_mem hm)).length_le

/-! ## Length-first order

Byte strings compared by length and, at equal length, lexicographically. -/

def shortlexLe (left right : Bytes) : Bool :=
  decide (left.length < right.length) ||
    (decide (left.length = right.length) && decide (left ≤ right))

theorem shortlexLe_iff {left right : Bytes} : shortlexLe left right = true ↔
      left.length < right.length ∨ left.length = right.length ∧ left ≤ right := by
  simp [shortlexLe]

theorem shortlexLe_total (left right : Bytes) :
    (shortlexLe left right || shortlexLe right left) = true := by
  rw [Bool.or_eq_true, shortlexLe_iff, shortlexLe_iff]
  rcases lt_trichotomy left.length right.length with shorter | he | longer
  · exact .inl (.inl shorter)
  · rcases List.le_total left right with le | le
    · exact .inl (.inr ⟨he, le⟩)
    · exact .inr (.inr ⟨he.symm, le⟩)
  · exact .inr (.inl longer)

theorem shortlexLe_trans {first x2 third : Bytes}
    (le₁ : shortlexLe first x2 = true) (le₂ : shortlexLe x2 third = true) :
    shortlexLe first third = true := by
  rw [shortlexLe_iff] at *
  rcases le₁ with lt₁ | ⟨_, le₁⟩ <;> rcases le₂ with _ | ⟨_, le₂⟩
  · exact .inl (by omega)
  · exact .inl (by omega)
  · exact .inl (by omega)
  · exact .inr ⟨by omega, List.le_trans le₁ le₂⟩

theorem shortlexLe_antisymm {left right : Bytes}
    (le₁ : shortlexLe left right = true) (le₂ : shortlexLe right left = true) : left = right := by
  rw [shortlexLe_iff] at *
  rcases le₁ with lt₁ | ⟨_, le₁⟩ <;> rcases le₂ with _ | ⟨_, le₂⟩
  · omega
  · omega
  · omega
  · exact List.le_antisymm le₁ le₂

/-! ## UTF-8 text as bytes -/

def utf8Bytes (text : String) : Bytes :=
  text.toByteArray.data.toList

def fromUtf8 (bytes : Bytes) : Option String :=
  String.fromUTF8? bytes.toByteArray

private theorem toByteArray_utf8Bytes (text : String) :
    (utf8Bytes text).toByteArray = text.toByteArray := by
  apply ByteArray.ext
  apply Array.toList_inj.mp
  rw [toList_data_toByteArray]
  rfl

theorem fromUtf8_utf8Bytes (text : String) : fromUtf8 (utf8Bytes text) = some text := by
  have hv : (utf8Bytes text).toByteArray.IsValidUTF8 := by
    rw [toByteArray_utf8Bytes]
    exact text.isValidUTF8
  rw [fromUtf8, String.fromUTF8?, dif_pos hv]
  congr 1
  exact String.toByteArray_inj.mp (toByteArray_utf8Bytes text)

theorem utf8Bytes_injective : Function.Injective utf8Bytes := by
  intro left right same
  have read := fromUtf8_utf8Bytes left
  rw [same, fromUtf8_utf8Bytes right] at read
  exact (Option.some.inj read).symm

theorem utf8Bytes_of_fromUtf8 {bs : Bytes} {text : String} (read : fromUtf8 bs = some text) :
    utf8Bytes text = bs := by
  rw [fromUtf8, String.fromUTF8?] at read
  split at read
  · obtain rfl := Option.some.inj read
    exact toList_data_toByteArray
  · cases read

end Ostadix.Lib
