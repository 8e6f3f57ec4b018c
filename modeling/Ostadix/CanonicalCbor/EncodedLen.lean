import Ostadix.CanonicalCbor.Canonical

/-! # The length of an encoding

`encoded_len` adds up the lengths of the parts without writing them, and gives up where the sum is
no `usize`. -/

namespace Ostadix.CanonicalCbor

open Lib List

def encodedTypeLenLen (len : Nat) : Nat :=
  if len ≤ 23 then 1
  else if len ≤ 0xff then 2
  else if len ≤ 0xffff then 3
  else if len ≤ 0xffff_ffff then 5
  else 9

def checkedEncodedLenAdd (left right : Nat) : Except String Nat :=
  if left + right < 2 ^ 64 then .ok (left + right)
  else .error "canonical encoded length overflowed usize"

def encodedTextLen (text : String) : Except String Nat :=
  checkedEncodedLenAdd (encodedTypeLenLen (utf8Bytes text).length) (utf8Bytes text).length

def encodedNumberLen : Number → Nat
  | .posInt value => encodedTypeLenLen value.toNat
  | .negInt value => encodedTypeLenLen (-1 - value.value).toNat
  | .float _ => 9

mutual

def encodedValueLen : Value → Except String Nat
  | .null | .bool _ => .ok 1
  | .number number => .ok (encodedNumberLen number)
  | .string text => encodedTextLen text
  | .array items => encodedItemsLen (encodedTypeLenLen items.length) items
  | .object members => encodedMembersLen (encodedTypeLenLen members.length) members

/-- Add the lengths of items to `total`. -/
def encodedItemsLen (total : Nat) : List Value → Except String Nat
  | [] => .ok total
  | item :: items => do
      let total ← checkedEncodedLenAdd total (← encodedValueLen item)
      encodedItemsLen total items

/-- The same with members, in the order in which the object has them. -/
def encodedMembersLen (total : Nat) : List (String × Value) → Except String Nat
  | [] => .ok total
  | (key, value) :: members => do
      let total ← checkedEncodedLenAdd total (← encodedTextLen key)
      let total ← checkedEncodedLenAdd total (← encodedValueLen value)
      encodedMembersLen total members

end

def encodedLen (message : JsonValue) : Except String Nat :=
  encodedValueLen message.value

/-! ## Sums -/

section Sums

variable {left right : Nat}

theorem add_eq_ok (small : left + right < 2 ^ 64) :
    checkedEncodedLenAdd left right = .ok (left + right) :=
  if_pos small

theorem add_eq_error (large : ¬left + right < 2 ^ 64) : checkedEncodedLenAdd left right =
    .error "canonical encoded length overflowed usize" :=
  if_neg large

/-- A part that overflows by itself overflows in the sum. -/
theorem add_of_part : (do checkedEncodedLenAdd left (← checkedEncodedLenAdd 0 right)) =
    checkedEncodedLenAdd left right := by
  by_cases small : 0 + right < 2 ^ 64
  · rw [add_eq_ok small, Nat.zero_add]
    rfl
  · rw [add_eq_error small, add_eq_error (by omega)]
    rfl

theorem add_bind {tl : Nat} {next : Nat → Except String Nat}
    (sums : ∀ total < 2 ^ 64, next total = checkedEncodedLenAdd total tl) :
    (checkedEncodedLenAdd left right >>= next) = checkedEncodedLenAdd left (right + tl) := by
  by_cases small : left + right < 2 ^ 64
  · rw [add_eq_ok small]
    simp only [checkedEncodedLenAdd, ← Nat.add_assoc]
    exact sums _ small
  · rw [add_eq_error small, add_eq_error (by omega)]
    rfl

end Sums

/-! ## Parts -/

theorem length_encodeTypeLen (major : UInt8) (len : Nat) :
    (encodeTypeLen major len).length = encodedTypeLenLen len := by
  simp only [encodeTypeLen, encodedTypeLenLen]
  split_ifs <;> simp

theorem encodedTypeLenLen_lt (len : Nat) : encodedTypeLenLen len < 2 ^ 64 := by
  unfold encodedTypeLenLen
  split_ifs <;> decide

theorem encodedTextLen_eq (text : String) :
    encodedTextLen text = checkedEncodedLenAdd 0 (encodeText text).length := by
  simp [encodedTextLen, checkedEncodedLenAdd, encodeText, length_encodeTypeLen]

theorem encodedNumberLen_eq (num : Number) :
    checkedEncodedLenAdd 0 (encodeNumber num).length = .ok (encodedNumberLen num) := by
  have hex : (encodeNumber num).length = encodedNumberLen num := by
    cases num <;> simp [encodeNumber, encodedNumberLen, length_encodeTypeLen]
  have small : encodedNumberLen num < 2 ^ 64 := by
    cases num with
    | posInt | negInt => exact encodedTypeLenLen_lt _
    | float => exact (by decide : 9 < 2 ^ 64)
  rw [hex, add_eq_ok (by omega), Nat.zero_add]

theorem encodedItemsLen_eq {xs : List Value} (each : ∀ item ∈ xs,
      encodedValueLen item = checkedEncodedLenAdd 0 (encodeValue item).length) :
    ∀ total < 2 ^ 64,
      encodedItemsLen total xs = checkedEncodedLenAdd total (encodeItems xs).length := by
  induction xs with
  | nil =>
    intro total small
    exact (if_pos small).symm
  | cons item xs ih =>
    intro total _
    obtain ⟨first, others⟩ := forall_mem_cons.mp each
    rw [encodedItemsLen, first, ← bind_assoc, add_of_part, encodeItems, length_append]
    exact add_bind (ih others)

theorem encodedMembersLen_eq {ms : List (String × Value)} (each : ∀ entry ∈ ms,
      encodedValueLen entry.2 = checkedEncodedLenAdd 0 (encodeValue entry.2).length) :
    ∀ total < 2 ^ 64, encodedMembersLen total ms =
      checkedEncodedLenAdd total (ms.flatMap encodeMember).length := by
  induction ms with
  | nil =>
    intro total small
    exact (if_pos small).symm
  | cons entry ms ih =>
    intro total _
    obtain ⟨first, others⟩ := forall_mem_cons.mp each
    rw [encodedMembersLen, encodedTextLen_eq, first, ← bind_assoc, add_of_part, flatMap_cons,
      length_append, encodeMember, length_append, Nat.add_assoc]
    refine add_bind fun total _ => ?_
    rw [← bind_assoc, add_of_part]
    exact add_bind (ih others)

theorem encodedValueLen_eq (v : Value) :
    encodedValueLen v = checkedEncodedLenAdd 0 (encodeValue v).length := by
  induction v using Value.induction with
  | null => rfl
  | bool v => cases v <;> rfl
  | number v => exact (encodedNumberLen_eq v).symm
  | string text => exact encodedTextLen_eq text
  | array items ih =>
    rw [encodedValueLen, encodedItemsLen_eq ih _ (encodedTypeLenLen_lt _), encodeValue,
      length_append, length_encodeTypeLen]
    simp [checkedEncodedLenAdd]
  | object members ih =>
    -- sorting the members does not change how long they are together
    have sorted := ((sortMembers_perm members).flatMap_right encodeMember).length_eq
    rw [encodedValueLen, encodedMembersLen_eq ih _ (encodedTypeLenLen_lt _), encodeValue_object,
      length_append, length_encodeTypeLen, sorted]
    simp [checkedEncodedLenAdd]

/-- The length is exact unless it is no `usize`, and no vector of bytes is that long. -/
theorem encodedLen_exact (msg : JsonValue) :
    encodedLen msg = if (encode msg).length < 2 ^ 64 then .ok (encode msg).length
      else .error "canonical encoded length overflowed usize" := by
  rw [encodedLen, encodedValueLen_eq, checkedEncodedLenAdd, Nat.zero_add]
  rfl

end Ostadix.CanonicalCbor
