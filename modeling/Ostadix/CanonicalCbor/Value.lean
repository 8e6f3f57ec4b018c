import Ostadix.Lib.Bytes
import Ostadix.Lib.Lists

/-! # The JSON data model of the canonical wire

`serde_json::Value` without `arbitrary_precision`: a number is a `u64`, a negative `i64` or a
finite `f64`, and an object is an insertion-ordered map with distinct keys. -/

namespace Ostadix.CanonicalCbor

open Ostadix.Lib

/-- A negative `i64`: `serde_json` stores every non-negative integer as a `u64`. -/
structure NegativeI64 where
  value : Int
  lower : -2 ^ 63 ≤ value
  negative : value < 0
deriving DecidableEq

/-- The bits of a binary64 value whose exponent field is not all ones. -/
structure FiniteF64 where
  bits : UInt64
  finite : bits.toNat / 2 ^ 52 % 2 ^ 11 ≠ 0x7ff
deriving DecidableEq

inductive Number where
  | posInt (value : UInt64)
  | negInt (value : NegativeI64)
  | float (value : FiniteF64)
deriving DecidableEq

inductive Value where
  | null
  | bool (value : Bool)
  | number (value : Number)
  | string (text : String)
  | array (items : List Value)
  | object (members : List (String × Value))

namespace Value

/-- Induction over nested values: the hypothesis holds of every item and of every member. -/
@[elab_as_elim]
theorem induction {motive : Value → Prop} (null : motive null) (bool : ∀ value, motive (bool value))
    (number : ∀ value, motive (number value)) (string : ∀ text, motive (string text))
    (array : ∀ items, (∀ item ∈ items, motive item) → motive (array items))
    (object : ∀ members, (∀ entry ∈ members, motive entry.2) → motive (object members)) :
    ∀ value, motive value
  | .null => null
  | .bool value => bool value
  | .number value => number value
  | .string text => string text
  | .array items => array items fun item _ =>
      induction null bool number string array object item
  | .object members => object members fun entry _ =>
      induction null bool number string array object entry.2
termination_by value => sizeOf value
decreasing_by
  · have := List.sizeOf_lt_of_mem ‹item ∈ items›
    simp only [Value.array.sizeOf_spec]
    omega
  · have smaller := List.sizeOf_lt_of_mem ‹entry ∈ members›
    obtain ⟨_, value⟩ := entry
    simp only [Value.object.sizeOf_spec, Prod.mk.sizeOf_spec] at *
    omega

/-! ## Well-formedness

Every length is a `usize` of a 64-bit host, and the keys of an object are distinct. -/

mutual
def WellFormed : Value → Prop
  | null | bool _ | number _ => True
  | string text => (utf8Bytes text).length < 2 ^ 64
  | array items => items.length < 2 ^ 64 ∧ WellFormedItems items
  | object members =>
      members.length < 2 ^ 64 ∧ (members.map Prod.fst).Nodup ∧ WellFormedMembers members

def WellFormedItems : List Value → Prop
  | [] => True
  | item :: items => item.WellFormed ∧ WellFormedItems items

def WellFormedMembers : List (String × Value) → Prop
  | [] => True
  | (key, value) :: members =>
      (utf8Bytes key).length < 2 ^ 64 ∧ value.WellFormed ∧ WellFormedMembers members
end

theorem wellFormedItems_iff {items : List Value} :
    WellFormedItems items ↔ ∀ item ∈ items, item.WellFormed := by
  induction items with
  | nil => simp [WellFormedItems]
  | cons item items ih => simp [WellFormedItems, ih]

theorem wellFormedMembers_iff {members : List (String × Value)} : WellFormedMembers members ↔
      ∀ entry ∈ members, (utf8Bytes entry.1).length < 2 ^ 64 ∧ entry.2.WellFormed := by
  induction members with
  | nil => simp [WellFormedMembers]
  | cons entry members ih =>
    obtain ⟨_, _⟩ := entry
    simp [WellFormedMembers, ih, and_assoc]

/-! ## Equality of JSON values

`PartialEq` of `serde_json::Value`: arrays item by item, objects by size and by looking each
key of the left object up in the right one, so that the order of members does not count.
Numbers are compared by their bits. -/

mutual
def eqv : Value → Value → Bool
  | null, null => true
  | bool left, bool right => left == right
  | number left, number right => decide (left = right)
  | string left, string right => left == right
  | array left, array right => eqvItems left right
  | object left, object right => left.length == right.length && eqvMembers left right
  | _, _ => false

def eqvItems : List Value → List Value → Bool
  | [], [] => true
  | left :: lefts, right :: rights => left.eqv right && eqvItems lefts rights
  | _, _ => false

def eqvMembers : List (String × Value) → List (String × Value) → Bool
  | [], _ => true
  | (key, value) :: members, other =>
      (match other.lookup key with
        | some found => value.eqv found
        | none => false) && eqvMembers members other
end

theorem eqvMembers_iff {members other : List (String × Value)} : eqvMembers members other = true ↔
      ∀ entry ∈ members, ∃ found, other.lookup entry.1 = some found ∧ entry.2.eqv found = true := by
  induction members with
  | nil => simp [eqvMembers]
  | cons entry members ih =>
    obtain ⟨key, _⟩ := entry
    simp only [eqvMembers, Bool.and_eq_true, ih, List.forall_mem_cons]
    cases other.lookup key <;> simp

end Value

/-- A JSON value the program can hold. -/
structure JsonValue where
  value : Value
  wellFormed : value.WellFormed

end Ostadix.CanonicalCbor
