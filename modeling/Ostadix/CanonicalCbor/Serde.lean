import Ostadix.CanonicalCbor.Canonical

/-! # Messages as JSON values

`serde_json::to_value` and `from_value` for the record types of the wire. A `Serde` instance
carries the law that a message survives the canonical reordering of its members. -/

namespace Ostadix.CanonicalCbor

open Ostadix.Lib List

class Serde (α : Type) where
  toValue : α → Value
  fromValue : Value → Option α
  toValue_ne_null : ∀ message, toValue message ≠ .null
  fromValue_canonical : ∀ message, fromValue (canonical (toValue message)) = some message

export Serde (toValue fromValue)

attribute [simp] Serde.fromValue_canonical

theorem canonical_ne_null {v : Value} (hp : v ≠ .null) : canonical v ≠ .null := by
  cases v <;> simp_all [canonical]

/-! ## Scalars and lists -/

instance : Serde UInt64 where
  toValue number := .number (.posInt number)
  fromValue
    | .number (.posInt number) => some number
    | _ => none
  toValue_ne_null := by simp
  fromValue_canonical _ := rfl

instance : Serde UInt8 where
  toValue byte := .number (.posInt byte.toUInt64)
  fromValue
    | .number (.posInt number) => if number.toNat < 2 ^ 8 then some number.toUInt8 else none
    | _ => none
  toValue_ne_null := by simp
  fromValue_canonical byte := by
    have small := byte.toNat_lt
    simp [canonical, small]

instance : Serde UInt32 where
  toValue number := .number (.posInt number.toUInt64)
  fromValue
    | .number (.posInt number) => if number.toNat < 2 ^ 32 then some number.toUInt32 else none
    | _ => none
  toValue_ne_null := by simp
  fromValue_canonical number := by
    have small := number.toNat_lt
    simp [canonical, small]

instance : Serde String where
  toValue text := .string text
  fromValue
    | .string text => some text
    | _ => none
  toValue_ne_null := by simp
  fromValue_canonical _ := rfl

instance {α : Type} [Serde α] : Serde (List α) where
  toValue messages := .array (messages.map toValue)
  fromValue
    | .array items => items.mapM fromValue
    | _ => none
  toValue_ne_null := by simp
  fromValue_canonical messages := by
    simp only [canonical_array, map_map]
    induction messages with
    | nil => rfl
    | cons message messages ih =>
      rw [map_cons, mapM_cons, Function.comp_apply, Serde.fromValue_canonical, ih]
      rfl

/-! ## Records

A derived record accepts an object by its field names or an array of its fields in order. -/

/-- The fields `names` of a record. A field that is absent from an object is `none`; with
`denyUnknown` an object must not have other members. -/
def structFields (names : List String) (denyUnknown : Bool) : Value → Option (List (Option Value))
  | .object members =>
      if denyUnknown && members.any fun entry => !names.contains entry.1 then none
      else some (names.map fun name => members.lookup name)
  | .array items => if items.length = names.length then some (items.map some) else none
  | _ => none

/-- An optional field: absent and `null` both read as nothing. -/
def optionField {α : Type} [Serde α] : Option Value → Option (Option α)
  | none => some none
  | some .null => some none
  | some value => (fromValue value).map some

def optionValue {α : Type} [Serde α] : Option α → Value
  | none => .null
  | some message => toValue message

/-- The name of a unit variant: a text, or an object with that one key and `null`. -/
def unitVariant : Value → Option String
  | .string name => some name
  | .object [(name, .null)] => some name
  | _ => none

@[simp] theorem optionField_canonical {α : Type} [Serde α] (msg : Option α) :
    optionField (some (canonical (optionValue msg))) = some msg := by
  cases msg with
  | none => rfl
  | some msg =>
    have hp := canonical_ne_null (Serde.toValue_ne_null msg)
    have read := Serde.fromValue_canonical msg
    simp only [optionValue]
    unfold optionField
    split
    · rename_i hab
      cases hab
    · rename_i null
      exact absurd (Option.some.inj null) hp
    · rename_i v _ he
      obtain rfl := Option.some.inj he
      rw [read]
      rfl

/-- Reading a record back finds every field, whatever order its members were written in. -/
theorem structFields_canonical (ms : List (String × Value))
    (hne : (ms.map Prod.fst).Nodup) (denyUnknown : Bool) :
    structFields (ms.map Prod.fst) denyUnknown (canonical (.object ms)) =
      some (ms.map fun e => some (canonical e.2)) := by
  have hk : ((sortMembers ms).map canonicalMember).any
      (fun e => !(ms.map Prod.fst).contains e.1) = false := by
    rw [any_eq_false]
    intro e hst
    obtain ⟨orig, hm, rfl⟩ := mem_map.mp hst
    rw [mem_sortMembers] at hm
    simpa [canonicalMember] using ⟨orig.2, hm⟩
  have keys : (((sortMembers ms).map canonicalMember).map Prod.fst).Nodup := by
    rw [map_map]
    exact nodup_keys_sortMembers hne
  rw [canonical_object, structFields, hk, Bool.and_false, if_neg (by decide), map_map]
  congr 1
  apply map_congr_left
  intro e hm
  have hst : canonicalMember e ∈ (sortMembers ms).map canonicalMember :=
    mem_map_of_mem (mem_sortMembers.mpr hm)
  exact lookup_of_mem keys hst

end Ostadix.CanonicalCbor
