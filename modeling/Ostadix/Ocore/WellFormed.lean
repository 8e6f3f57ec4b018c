import Ostadix.Lib.Except
import Ostadix.Ocore.Layouts

/-! # Well-formed type tables

The type table grows by interning: a type is added after its components, so the components stand
at earlier positions. Everything that walks over component types ends for that reason. -/

namespace Ostadix.Ocore

open Lib

namespace TypeTable

/-- A type that may stand at position `id`. -/
def Admits (table : TypeTable) (id : TypeId) : HirType → Prop
  | .int _ bits => bits = 8 ∨ bits = 16 ∨ bits = 32 ∨ bits = 64
  | .float bits => bits = 32 ∨ bits = 64
  | .pointer _ pointee => pointee < id
  | .array element _ => element < id
  | .struct struct => struct < table.structs.length
  | .enum enum => enum < table.enums.length
  | .function params result _ => (∀ param ∈ params, param < id) ∧ result < id
  | .bool | .usize | .isize | .void | .never => True

structure WellFormed (table : TypeTable) : Prop where
  primitives : primitives.map Prod.snd <+: table.types
  admits : ∀ {id : TypeId} {ty : HirType}, table.types[id]? = some ty → table.Admits id ty
  fields : ∀ entry ∈ table.structs, ∀ field ∈ entry.fields, field.ty < table.types.length
  aligns : ∀ entry ∈ table.structs, ∀ align, entry.requestedAlign = some align →
    ∃ exponent ≤ 12, align.toNat = 2 ^ exponent
  payloads : ∀ entry ∈ table.enums, ∀ variant ∈ entry.variants, ∀ ty ∈ variant.payload,
    ty < table.types.length

variable {table : TypeTable}

theorem WellFormed.types_pos (wf : table.WellFormed) : 0 < table.types.length :=
  Nat.lt_of_lt_of_le (by decide) wf.primitives.length_le

theorem exists_unwrap {α : Type} {xs : List α} {i : Nat} (hi : i < xs.length) :
    ∃ item, xs[i]? = some item ∧ unwrap xs[i]? = .ok item :=
  ⟨xs[i], List.getElem?_eq_getElem hi, by rw [List.getElem?_eq_getElem hi]; rfl⟩

theorem WellFormed.nameWithin_ok (wf : table.WellFormed) (fuel : Nat) {ty : Nat}
    (hi : ty < table.types.length) (hen : ty < fuel) :
    ∃ name, table.nameWithin fuel ty = .ok name := by
  induction fuel generalizing ty with
  | zero => cases hen
  | succ fuel ih =>
    obtain ⟨hf, hp, unwrapped⟩ := exists_unwrap hi
    have hadm := wf.admits hp
    have component {o : Nat} (hear : o < ty) : ∃ name, table.nameWithin fuel o = .ok name :=
      ih (Nat.lt_trans hear hi) (by omega)
    rw [nameWithin, unwrapped, ok_bind]
    cases hf with
    | pointer | array =>
      obtain ⟨name, named⟩ := component hadm
      exact ⟨_, by simp only [named]; rfl⟩
    | struct | enum =>
      obtain ⟨_, -, hf⟩ := exists_unwrap hadm
      exact ⟨_, by simp only [hf]; rfl⟩
    | function =>
      obtain ⟨_, named⟩ := exists_mapM_ok fun param hm => component (hadm.1 param hm)
      obtain ⟨name, resultNamed⟩ := component hadm.2
      exact ⟨_, by simp only [named, ok_bind, resultNamed]; rfl⟩
    | _ => exact ⟨_, rfl⟩

theorem WellFormed.name_ok (wf : table.WellFormed) {ty : TypeId}
    (hi : ty < table.types.length) : ∃ name, table.name ty = .ok name :=
  wf.nameWithin_ok table.types.length hi hi

/-- `final` has the structs and enums of `table` and perhaps more types. -/
structure Extends (table final : TypeTable) : Prop where
  types : table.types <+: final.types
  structs : final.structs = table.structs
  enums : final.enums = table.enums

end TypeTable

end Ostadix.Ocore
