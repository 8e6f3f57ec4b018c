import Ostadix.Ocore.LayoutArith

/-! # Exact shapes of types

The size and alignment of a type as its declaration gives them, without a bound on sizes. A type
that contains itself has none. -/

namespace Ostadix.Ocore

open Lib Lib.Layout Option

/-- The layout of a type that is not an array, a struct or an enum. -/
def HirType.baseLayout : HirType → Option Layout
  | .bool | .int _ 8 => some ⟨1, 1⟩
  | .int _ 16 => some ⟨2, 2⟩
  | .int _ 32 | .float 32 => some ⟨4, 4⟩
  | .int _ 64 | .float 64 | .usize | .isize | .pointer .. | .function .. => some ⟨8, 8⟩
  | .void | .never => some ⟨0, 1⟩
  | .int .. | .float _ | .array .. | .struct _ | .enum _ => none

namespace StructEntry

def tys (entry : StructEntry) : List TypeId :=
  entry.fields.map fun field => field.ty

def shape (entry : StructEntry) (shapes : List Shape) : Shape :=
  structShape entry.packed entry.requestedAlign shapes

end StructEntry

namespace EnumEntry

def payloads (entry : EnumEntry) : List (List TypeId) :=
  entry.variants.map fun variant => variant.payload

/-- The size the tag of the enum has to have. -/
def tag (entry : EnumEntry) : UInt64 :=
  tagSizeFor entry.variants.length

def shape (entry : EnumEntry) (payloads : List (List Shape)) : Shape :=
  enumShape entry.tag.toNat payloads

end EnumEntry

namespace TypeTable

def shapeWithin (table : TypeTable) : Nat → TypeId → Option Shape
  | 0, _ => none
  | fuel + 1, ty => do
      match ← table.types[ty]? with
      | .struct id =>
          let entry ← table.structs[id]?
          return entry.shape (← entry.tys.mapM (table.shapeWithin fuel))
      | .enum id =>
          let entry ← table.enums[id]?
          return entry.shape (← entry.payloads.mapM fun payload =>
            payload.mapM (table.shapeWithin fuel))
      | .array element len =>
          let shape ← table.shapeWithin fuel element
          return ⟨shape.size * len.toNat, shape.align⟩
      | found => found.baseLayout.map Layout.shape

def HasShape (table : TypeTable) (ty : TypeId) (shape : Shape) : Prop :=
  ∃ fuel, table.shapeWithin fuel ty = some shape

end TypeTable

/-! ## Lists of options -/

theorem mapM_eq_some {α β : Type} {xs : List α} {convert : α → Option β} {rs : List β} :
    xs.mapM convert = some rs ↔ List.Forall₂ (fun x r => convert x = some r) xs rs := by
  induction xs generalizing rs with
  | nil => simp [eq_comm]
  | cons x xs ih =>
    simp [List.forall₂_cons_left_iff, ← ih, Option.bind_eq_some_iff, eq_comm (b := rs)]

/-- Results found with some fuel each are all found with enough fuel. -/
theorem forall₂_exists {α β : Type} {xs : List α} {rs : List β}
    (relation : Nat → α → β → Prop) (mono : ∀ fuel more x r, relation fuel x r →
      fuel ≤ more → relation more x r)
    (hrel : List.Forall₂ (fun x r => ∃ fuel, relation fuel x r) xs rs) :
    ∃ fuel, List.Forall₂ (relation fuel) xs rs := by
  induction hrel with
  | nil => exact ⟨0, .nil⟩
  | cons first _ ih =>
    obtain ⟨fuel, hh⟩ := first
    obtain ⟨more, tl⟩ := ih
    exact ⟨max fuel more, .cons (mono _ _ _ _ hh (Nat.le_max_left ..))
      (tl.imp fun _ _ hrel => mono _ _ _ _ hrel (Nat.le_max_right ..))⟩

namespace TypeTable

variable {table : TypeTable}

/-! ## Tables that declare the same types -/

/-- `other` declares every type that `table` declares, whatever their layouts. -/
structure Includes (table other : TypeTable) : Prop where
  types : ∀ {ty : Nat} {kind : HirType}, table.types[ty]? = some kind → other.types[ty]? = some kind
  structs : ∀ {id : Nat} {entry : StructEntry}, table.structs[id]? = some entry →
    ∃ same, other.structs[id]? = some same ∧ same.tys = entry.tys ∧ same.packed = entry.packed ∧
      same.requestedAlign = entry.requestedAlign
  enums : ∀ {id : Nat} {entry : EnumEntry}, table.enums[id]? = some entry →
    ∃ same, other.enums[id]? = some same ∧ same.payloads = entry.payloads ∧ same.tag = entry.tag

theorem Includes.refl (tb : TypeTable) : tb.Includes tb :=
  ⟨id, fun hp => ⟨_, hp, rfl, rfl, rfl⟩, fun hp => ⟨_, hp, rfl, rfl⟩⟩

variable {ty : TypeId} {sh : Shape}

theorem Includes.shapeWithin {o : TypeTable} (includes : table.Includes o)
    {fuel more : Nat} (hf : table.shapeWithin fuel ty = some sh) (hen : fuel ≤ more) :
    o.shapeWithin more ty = some sh := by
  induction fuel generalizing more ty sh with
  | zero => cases hf
  | succ fuel ih =>
    obtain ⟨more, rfl⟩ := Nat.exists_eq_add_of_le' (Nat.le_trans (Nat.le_add_left 1 fuel) hen)
    have hen : fuel ≤ more := Nat.le_of_succ_le_succ hen
    rw [TypeTable.shapeWithin, bind_eq_bind, bind_eq_some_iff] at hf ⊢
    obtain ⟨kind, hp, hf⟩ := hf
    refine ⟨kind, includes.types hp, ?_⟩
    cases kind with try simp only [bind_eq_bind, bind_eq_some_iff] at hf ⊢
    | struct =>
      obtain ⟨e, hd, shs, hs, r⟩ := hf
      obtain ⟨he, sameDeclared, tys, hpk, hreq⟩ := includes.structs hd
      refine ⟨he, sameDeclared, shs, mapM_eq_some.mpr ?_, ?_⟩
      · rw [tys]
        exact (mapM_eq_some.mp hs).imp fun _ _ hs => ih hs hen
      · rw [← r, StructEntry.shape, StructEntry.shape, hpk, hreq]
    | enum =>
      obtain ⟨e, hd, shs, hs, r⟩ := hf
      obtain ⟨he, sameDeclared, pls, tag⟩ := includes.enums hd
      refine ⟨he, sameDeclared, shs, mapM_eq_some.mpr ?_, ?_⟩
      · rw [pls]
        refine (mapM_eq_some.mp hs).imp fun _ _ hs => mapM_eq_some.mpr ?_
        exact (mapM_eq_some.mp hs).imp fun _ _ hs => ih hs hen
      · rw [← r, EnumEntry.shape, EnumEntry.shape, tag]
    | array =>
      obtain ⟨inn, hs, r⟩ := hf
      exact ⟨inn, ih hs hen, r⟩
    | _ => exact hf

theorem Includes.hasShape {o : TypeTable} (includes : table.Includes o)
    (hs : table.HasShape ty sh) : o.HasShape ty sh := by
  obtain ⟨fuel, hf⟩ := hs
  exact ⟨fuel, includes.shapeWithin hf (Nat.le_refl fuel)⟩

theorem shapeWithin_mono {fuel more : Nat} (hf : table.shapeWithin fuel ty = some sh)
    (hen : fuel ≤ more) : table.shapeWithin more ty = some sh :=
  (Includes.refl table).shapeWithin hf hen

/-! ## The shape of each kind of type -/

/-- Shapes of a list of types, found with enough fuel for all of them. -/
theorem exists_shapesWithin {tys : List TypeId} {shs : List Shape}
    (hs : List.Forall₂ table.HasShape tys shs) :
    ∃ fuel, List.Forall₂ (fun ty sh => table.shapeWithin fuel ty = some sh) tys shs :=
  forall₂_exists (fun fuel ty sh => table.shapeWithin fuel ty = some sh)
    (fun _ _ _ _ => shapeWithin_mono) hs

theorem HasShape.unique {first x2 : Shape} (one : table.HasShape ty first)
    (o : table.HasShape ty x2) : first = x2 := by
  obtain ⟨fuel, hf⟩ := one
  obtain ⟨more, alsoFound⟩ := o
  have left := shapeWithin_mono hf (Nat.le_max_left fuel more)
  have right := shapeWithin_mono alsoFound (Nat.le_max_right fuel more)
  exact Option.some.inj (left.symm.trans right)

theorem hasShape_base {kind : HirType} {lay : Layout} (hp : table.types[ty]? = some kind)
    (base : kind.baseLayout = some lay) : table.HasShape ty lay.shape := by
  refine ⟨1, ?_⟩
  rw [shapeWithin, hp, bind_eq_bind, bind_some]
  cases kind with
  | array | struct | enum => simp [HirType.baseLayout] at base
  | _ => simp [base]

theorem hasShape_array {ty elt : TypeId} {len : UInt64}
    (hp : table.types[ty]? = some (.array elt len)) :
    table.HasShape ty sh ↔
      ∃ inn, table.HasShape elt inn ∧ sh = ⟨inn.size * len.toNat, inn.align⟩ := by
  constructor
  · rintro ⟨fuel, hf⟩
    cases fuel with
    | zero => cases hf
    | succ fuel =>
      rw [shapeWithin, hp, bind_eq_bind, bind_some] at hf
      simp only [bind_eq_bind, bind_eq_some_iff] at hf
      obtain ⟨inn, hs, ⟨⟩⟩ := hf
      exact ⟨inn, ⟨fuel, hs⟩, rfl⟩
  · rintro ⟨inn, ⟨fuel, hs⟩, rfl⟩
    exact ⟨fuel + 1, by simp [shapeWithin, hp, hs]⟩

theorem hasShape_struct {id : StructId} {e : StructEntry}
    (hp : table.types[ty]? = some (.struct id)) (hd : table.structs[id]? = some e) :
    table.HasShape ty sh ↔
      ∃ shs, List.Forall₂ table.HasShape e.tys shs ∧ sh = e.shape shs := by
  constructor
  · rintro ⟨fuel, hf⟩
    cases fuel with
    | zero => cases hf
    | succ fuel =>
      rw [shapeWithin, hp, bind_eq_bind, bind_some] at hf
      simp only [bind_eq_bind, bind_eq_some_iff, hd] at hf
      obtain ⟨_, ⟨⟩, shs, hs, ⟨⟩⟩ := hf
      exact ⟨shs, (mapM_eq_some.mp hs).imp fun _ _ hs => ⟨fuel, hs⟩, rfl⟩
  · rintro ⟨shs, hs, rfl⟩
    obtain ⟨fuel, hs⟩ := exists_shapesWithin hs
    exact ⟨fuel + 1, by simp [shapeWithin, hp, hd, mapM_eq_some.mpr hs]⟩

theorem hasShape_enum {id : EnumId} {e : EnumEntry}
    (hp : table.types[ty]? = some (.enum id)) (hd : table.enums[id]? = some e) :
    table.HasShape ty sh ↔
      ∃ pls, List.Forall₂ (List.Forall₂ table.HasShape) e.payloads pls ∧
        sh = e.shape pls := by
  constructor
  · rintro ⟨fuel, hf⟩
    cases fuel with
    | zero => cases hf
    | succ fuel =>
      rw [shapeWithin, hp, bind_eq_bind, bind_some] at hf
      simp only [bind_eq_bind, bind_eq_some_iff, hd] at hf
      obtain ⟨_, ⟨⟩, pls, hs, ⟨⟩⟩ := hf
      refine ⟨pls, (mapM_eq_some.mp hs).imp fun _ _ hs => ?_, rfl⟩
      exact (mapM_eq_some.mp hs).imp fun _ _ hs => ⟨fuel, hs⟩
  · rintro ⟨pls, hs, rfl⟩
    obtain ⟨fuel, hs⟩ := forall₂_exists
      (fun fuel => List.Forall₂ fun ty sh => table.shapeWithin fuel ty = some sh)
      (fun _ _ _ _ hf hen => hf.imp fun _ _ hf => shapeWithin_mono hf hen)
      (hs.imp fun _ _ hs => exists_shapesWithin hs)
    have hf := mapM_eq_some.mpr (hs.imp fun _ _ hs => mapM_eq_some.mpr hs)
    exact ⟨fuel + 1, by simp [shapeWithin, hp, hd, hf]⟩

end TypeTable

end Ostadix.Ocore
