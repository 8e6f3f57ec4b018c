import Ostadix.Ocore.Outcome
import Ostadix.Ocore.Shapes

/-! # What the layout pass computes

The layouts a struct or an enum gets are functions of the layouts of its component types. The pass
ends, on a well-formed table, with a diagnostic or with a table in which every struct and every
enum has the layout that its components give it; no type contains itself then, so every type has
an exact shape, computed without a bound on sizes. -/

namespace Ostadix.Ocore

open Lib Lib.Layout List

/-! ## Declarations -/

def StructEntry.declaration (entry : StructEntry) :
    String × List (String × TypeId) × Bool × Option UInt64 :=
  (entry.name, entry.fields.map fun field => (field.name, field.ty), entry.packed,
    entry.requestedAlign)

def EnumEntry.declaration (entry : EnumEntry) : String × List (List TypeId) :=
  (entry.name, entry.payloads)

/-- The same types are declared; their layouts may differ. -/
structure SameDeclarations (table other : TypeTable) : Prop where
  types : other.types = table.types
  structs : other.structs.map StructEntry.declaration = table.structs.map StructEntry.declaration
  enums : other.enums.map EnumEntry.declaration = table.enums.map EnumEntry.declaration

/-- A list that agrees with another up to `view` has the elements of the other up to `view`. -/
theorem exists_of_map_eq {α β : Type} {view : α → β} {xs oths : List α}
    (he : oths.map view = xs.map view) {i : Nat} {o : α} (hp : oths[i]? = some o) :
    ∃ x, xs[i]? = some x ∧ view o = view x := by
  have viewed : (xs.map view)[i]? = some (view o) := by
    rw [← he, getElem?_map, hp]
    rfl
  rw [getElem?_map, Option.map_eq_some_iff] at viewed
  obtain ⟨x, hf, heq⟩ := viewed
  exact ⟨x, hf, heq.symm⟩

section Declarations

variable {tb o : TypeTable}

theorem SameDeclarations.refl (tb : TypeTable) : SameDeclarations tb tb :=
  ⟨rfl, rfl, rfl⟩

section

variable (he : SameDeclarations tb o)

include he

theorem SameDeclarations.symm : SameDeclarations o tb :=
  ⟨he.types.symm, he.structs.symm, he.enums.symm⟩

theorem SameDeclarations.struct {id : StructId} {e : StructEntry} (hp : o.structs[id]? = some e) :
    ∃ hd, tb.structs[id]? = some hd ∧ e.tys = hd.tys ∧
      e.packed = hd.packed ∧ e.requestedAlign = hd.requestedAlign := by
  obtain ⟨hd, hf, heq⟩ := exists_of_map_eq he.structs hp
  simp only [StructEntry.declaration, Prod.mk.injEq] at heq
  have tys := congrArg (List.map Prod.snd) heq.2.1
  rw [map_map, map_map] at tys
  exact ⟨hd, hf, tys, heq.2.2⟩

theorem SameDeclarations.distinct (hne : ∀ e ∈ tb.structs, (e.fields.map (·.name)).Nodup) :
    ∀ e ∈ o.structs, (e.fields.map (·.name)).Nodup := by
  intro e hm
  obtain ⟨id, hi, hh⟩ := List.getElem_of_mem hm
  obtain ⟨hd, hf, heq⟩ := exists_of_map_eq he.structs (List.getElem?_eq_some_iff.mpr ⟨hi, hh⟩)
  simp only [StructEntry.declaration, Prod.mk.injEq] at heq
  have names := congrArg (List.map Prod.fst) heq.2.1
  rw [List.map_map, List.map_map] at names
  have nodup := hne hd (mem_of_getElem? hf)
  exact (show e.fields.map (·.name) = hd.fields.map (·.name) from names) ▸ nodup

theorem SameDeclarations.enum {id : EnumId} {e : EnumEntry} (hp : o.enums[id]? = some e) :
    ∃ hd, tb.enums[id]? = some hd ∧ e.payloads = hd.payloads ∧
      e.tag = hd.tag := by
  obtain ⟨hd, hf, heq⟩ := exists_of_map_eq he.enums hp
  simp only [EnumEntry.declaration, Prod.mk.injEq] at heq
  refine ⟨hd, hf, heq.2, ?_⟩
  have n := congrArg List.length heq.2
  simp only [EnumEntry.payloads, length_map] at n
  rw [EnumEntry.tag, n, EnumEntry.tag]

theorem SameDeclarations.length_structs : o.structs.length = tb.structs.length := by
  simpa using congrArg List.length he.structs

theorem SameDeclarations.length_enums : o.enums.length = tb.enums.length := by
  simpa using congrArg List.length he.enums

theorem SameDeclarations.wellFormed (wf : tb.WellFormed) : o.WellFormed  where
  primitives := he.types ▸ wf.primitives
  admits := by
    intro id ty hp
    rw [he.types] at hp
    have hadm := wf.admits hp
    cases ty with
    | struct => exact Nat.lt_of_lt_of_eq hadm he.length_structs.symm
    | enum => exact Nat.lt_of_lt_of_eq hadm he.length_enums.symm
    | _ => exact hadm
  fields := by
    intro e hm fd hls
    obtain ⟨id, hi, rfl⟩ := getElem_of_mem hm
    obtain ⟨hd, hf, tys, -⟩ := he.struct (getElem?_eq_getElem hi)
    have hls : fd.ty ∈ hd.tys := tys ▸ mem_map_of_mem hls
    obtain ⟨orig, hh, sameTy⟩ := mem_map.mp hls
    rw [he.types, ← sameTy]
    exact wf.fields hd (mem_of_getElem? hf) orig hh
  aligns := by
    intro e hm al requests
    obtain ⟨id, hi, rfl⟩ := getElem_of_mem hm
    obtain ⟨hd, hf, -, -, hreq⟩ := he.struct (getElem?_eq_getElem hi)
    exact wf.aligns hd (mem_of_getElem? hf) al (hreq ▸ requests)
  payloads := by
    intro e hm vr hls ty hh
    obtain ⟨id, hi, rfl⟩ := getElem_of_mem hm
    obtain ⟨hd, hf, payloads, -⟩ := he.enum (getElem?_eq_getElem hi)
    have hls : vr.payload ∈ hd.payloads := payloads ▸ mem_map_of_mem hls
    obtain ⟨orig, originalListed, samePayload⟩ := mem_map.mp hls
    rw [he.types]
    exact wf.payloads hd (mem_of_getElem? hf) orig originalListed ty (samePayload ▸ hh)

end

end Declarations

/-! ## States of the pass -/

/-- What is active stays active, and nothing is unvisited again. -/
structure Advance (before after : List Visit) : Prop where
  length : after.length = before.length
  active : ∀ {id : Nat}, before[id]? = some .active → after[id]? = some .active
  unvisited : ∀ {id : Nat}, after[id]? = some .unvisited → before[id]? = some .unvisited

theorem Advance.refl (vis : List Visit) : Advance vis vis :=
  ⟨rfl, id, id⟩

theorem Advance.trans {s mid t : List Visit} (first : Advance s mid)
    (x2 : Advance mid t) : Advance s t :=
  ⟨x2.length.trans first.length, x2.active ∘ first.active, first.unvisited ∘ x2.unvisited⟩

/-- Visiting an unvisited entry. -/
theorem Advance.visit {hvs : List Visit} {id : Nat} (unv : hvs[id]? = some .unvisited)
    {visit : Visit} (hvis : visit ≠ .unvisited) : Advance hvs (hvs.set id visit) := by
  refine ⟨length_set, ?_, ?_⟩
  · intro o act
    rw [getElem?_set_ne, act]
    rintro rfl
    rw [unv] at act
    cases act
  · intro o still
    by_cases he : id = o
    · subst he
      rw [List.getElem?_set_self (List.getElem?_eq_some_iff.mp unv).1] at still
      exact absurd (Option.some.inj still) hvis
    · rwa [List.getElem?_set_ne he] at still

/-- The visit of an entry, from its start to its end. -/
theorem Advance.finish {hvs t : List Visit} {id : Nat}
    (unv : hvs[id]? = some .unvisited) (advance : Advance (hvs.set id .active) t) :
    Advance hvs (t.set id .done) := by
  have through := (Advance.visit unv (by decide)).trans advance
  have hb : id < t.length := through.length ▸ (List.getElem?_eq_some_iff.mp unv).1
  refine ⟨List.length_set.trans through.length, ?_, ?_⟩
  · intro o act
    rw [List.getElem?_set_ne, through.active act]
    rintro rfl
    rw [unv] at act
    cases act
  · intro o still
    by_cases he : id = o
    · exact he ▸ unv
    · rw [getElem?_set_ne he] at still
      exact through.unvisited still

theorem Advance.count_le {s t : List Visit} (advance : Advance s t) :
    t.count .unvisited ≤ s.count .unvisited := by
  obtain ⟨len, -, unv⟩ := advance
  induction t generalizing s with
  | nil => exact Nat.zero_le _
  | cons visit t ih =>
    cases s with
    | nil => cases len
    | cons =>
      have tl := ih (Nat.succ.inj len) fun {id} still => @unv (id + 1) still
      have first := @unv 0
      simp only [getElem?_cons_zero, Option.some.injEq] at first
      rw [count_cons, count_cons]
      by_cases hh : visit = .unvisited
      · simp [hh, first hh]
        exact tl
      · simp [hh]
        omega

theorem count_set_visit {vis : List Visit} {id : Nat}
    (unv : vis[id]? = some .unvisited) {visit : Visit} (hvis : visit ≠ .unvisited) :
    (vis.set id visit).count .unvisited + 1 = vis.count .unvisited := by
  obtain ⟨hi, hh⟩ := List.getElem?_eq_some_iff.mp unv
  have hpos : 0 < vis.count .unvisited := List.count_pos_iff.mpr (List.mem_of_getElem? unv)
  rw [List.count_set hi, hh]
  simp [hvis]
  omega

namespace LayoutState

def unvisited (state : LayoutState) : Nat :=
  state.structState.count .unvisited + state.enumState.count .unvisited

/-- The layout of a type whose component structs and enums are done. -/
inductive Known (state : LayoutState) : TypeId → Layout → Prop
  | base {ty : TypeId} {kind : HirType} {layout : Layout}
      (present : state.table.types[ty]? = some kind) (base : kind.baseLayout = some layout) :
      Known state ty layout
  | array {ty element : TypeId} {len size : UInt64} {layout : Layout}
      (present : state.table.types[ty]? = some (.array element len))
      (known : Known state element layout) (sized : checkedMul layout.size len = some size) :
      Known state ty ⟨size, layout.align⟩
  | struct {ty : TypeId} {id : StructId} {entry : StructEntry}
      (present : state.table.types[ty]? = some (.struct id))
      (done : state.structState[id]? = some .done) (found : state.table.structs[id]? = some entry) :
      Known state ty entry.layout
  | enum {ty : TypeId} {id : EnumId} {entry : EnumEntry}
      (present : state.table.types[ty]? = some (.enum id))
      (done : state.enumState[id]? = some .done) (found : state.table.enums[id]? = some entry) :
      Known state ty entry.layout

/-- What is done is left alone. -/
structure Keeps (before after : LayoutState) : Prop where
  types : ∀ {ty : Nat} {kind : HirType}, before.table.types[ty]? = some kind →
    after.table.types[ty]? = some kind
  structs : ∀ {id : Nat}, before.structState[id]? = some .done →
    after.structState[id]? = some .done ∧ after.table.structs[id]? = before.table.structs[id]?
  enums : ∀ {id : Nat}, before.enumState[id]? = some .done →
    after.enumState[id]? = some .done ∧ after.table.enums[id]? = before.table.enums[id]?

structure Grows (before after : LayoutState) : Prop extends Keeps before after where
  structVisits : Advance before.structState after.structState
  enumVisits : Advance before.enumState after.enumState

variable {s before mid t : LayoutState}

theorem Keeps.trans (first : Keeps s mid) (x2 : Keeps mid t) : Keeps s t where
  types := x2.types ∘ first.types
  structs done := by
    obtain ⟨still, he⟩ := first.structs done
    obtain ⟨hl, sameLater⟩ := x2.structs still
    exact ⟨hl, sameLater.trans he⟩
  enums done := by
    obtain ⟨still, he⟩ := first.enums done
    obtain ⟨hl, sameLater⟩ := x2.enums still
    exact ⟨hl, sameLater.trans he⟩

theorem Grows.refl (s : LayoutState) : Grows s s  where
  types := id
  structs done := ⟨done, rfl⟩
  enums done := ⟨done, rfl⟩
  structVisits := .refl _
  enumVisits := .refl _

theorem Grows.trans (first : Grows s mid) (x2 : Grows mid t) : Grows s t where
  toKeeps := first.toKeeps.trans x2.toKeeps
  structVisits := first.structVisits.trans x2.structVisits
  enumVisits := first.enumVisits.trans x2.enumVisits

theorem Grows.unvisited_le (hg : Grows s t) : t.unvisited ≤ s.unvisited :=
  Nat.add_le_add hg.structVisits.count_le hg.enumVisits.count_le

theorem Known.mono {ty : TypeId} {lay : Layout} (hk : Known s ty lay)
    (hkp : Keeps s t) : Known t ty lay := by
  induction hk with
  | base hp base => exact .base (hkp.types hp) base
  | array hp _ sized ih => exact .array (hkp.types hp) ih sized
  | struct hp done hf =>
    obtain ⟨still, he⟩ := hkp.structs done
    exact .struct (hkp.types hp) still (he.trans hf)
  | enum hp done hf =>
    obtain ⟨still, he⟩ := hkp.enums done
    exact .enum (hkp.types hp) still (he.trans hf)

/-- A struct has the layout that its field types give it, and no type contains itself. -/
structure StructDone (overflow : Overflow) (declared : TypeTable) (state : LayoutState)
    (entry : StructEntry) : Prop where
  laidOut : ∃ layouts, List.Forall₂ (Known state) entry.tys layouts ∧
    structLayout overflow entry.packed entry.requestedAlign layouts =
      some (entry.fields.map (·.offset), entry.layout)
  shaped : ∃ shapes, List.Forall₂ declared.HasShape entry.tys shapes
  power : Power entry.layout.align.toNat

structure EnumDone (overflow : Overflow) (declared : TypeTable) (state : LayoutState)
    (entry : EnumEntry) : Prop where
  laidOut : ∃ payloads, List.Forall₂ (List.Forall₂ (Known state)) entry.payloads payloads ∧
    enumLayout overflow entry.tag payloads =
      some (entry.variants.map (·.payloadLayout), entry.payloadOffset, entry.layout)
  tagged : entry.tagSize = entry.tag
  shaped : ∃ payloads, List.Forall₂ (List.Forall₂ declared.HasShape) entry.payloads payloads
  power : Power entry.layout.align.toNat

/-- The table declares what it did at the start, and what is done is laid out. -/
structure Inv (overflow : Overflow) (declared : TypeTable) (state : LayoutState) : Prop where
  same : SameDeclarations declared state.table
  structStates : state.structState.length = declared.structs.length
  enumStates : state.enumState.length = declared.enums.length
  structs : ∀ {id : Nat} {entry : StructEntry}, state.structState[id]? = some .done →
    state.table.structs[id]? = some entry → StructDone overflow declared state entry
  enums : ∀ {id : Nat} {entry : EnumEntry}, state.enumState[id]? = some .done →
    state.table.enums[id]? = some entry → EnumDone overflow declared state entry

variable {ov : Overflow} {dt : TypeTable}

theorem StructDone.mono {e : StructEntry} (done : StructDone ov dt s e)
    (hkp : Keeps s t) : StructDone ov dt t e  where
  laidOut := by
    obtain ⟨ls, hk, laidOut⟩ := done.laidOut
    exact ⟨ls, hk.imp fun _ _ hk => hk.mono hkp, laidOut⟩
  shaped := done.shaped
  power := done.power

theorem EnumDone.mono {e : EnumEntry} (done : EnumDone ov dt s e)
    (hkp : Keeps s t) : EnumDone ov dt t e  where
  laidOut := by
    obtain ⟨pls, hk, laidOut⟩ := done.laidOut
    exact ⟨pls, hk.imp fun _ _ hk => hk.imp fun _ _ hk => hk.mono hkp, laidOut⟩
  tagged := done.tagged
  shaped := done.shaped
  power := done.power

theorem Inv.known_hasShape (inv : Inv ov dt s) {ty : TypeId} {lay : Layout}
    (hk : Known s ty lay) : ∃ sh, dt.HasShape ty sh := by
  induction hk with
  | base hp base => exact ⟨_, TypeTable.hasShape_base (inv.same.types ▸ hp) base⟩
  | array hp _ _ ih =>
    obtain ⟨sh, hs⟩ := ih
    exact ⟨_, (TypeTable.hasShape_array (inv.same.types ▸ hp)).mpr ⟨sh, hs, rfl⟩⟩
  | struct hp done hf =>
    obtain ⟨orig, hdh, tys, -⟩ := inv.same.struct hf
    obtain ⟨shs, hs⟩ := (inv.structs done hf).shaped
    exact ⟨_, (TypeTable.hasShape_struct (inv.same.types ▸ hp) hdh).mpr ⟨shs, tys ▸ hs, rfl⟩⟩
  | enum hp done hf =>
    obtain ⟨orig, hdh, pls, -⟩ := inv.same.enum hf
    obtain ⟨shs, hs⟩ := (inv.enums done hf).shaped
    exact ⟨_, (TypeTable.hasShape_enum (inv.same.types ▸ hp) hdh).mpr ⟨shs, pls ▸ hs, rfl⟩⟩

theorem Inv.forall_hasShape (inv : Inv ov dt s) {tys : List TypeId}
    {ls : List Layout} (hk : List.Forall₂ (Known s) tys ls) :
    ∃ shs, List.Forall₂ dt.HasShape tys shs := by
  induction hk with
  | nil => exact ⟨[], .nil⟩
  | cons first _ ih =>
    obtain ⟨sh, hs⟩ := inv.known_hasShape first
    obtain ⟨shs, tl⟩ := ih
    exact ⟨sh :: shs, .cons hs tl⟩

theorem Inv.forall_payloadShapes (inv : Inv ov dt s)
    {pls : List (List TypeId)} {ls : List (List Layout)}
    (hk : List.Forall₂ (List.Forall₂ (Known s)) pls ls) :
    ∃ shs, List.Forall₂ (List.Forall₂ dt.HasShape) pls shs := by
  induction hk with
  | nil => exact ⟨[], .nil⟩
  | cons first _ ih =>
    obtain ⟨sh, hs⟩ := inv.forall_hasShape first
    obtain ⟨shs, tl⟩ := ih
    exact ⟨sh :: shs, .cons hs tl⟩

theorem power_baseLayout {kind : HirType} {lay : Layout} (base : kind.baseLayout = some lay) :
    Power lay.align.toNat := by
  have byte : Power (UInt64.toNat 1) := power_one
  have two : Power (UInt64.toNat 2) := ⟨1, by decide, rfl⟩
  have four : Power (UInt64.toNat 4) := ⟨2, by decide, rfl⟩
  have eight : Power (UInt64.toNat 8) := ⟨3, by decide, rfl⟩
  unfold HirType.baseLayout at base
  split at base <;> cases base <;> assumption

theorem Inv.known_power (inv : Inv ov dt s) {ty : TypeId} {lay : Layout}
    (hk : Known s ty lay) : Power lay.align.toNat := by
  induction hk with
  | base _ base => exact power_baseLayout base
  | array _ _ _ ih => exact ih
  | struct _ done hf => exact (inv.structs done hf).power
  | enum _ done hf => exact (inv.enums done hf).power

theorem Inv.forall_power (inv : Inv ov dt s) {tys : List TypeId}
    {ls : List Layout} (hk : List.Forall₂ (Known s) tys ls) :
    Powers ls := by
  induction hk with
  | nil => exact forall_mem_nil _
  | cons first _ ih => exact forall_mem_cons.mpr ⟨inv.known_power first, ih⟩

theorem Inv.forall_powers (inv : Inv ov dt s) {pls : List (List TypeId)} {ls : List (List Layout)}
    (hk : List.Forall₂ (List.Forall₂ (Known s)) pls ls) :
    ∀ pl ∈ ls, Powers pl := by
  induction hk with
  | nil => exact forall_mem_nil _
  | cons first _ ih => exact forall_mem_cons.mpr ⟨inv.forall_power first, ih⟩

end LayoutState

end Ostadix.Ocore
