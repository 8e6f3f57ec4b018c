import Ostadix.Ocore.Lower
import Ostadix.Ocore.LayoutRun

/-! # Soundness of layouts

A table is sound if sizes are multiples of alignments, fields lie side by side inside their
struct, and payloads, where the lowering puts them, inside their enum and behind the tag. The
layouts that the pass accepts are sound, and nothing overflowed on the way, exactly if the exact
layouts stay below the limit of machine arithmetic. -/

namespace Ostadix.Ocore

open Lib Lib.Layout LayoutState List Option Nat

/-! ## Payloads as the lowering places them -/

/-- The offsets at which `initializePayload` stores the parts of a payload. -/
def payloadOffsets (overflow : Overflow) (context : TypeContext) (payloadOffset : UInt64) :
    UInt64 → List TypeId → Option (List UInt64)
  | _, [] => some []
  | offset, ty :: tys => do
      let layout ← context.layout ty
      let offset ← (overflow.alignUp offset layout.align).toOption
      let place ← (overflow.add payloadOffset offset).toOption
      let next ← (overflow.add offset layout.size).toOption
      let rest ← payloadOffsets overflow context payloadOffset next tys
      return place :: rest

theorem initializePayload_eq (cx : LowerContext) (plc : Place) (po : UInt64)
    {off : UInt64} {tys : List TypeId} {offs : List UInt64}
    (hpl : payloadOffsets .wraps cx.types po off tys = some offs)
    {fills : List (Place → BuilderM Unit)} (len : fills.length = tys.length) :
    initializePayload cx plc po off (tys.zip fills) =
      untilDiverged ((offs.zip (tys.zip fills)).map fun (off, ty, fill) =>
        fill (plc.project (.field off) ty)) := by
  induction tys generalizing off offs fills with
  | nil =>
    cases hpl
    rfl
  | cons ty tys ih =>
    cases fills with
    | nil => cases len
    | cons fill fills =>
      simp only [payloadOffsets, bind_eq_bind, bind_eq_some_iff] at hpl
      obtain ⟨lay, hf, _, hali, _, ⟨⟩, _, ⟨⟩, _, hprest, ⟨⟩⟩ := hpl
      cases hali
      have hl : initializePayload cx plc po
          (alignUp off lay.align + lay.size) (tys.zip fills) = _ :=
        ih hprest (succ.inj len)
      rw [zip_cons_cons, initializePayload, LowerContext.layout, hf]
      show unlessDiverged (fill (plc.project (.field (po + alignUp off lay.align)) ty))
        (fun _ => pure ()) (fun _ => initializePayload cx plc po
          (alignUp off lay.align + lay.size) (tys.zip fills)) = _
      rw [hl]
      rfl

/-! ## Sound tables -/

namespace TypeTable

/-- The fields of a struct lie one after the other, aligned unless the struct is packed. -/
def StructSound (table : TypeTable) (entry : StructEntry) : Prop :=
  ∃ layouts,
    List.Forall₂ (fun field layout => table.context.layout field.ty = some layout)
      entry.fields layouts ∧
    (∀ part ∈ entry.fields.zip layouts,
      part.1.offset.toNat + part.2.size.toNat ≤ entry.layout.size.toNat ∧
      (entry.packed = false → part.2.align.toNat ∣ part.1.offset.toNat)) ∧
    (entry.fields.zip layouts).Pairwise fun first second =>
      first.1.offset.toNat + first.2.size.toNat ≤ second.1.offset.toNat

/-- The parts of every payload lie one after the other, behind the tag and inside the enum. -/
def EnumSound (table : TypeTable) (entry : EnumEntry) : Prop :=
  entry.tagSize.toNat ≤ entry.payloadOffset.toNat ∧
  ∀ variant ∈ entry.variants, ∃ layouts offsets,
    List.Forall₂ (fun ty layout => table.context.layout ty = some layout)
      variant.payload layouts ∧
    payloadOffsets .traps table.context entry.payloadOffset 0 variant.payload = some offsets ∧
    offsets.length = layouts.length ∧
    (∀ part ∈ offsets.zip layouts, entry.payloadOffset.toNat ≤ part.1.toNat ∧
      part.1.toNat + part.2.size.toNat ≤ entry.layout.size.toNat) ∧
    (offsets.zip layouts).Pairwise fun first second =>
      first.1.toNat + first.2.size.toNat ≤ second.1.toNat

structure Sound (table : TypeTable) : Prop where
  types : ∀ ty < table.types.length, ∃ layout, table.context.layout ty = some layout ∧
    layout.align.toNat ∣ layout.size.toNat
  structs : ∀ entry ∈ table.structs, table.StructSound entry
  enums : ∀ entry ∈ table.enums, table.EnumSound entry

/-- Every exact layout stays below the limit of machine arithmetic. -/
structure Fits (table : TypeTable) : Prop extends NominalsFit table where
  arrays : ∀ ty element len, table.types[ty]? = some (.array element len) →
    ∃ shape, table.HasShape ty shape ∧ shape.size < 2 ^ 64

end TypeTable

/-! ## Layouts of a finished pass -/

section Finished

variable {ov : Overflow} {dt : TypeTable} {s : LayoutState}

variable {ty : TypeId} {lay : Layout}

theorem layoutWithin_known (wf : s.table.WellFormed) (hk : Known s ty lay)
    {fuel : Nat} (hen : ty < fuel) :
    s.table.context.layoutWithin fuel ty = some lay := by
  obtain ⟨fuel, rfl⟩ := Nat.exists_eq_succ_of_ne_zero (Nat.ne_zero_of_lt hen)
  induction hk generalizing fuel with
  | base hp base => exact layoutWithin_base hp base fuel
  | array hp _ sized ih =>
    have hear := Nat.lt_of_lt_of_le (wf.admits hp) (le_of_lt_succ hen)
    obtain ⟨fuel, rfl⟩ := Nat.exists_eq_succ_of_ne_zero (Nat.ne_zero_of_lt hear)
    rw [TypeContext.layoutWithin, show s.table.context.types[_]? = _ from hp]
    simp [ih fuel hear, sized]
  | struct hp done hf | enum hp done hf =>
    rw [TypeContext.layoutWithin, show s.table.context.types[_]? = _ from hp]
    simp [TypeTable.context, hf]

theorem layout_known (wf : s.table.WellFormed) (hk : Known s ty lay) :
    s.table.context.layout ty = some lay := by
  have hi : ty < s.table.types.length := by
    cases hk with
    | base hp | array hp | struct hp | enum hp =>
      exact (List.getElem?_eq_some_iff.mp hp).1
  exact layoutWithin_known wf hk hi

/-- In a finished pass a layout is the known one. -/
theorem LayoutState.Finished.known_layoutWithin (hfin : Finished ov dt s)
    (wf : dt.WellFormed) {fuel : Nat}
    (hf : s.table.context.layoutWithin fuel ty = some lay) : Known s ty lay := by
  induction fuel generalizing ty lay with
  | zero => cases hf
  | succ fuel ih =>
    rw [TypeContext.layoutWithin] at hf
    cases hp : s.table.types[ty]? with
    | none =>
      rw [show s.table.context.types[ty]? = none from hp] at hf
      cases hf
    | some kind =>
      have hadm := wf.admits (hfin.same.types ▸ hp)
      cases kind with
      | array =>
        rw [show s.table.context.types[ty]? = _ from hp] at hf
        simp only [bind_eq_bind, bind_eq_some_iff] at hf
        obtain ⟨_, innerFound, _, sized, ⟨⟩⟩ := hf
        exact .array hp (ih innerFound) sized
      | struct id =>
        rw [show s.table.context.types[ty]? = _ from hp] at hf
        simp only [TypeTable.context, getElem?_map, Option.map_map, Option.map_eq_some_iff] at hf
        obtain ⟨e, hh, rfl⟩ := hf
        exact .struct hp (hfin.structsDone id hadm) hh
      | enum id =>
        rw [show s.table.context.types[ty]? = _ from hp] at hf
        simp only [TypeTable.context, getElem?_map, Option.map_map, Option.map_eq_some_iff] at hf
        obtain ⟨e, hh, rfl⟩ := hf
        exact .enum hp (hfin.enumsDone id hadm) hh
      | _ =>
        obtain ⟨base, isBase⟩ := hadm.exists_baseLayout (by simp) (by simp) (by simp)
        have he := layoutWithin_base (show s.table.context.types[ty]? = _ from hp) isBase fuel
        rw [TypeContext.layoutWithin, hf] at he
        cases he
        exact .base hp isBase

/-- While everything fits, every type has a layout, and it is exact. -/
theorem LayoutState.Finished.exists_known (hfin : Finished ov dt s)
    (wf : dt.WellFormed) (fits : dt.Fits) {ty : Nat}
    (hi : ty < dt.types.length) : ∃ lay, Known s ty lay := by
  induction ty using Nat.strongRecOn with
  | ind ty ih =>
    obtain ⟨kind, hp, -⟩ := TypeTable.exists_unwrap hi
    have hh : s.table.types[ty]? = some kind := hfin.same.types ▸ hp
    have hadm := wf.admits hp
    cases kind with
    | array elt len =>
      obtain ⟨inn, hk⟩ := ih elt hadm (Nat.lt_trans hadm hi)
      obtain ⟨_, hs, hsm⟩ := fits.arrays ty elt len hp
      obtain ⟨_, innerShaped, rfl⟩ := (TypeTable.hasShape_array hp).mp hs
      have hex := hfin.known_exact wf (.inr fits.toNominalsFit) hk innerShaped
      have sized : checkedMul inn.size len = some (inn.size * len) := by
        rw [checkedMul, if_pos]
        rw [← hex] at hsm
        exact hsm
      exact ⟨_, .array hh hk sized⟩
    | struct id =>
      obtain ⟨e, hf, -⟩ := TypeTable.exists_unwrap
        (hfin.same.length_structs.symm ▸ (show id < dt.structs.length from hadm))
      exact ⟨_, .struct hh (hfin.structsDone id hadm) hf⟩
    | enum id =>
      obtain ⟨e, hf, -⟩ := TypeTable.exists_unwrap
        (hfin.same.length_enums.symm ▸ (show id < dt.enums.length from hadm))
      exact ⟨_, .enum hh (hfin.enumsDone id hadm) hf⟩
    | _ =>
      obtain ⟨base, isBase⟩ := hadm.exists_baseLayout (by simp) (by simp) (by simp)
      exact ⟨base, .base hh isBase⟩

/-! ## Soundness -/

/-- Items at the exact offsets of their parts, `base` further on, lie side by side. -/
theorem placed_sound {α : Type} {off : α → UInt64} {xs : List α} {ls : List Layout}
    (pk : Bool) {base : Nat} (powers : Powers ls)
    (hpl : xs.map (fun x => (off x).toNat) = (place 0 (ls.map (Layout.part pk))).map (base + ·)) :
    (∀ part ∈ xs.zip ls, base ≤ (off part.1).toNat ∧
      (off part.1).toNat + part.2.size.toNat ≤ base + stop 0 (ls.map (Layout.part pk)) ∧
      (base = 0 → (part.2.part pk).align ∣ (off part.1).toNat)) ∧
    (xs.zip ls).Pairwise fun first x2 =>
      (off first.1).toNat + first.2.size.toNat ≤ (off x2.1).toNat := by
  have hpos := parts_pos pk powers
  have zipped : (xs.zip ls).map (Prod.map (fun x => (off x).toNat) (Layout.part pk)) =
      ((place 0 (ls.map (Layout.part pk))).zip
        (ls.map (Layout.part pk))).map (Prod.map (base + ·) id) := by
    rw [← zip_map, hpl, zip_map_left]
  constructor
  · intro part hm
    obtain ⟨⟨st0, sh⟩, exactPart, he⟩ := mem_map.mp (zipped ▸ mem_map.mpr ⟨part, hm, rfl⟩)
    obtain ⟨-, ends, hali⟩ := place_bounds hpos exactPart
    have hh : base + st0 = (off part.1).toNat := congrArg Prod.fst he
    have hs : sh = part.2.part pk := congrArg Prod.snd he
    subst hs
    rw [← hh]
    refine ⟨le_add_right base st0, ?_, ?_⟩
    · rw [Nat.add_assoc]
      exact Nat.add_le_add_left ends base
    · intro atStart
      rw [atStart, Nat.zero_add]
      exact hali
  · have shifted : (((place 0 (ls.map (Layout.part pk))).zip
        (ls.map (Layout.part pk))).map (Prod.map (base + ·) id)).Pairwise
        fun first x2 => first.1 + first.2.size ≤ x2.1 := by
      rw [pairwise_map]
      refine (place_disjoint hpos).imp fun s => ?_
      show base + _ + _ ≤ base + _
      rw [Nat.add_assoc]
      exact Nat.add_le_add_left s base
    rw [← zipped, pairwise_map] at shifted
    exact shifted

theorem LayoutState.Finished.structSound (hfin : Finished ov dt s)
    (wf : dt.WellFormed) (fits : dt.NominalsFit) {e : StructEntry}
    (hm : e ∈ s.table.structs) : s.table.StructSound e := by
  obtain ⟨id, hi, hh⟩ := List.getElem_of_mem hm
  have hp : s.table.structs[id]? = some e := List.getElem?_eq_some_iff.mpr ⟨hi, hh⟩
  have done := hfin.structsDone id (hfin.same.length_structs ▸ hi)
  obtain ⟨orig, hdh, tys, pk, hreq⟩ := hfin.same.struct hp
  obtain ⟨ls, hk, hlo⟩ := (hfin.structs done hp).laidOut
  obtain ⟨shs, hs, structFits⟩ := fits.structs orig (mem_of_getElem? hdh)
  have exacts : ls.map Layout.shape = shs :=
    map_eq_of_forall₂ hk (tys ▸ hs) (hfin.known_exact wf (.inr fits))
  have powers := hfin.forall_power hk
  rw [← pk, ← hreq, ← exacts] at structFits
  have requestedPower : RequestsPower e.requestedAlign := hreq ▸ power_requested wf hdh
  obtain ⟨_, _, hxlo, hoffx, layoutExact⟩ := structLayout_exact ov powers requestedPower structFits
  rw [hlo] at hxlo
  cases hxlo
  rw [fieldParts_shape] at hoffx
  have hpl : e.fields.map (fun fd => fd.offset.toNat) =
      (place 0 (ls.map (Layout.part e.packed))).map (0 + ·) := by
    simpa [Function.comp_def] using hoffx
  obtain ⟨bnds, apart⟩ := placed_sound e.packed powers hpl
  have inStruct : stop 0 (ls.map (Layout.part e.packed)) ≤ e.layout.size.toNat := by
    have room := stop_le_enclose (power_leastAlign requestedPower).pos
      (ls.map (Layout.part e.packed))
    rw [← fieldParts_shape] at room ⊢
    exact Nat.le_trans room (Nat.le_of_eq (congrArg Shape.size layoutExact).symm)
  refine ⟨ls, ?_, ?_, apart⟩
  · exact List.forall₂_map_left_iff.mp (hk.imp fun _ _ hk =>
      layout_known (hfin.same.wellFormed wf) hk)
  · intro part hls
    obtain ⟨-, _, hali⟩ := bnds part hls
    refine ⟨by omega, fun unpacked => ?_⟩
    rw [unpacked] at hali
    exact hali rfl

/-! ### Payloads -/

theorem payloadOffsets_exact (ov : Overflow) {context : TypeContext} {po : UInt64}
    {tys : List TypeId} {ls : List Layout} (off : UInt64)
    (hf : List.Forall₂ (fun ty lay => context.layout ty = some lay) tys ls)
    (powers : Powers ls) (al : Nat) (fits : po.toNat + stop off.toNat (ls.map Layout.shape) +
      maxAlign al (ls.map Layout.shape) < 2 ^ 64) :
    ∃ offs, payloadOffsets ov context po off tys = some offs ∧ offs.map UInt64.toNat =
        (place off.toNat (ls.map Layout.shape)).map (po.toNat + ·) := by
  induction hf generalizing off al with
  | nil => exact ⟨[], rfl, rfl⟩
  | @cons ty lay tys ls hf _ ih =>
    have power := powers lay mem_cons_self
    have oths : Powers ls := (forall_mem_cons.mp powers).2
    rw [map_cons] at fits
    have whole : stop off.toNat (lay.shape :: ls.map Layout.shape) +
        maxAlign al (lay.shape :: ls.map Layout.shape) < 2 ^ 64 := by omega
    obtain ⟨alignFits, sizeFits⟩ := head_fits (shapes_pos powers) whole
    rw [payloadOffsets, map_cons, place, map_cons]
    rw [stop, maxAlign, foldl_cons] at fits
    obtain ⟨first, hpl, firstExact⟩ := ov.exists_alignUp power alignFits
    obtain ⟨next, added, nextExact⟩ := ov.exists_add
      (show first.toNat + lay.size.toNat < 2 ^ 64 from firstExact ▸ sizeFits)
    have nextStop := le_stop next.toNat (shapes_pos oths)
    rw [show roundUp off.toNat lay.shape.align + lay.shape.size = next.toNat by
      rw [nextExact, firstExact]; rfl] at fits
    obtain ⟨pos, shifted, positionExact⟩ := ov.exists_add
      (show po.toNat + first.toNat < 2 ^ 64 by omega)
    obtain ⟨offs, tl, hoffx⟩ := ih next oths _ fits
    refine ⟨pos :: offs, ?_, ?_⟩
    · simp [hf, hpl, shifted, added, tl]
    · rw [map_cons, hoffx, positionExact, nextExact, firstExact]
      rfl

/-- The payload of a variant ends where the largest payload ends, or before. -/
theorem EnumFits.inside {tagSize : Nat} {pls : List (List Shape)} {pl : List Shape}
    (hm : pl ∈ pls) (hpos : 0 < enumAlign tagSize pls) :
    payloadStart tagSize pls + stop 0 pl ≤ payloadStop tagSize pls ∧
      payloadStop tagSize pls ≤ (enumShape tagSize pls).size := by
  have hls : enclose 1 pl ∈ pls.map (enclose 1) := mem_map_of_mem hm
  have room := stop_le_enclose Nat.one_pos pl
  have size := size_le_maxSize 0 hls
  refine ⟨?_, le_roundUp _ hpos⟩
  rw [payloadStop]
  omega

theorem LayoutState.Finished.enumSound (hfin : Finished ov dt s)
    (wf : dt.WellFormed) (fits : dt.NominalsFit) {e : EnumEntry}
    (hm : e ∈ s.table.enums) : s.table.EnumSound e := by
  obtain ⟨id, hi, hh⟩ := List.getElem_of_mem hm
  have hp : s.table.enums[id]? = some e := List.getElem?_eq_some_iff.mpr ⟨hi, hh⟩
  have done := hfin.enumsDone id (hfin.same.length_enums ▸ hi)
  obtain ⟨orig, hdh, pls, tag⟩ := hfin.same.enum hp
  obtain ⟨ls, hk, hlo⟩ := (hfin.enums done hp).laidOut
  obtain ⟨shs, hs, enumFits⟩ := fits.enums orig (mem_of_getElem? hdh)
  have exacts : ls.map (.map Layout.shape) = shs :=
    map_eq_of_forall₂ hk (pls ▸ hs) fun hk hs =>
      map_eq_of_forall₂ hk hs (hfin.known_exact wf (.inr fits))
  have powers := hfin.forall_powers hk
  rw [← tag, ← exacts] at enumFits
  obtain ⟨_, _, _, hxlo, offsetExact, layoutExact⟩ :=
    enumLayout_exact ov powers (power_tag e) enumFits
  rw [hlo] at hxlo
  cases hxlo
  have alignPos : 0 < payloadAlign (ls.map (.map Layout.shape)) := least_le_maxAlign 1 _
  refine ⟨?_, ?_⟩
  · rw [(hfin.enums done hp).tagged, offsetExact]
    exact le_roundUp _ alignPos
  · intro vr hls
    obtain ⟨pl, payloadListed, payloadKnown⟩ := exists_of_forall₂ hk (mem_map_of_mem hls)
    have hf := payloadKnown.imp fun _ _ hk =>
      layout_known (hfin.same.wellFormed wf) hk
    have shapeListed : pl.map Layout.shape ∈ ls.map (.map Layout.shape) :=
      mem_map_of_mem payloadListed
    obtain ⟨ends, inEnum⟩ := EnumFits.inside shapeListed
      (Nat.lt_of_lt_of_le alignPos (Nat.le_max_left _ e.tag.toNat))
    have sizeExact : e.layout.size.toNat = _ := congrArg Shape.size layoutExact
    rw [← offsetExact] at ends
    have payloadFits : e.payloadOffset.toNat + stop 0 (pl.map Layout.shape) +
        maxAlign 1 (pl.map Layout.shape) < 2 ^ 64 := by
      have enclosed : enclose 1 (pl.map Layout.shape) ∈
          (ls.map (.map Layout.shape)).map (enclose 1) := mem_map_of_mem shapeListed
      have al : maxAlign 1 (pl.map Layout.shape) ≤ payloadAlign _ := align_le_maxAlign 1 enclosed
      rw [EnumFits, enumAlign] at enumFits
      omega
    obtain ⟨offs, hpl, hoffx⟩ := payloadOffsets_exact .traps 0 hf
      (powers pl payloadListed) 1 payloadFits
    obtain ⟨bnds, apart⟩ := placed_sound false (powers pl payloadListed) hoffx
    refine ⟨pl, offs, hf, hpl, ?_, ?_, apart⟩
    · simpa [length_place] using congrArg List.length hoffx
    · intro part part_listed
      obtain ⟨starts, partEnds, -⟩ := bnds part part_listed
      rw [sizeExact]
      exact ⟨starts, Nat.le_trans partEnds (Nat.le_trans ends inEnum)⟩

/-! ### Whole tables -/

theorem LayoutState.Finished.sound (hfin : Finished ov dt s)
    (wf : dt.WellFormed) (fits : dt.Fits) : s.table.Sound  where
  types := by
    intro ty hi
    obtain ⟨lay, hk⟩ := hfin.exists_known wf fits (hfin.same.types ▸ hi)
    obtain ⟨_, hs⟩ := hfin.known_hasShape hk
    have hex := hfin.known_exact wf (.inr fits.toNominalsFit) hk hs
    refine ⟨lay, layout_known (hfin.same.wellFormed wf) hk, ?_⟩
    have divides := (hs.aligned wf).2
    rw [← hex] at divides
    exact divides
  structs _ hm := hfin.structSound wf fits.toNominalsFit hm
  enums _ hm := hfin.enumSound wf fits.toNominalsFit hm

/-- Where overflows trap, what is laid out fits. -/
theorem LayoutState.Finished.nominalsFit (hfin : Finished .traps dt s)
    (wf : dt.WellFormed) : dt.NominalsFit  where
  structs := by
    intro e hm
    obtain ⟨id, hi, hh⟩ := List.getElem_of_mem hm
    have hdh : dt.structs[id]? = some e := List.getElem?_eq_some_iff.mpr ⟨hi, hh⟩
    obtain ⟨laid, hp, tys, pk, hreq⟩ := hfin.same.symm.struct hdh
    obtain ⟨ls, hk, hlo⟩ := (hfin.structs (hfin.structsDone id hi) hp).laidOut
    obtain ⟨shs, hs⟩ := hfin.forall_hasShape hk
    have exacts : ls.map Layout.shape = shs :=
      map_eq_of_forall₂ hk hs (hfin.known_exact wf (.inl rfl))
    rw [← tys] at hk hs
    rw [← pk, ← hreq] at hlo
    subst exacts
    exact ⟨_, hs, hfin.structFits wf (.inl rfl) hdh hk hs hlo⟩
  enums := by
    intro e hm
    obtain ⟨id, hi, hh⟩ := List.getElem_of_mem hm
    have hdh : dt.enums[id]? = some e := List.getElem?_eq_some_iff.mpr ⟨hi, hh⟩
    obtain ⟨laid, hp, pls, tag⟩ := hfin.same.symm.enum hdh
    obtain ⟨ls, hk, hlo⟩ := (hfin.enums (hfin.enumsDone id hi) hp).laidOut
    obtain ⟨shs, hs⟩ := hfin.forall_payloadShapes hk
    have exacts : ls.map (.map Layout.shape) = shs :=
      map_eq_of_forall₂ hk hs fun hk hs =>
        map_eq_of_forall₂ hk hs (hfin.known_exact wf (.inl rfl))
    rw [← pls] at hk hs
    rw [← tag] at hlo
    subst exacts
    exact ⟨_, hs, hfin.enumFits (.inl rfl) hdh hk hs hlo⟩

/-- Where overflows trap and every type has a layout, everything fits. -/
theorem LayoutState.Finished.fits (hfin : Finished .traps dt s) (wf : dt.WellFormed)
    (total : ∀ ty < dt.types.length, ∃ lay, s.table.context.layout ty = some lay) :
    dt.Fits where
  toNominalsFit := hfin.nominalsFit wf
  arrays := by
    intro ty elt len hp
    obtain ⟨lay, hf⟩ := total ty (List.getElem?_eq_some_iff.mp hp).1
    have hk := hfin.known_layoutWithin wf hf
    obtain ⟨sh, hs⟩ := hfin.known_hasShape hk
    have hex := hfin.known_exact wf (.inl rfl) hk hs
    refine ⟨sh, hs, ?_⟩
    rw [← hex]
    exact lay.size.toNat_lt

end Finished

/-! ## Types interned after the pass -/

section Extension

variable {ov : Overflow} {dt final : TypeTable} {s : LayoutState}

theorem TypeTable.Extends.keeps (hext : s.table.Extends final) :
    Keeps s { s with table := final } where
  types hp := getElem?_of_prefix hext.types hp
  structs done := ⟨done, congrArg (·[_]?) hext.structs⟩
  enums done := ⟨done, congrArg (·[_]?) hext.enums⟩

theorem TypeTable.includes_types {types : List HirType} (hgn : dt.types <+: types) :
    dt.Includes { dt with types } where
  types hp := getElem?_of_prefix hgn hp
  structs hp := ⟨_, hp, rfl, rfl, rfl⟩
  enums hp := ⟨_, hp, rfl, rfl⟩

/-- A finished pass is one for the later table as well. -/
theorem LayoutState.Finished.extend (hfin : Finished ov dt s) (hext : s.table.Extends final) :
    Finished ov { dt with types := final.types } { s with table := final } where
  same := ⟨rfl, hext.structs ▸ hfin.same.structs, hext.enums ▸ hfin.same.enums⟩
  structStates := hfin.structStates
  enumStates := hfin.enumStates
  structs := by
    intro id e done hf
    have includes := TypeTable.includes_types (hfin.same.types ▸ hext.types)
    have still := (hfin.structs done (hext.structs ▸ hf)).mono hext.keeps
    obtain ⟨shs, hs⟩ := still.shaped
    exact ⟨still.laidOut, ⟨shs, hs.imp fun _ _ => includes.hasShape⟩, still.power⟩
  enums := by
    intro id e done hf
    have includes := TypeTable.includes_types (hfin.same.types ▸ hext.types)
    have still := (hfin.enums done (hext.enums ▸ hf)).mono hext.keeps
    obtain ⟨shs, hs⟩ := still.shaped
    exact ⟨still.laidOut, still.tagged,
      ⟨shs, hs.imp fun _ _ hs => hs.imp fun _ _ => includes.hasShape⟩, still.power⟩
  structsDone := hfin.structsDone
  enumsDone := hfin.enumsDone

end Extension

/-! ## Trapping and wrapping runs -/

/-- A computation does what another does, unless it stops the compiler. -/
def Agrees {α : Type} (trapping wrapping : LayoutM α) : Prop :=
  ∀ state, trapping state = .error .panic ∨ trapping state = wrapping state

namespace Agrees

variable {α β : Type}

theorem refl (action : LayoutM α) : Agrees action action :=
  fun _ => .inr rfl

theorem bind {first first' : LayoutM α} {next next' : α → LayoutM β}
    (agrees : Agrees first first') (hl : ∀ r, Agrees (next r) (next' r)) :
    Agrees (first >>= next) (first' >>= next') := by
  intro s
  obtain stopped | he := agrees s
  · left
    show Except.bind (first s) _ = _
    rw [stopped]
    rfl
  · show Except.bind (first s) _ = _ ∨ Except.bind (first s) _ = Except.bind (first' s) _
    rw [he]
    cases first' s with
    | error => exact .inr rfl
    | ok r => exact hl r.1 r.2

theorem forM {xs : List α} {step step' : α → LayoutM Unit}
    (agrees : ∀ x, Agrees (step x) (step' x)) :
    Agrees (xs.forM step) (xs.forM step') := by
  induction xs with
  | nil => exact refl _
  | cons x xs ih => exact bind (agrees x) fun _ => ih

theorem add (left right : UInt64) :
    Agrees (liftM (Overflow.add .traps left right)) (liftM (Overflow.add .wraps left right)) := by
  intro s
  rw [Overflow.add, Overflow.add, checkedAdd]
  split
  · exact .inr rfl
  · exact .inl rfl

theorem alignUp (v al : UInt64) : Agrees (liftM (Overflow.alignUp .traps v al))
      (liftM (Overflow.alignUp .wraps v al)) := by
  intro s
  rw [Overflow.alignUp, Overflow.alignUp, Overflow.add, Overflow.add, checkedAdd]
  split
  · exact .inr rfl
  · exact .inl rfl

section Pass

variable {layoutType layoutType' : TypeId → LayoutM Layout}

section

variable (agrees : ∀ ty, Agrees (layoutType ty) (layoutType' ty))

include agrees

theorem placeFields (pk : Bool) (off ma : UInt64) (tys : List TypeId) :
    Agrees (Ocore.placeFields .traps layoutType pk off ma tys)
      (Ocore.placeFields .wraps layoutType' pk off ma tys) := by
  induction tys generalizing off ma with
  | nil => exact refl _
  | cons ty tys ih =>
    refine bind (agrees ty) fun lay => bind (alignUp _ _) fun off => ?_
    cases checkedAdd off lay.size with
    | none => exact refl _
    | some => exact bind (ih _ _) fun _ => refl _

theorem layoutStruct (id : StructId) :
    Agrees (Ocore.layoutStruct .traps layoutType id) (Ocore.layoutStruct .wraps layoutType' id) := by
  refine bind (refl _) fun s => bind (refl _) fun visit => ?_
  cases visit with
  | done | active => exact refl _
  | unvisited =>
    refine bind (refl _) fun _ => bind (refl _) fun s => bind (refl _) fun e => ?_
    exact bind (placeFields agrees _ _ _ _) fun _ => bind (alignUp _ _) fun _ => refl _

theorem placePayload (off al : UInt64) (tys : List TypeId) :
    Agrees (Ocore.placePayload .traps layoutType off al tys)
      (Ocore.placePayload .wraps layoutType' off al tys) := by
  induction tys generalizing off al with
  | nil => exact refl _
  | cons ty tys ih =>
    exact bind (agrees ty) fun lay => bind (alignUp _ _) fun _ => bind (add _ _) fun _ => ih _ _

theorem placePayloads (maxSize ma : UInt64) (pls : List (List TypeId)) :
    Agrees (Ocore.placePayloads .traps layoutType maxSize ma pls)
      (Ocore.placePayloads .wraps layoutType' maxSize ma pls) := by
  induction pls generalizing maxSize ma with
  | nil => exact refl _
  | cons pl pls ih =>
    refine bind (placePayload agrees _ _ _) fun last => bind (alignUp _ _) fun size => ?_
    exact bind (ih _ _) fun _ => refl _

theorem layoutEnum (id : EnumId) :
    Agrees (Ocore.layoutEnum .traps layoutType id) (Ocore.layoutEnum .wraps layoutType' id) := by
  refine bind (refl _) fun s => bind (refl _) fun visit => ?_
  cases visit with
  | done | active => exact refl _
  | unvisited =>
    refine bind (refl _) fun _ => bind (refl _) fun s => bind (refl _) fun e => ?_
    refine bind (placePayloads agrees _ _ _) fun _ => bind (alignUp _ _) fun po => ?_
    exact bind (add _ _) fun _ => bind (alignUp _ _) fun _ => refl _

end

end Pass

theorem layoutType (fuel : Nat) (ty : TypeId) :
    Agrees (Ocore.layoutType .traps fuel ty) (Ocore.layoutType .wraps fuel ty) := by
  induction fuel generalizing ty with
  | zero => exact refl _
  | succ fuel ih =>
    refine bind (refl _) fun s => bind (refl _) fun kind => ?_
    cases kind with
    | struct id => exact bind (layoutStruct ih id) fun _ => refl _
    | enum id => exact bind (layoutEnum ih id) fun _ => refl _
    | array elt => exact bind (ih elt) fun _ => refl _
    | _ => exact refl _

theorem computeLayoutsM (tb : TypeTable) :
    Agrees (Ocore.computeLayoutsM .traps tb) (Ocore.computeLayoutsM .wraps tb) :=
  bind (forM (layoutStruct (layoutType _))) fun _ => forM (layoutEnum (layoutType _))

end Agrees

/-! ## The layouts of a program -/

section Layouts

variable {dt out final : TypeTable}

/-- The pass panics only where overflows trap and something does not fit. -/
theorem computeLayouts_ends (ov : Overflow) (wf : dt.WellFormed) :
    (∃ diagnostic, computeLayouts ov dt = .error (.diagnostic diagnostic)) ∨
    (∃ s, Finished ov dt s ∧ computeLayouts ov dt = .ok s.table) ∨
    computeLayouts ov dt = .error .panic ∧ ov = .traps ∧ ¬dt.NominalsFit := by
  have ends : Ends (ov = .traps ∧ ¬dt.NominalsFit) (computeLayoutsM ov dt (.new dt)) fun _ t =>
        Finished ov dt t :=
    ends_computeLayoutsM wf fun hstr =>
      Classical.not_not.mp fun misfit => hstr.2 ⟨hstr.1, misfit⟩
  rw [computeLayouts]
  revert ends
  cases computeLayoutsM ov dt (.new dt) with
  | ok r => exact fun hfin => .inr (.inl ⟨r.2, hfin, rfl⟩)
  | error error =>
    cases error with
    | diagnostic diagnostic => exact fun _ => .inl ⟨diagnostic, rfl⟩
    | panic => exact fun misfit => .inr (.inr ⟨rfl, misfit⟩)

theorem computeLayouts_finished {ov : Overflow} (wf : dt.WellFormed)
    (laid : computeLayouts ov dt = .ok out) :
    ∃ s, Finished ov dt s ∧ s.table = out := by
  obtain ⟨_, hfl⟩ | ⟨s, hfin, ok⟩ | ⟨hfl, -⟩ := computeLayouts_ends ov wf
  · rw [hfl] at laid
    cases laid
  · rw [ok] at laid
    exact ⟨s, hfin, Except.ok.inj laid⟩
  · rw [hfl] at laid
    cases laid

/-- A table fits by its declarations alone. -/
theorem SameDeclarations.includes (he : SameDeclarations dt final) : dt.Includes final where
  types hp := he.types ▸ hp
  structs hp := he.symm.struct hp |>.imp fun _ hf =>
    ⟨hf.1, hf.2.1.symm, hf.2.2.1.symm, hf.2.2.2.symm⟩
  enums hp := he.symm.enum hp |>.imp fun _ hf =>
    ⟨hf.1, hf.2.1.symm, hf.2.2.symm⟩

theorem SameDeclarations.fits (he : SameDeclarations dt final) (fits : dt.Fits) : final.Fits where
  structs := by
    intro e hm
    obtain ⟨id, hi, rfl⟩ := getElem_of_mem hm
    obtain ⟨orig, hf, tys, pk, hreq⟩ := he.struct (getElem?_eq_getElem hi)
    obtain ⟨shs, hs, structFits⟩ := fits.structs orig (mem_of_getElem? hf)
    rw [tys, pk, hreq]
    exact ⟨shs, hs.imp fun _ _ => he.includes.hasShape, structFits⟩
  enums := by
    intro e hm
    obtain ⟨id, hi, rfl⟩ := getElem_of_mem hm
    obtain ⟨orig, hf, pls, tag⟩ := he.enum (getElem?_eq_getElem hi)
    obtain ⟨shs, hs, enumFits⟩ := fits.enums orig (mem_of_getElem? hf)
    rw [pls, tag]
    exact ⟨shs, hs.imp fun _ _ hs => hs.imp fun _ _ => he.includes.hasShape, enumFits⟩
  arrays := by
    intro ty elt len hp
    obtain ⟨sh, hs, hsm⟩ := fits.arrays ty elt len (he.types ▸ hp)
    exact ⟨sh, he.includes.hasShape hs, hsm⟩

end Layouts

end Ostadix.Ocore
