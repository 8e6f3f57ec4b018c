import Ostadix.Ocore.LayoutPass

/-! # Runs of the layout pass

Every function of the pass keeps the invariant. While the exact layouts of structs and enums stay
below the limit of machine arithmetic, the layouts of the pass are the exact ones and nothing
overflows. -/

namespace Ostadix.Ocore

open Lib Lib.Layout LayoutState List Option Nat

/-- No sum in the layout of a struct or an enum reaches the limit of machine arithmetic. -/
structure TypeTable.NominalsFit (table : TypeTable) : Prop where
  structs : ∀ entry ∈ table.structs, ∃ shapes, List.Forall₂ table.HasShape entry.tys shapes ∧
    StructFits entry.packed entry.requestedAlign shapes
  enums : ∀ entry ∈ table.enums, ∃ payloads,
    List.Forall₂ (List.Forall₂ table.HasShape) entry.payloads payloads ∧
    EnumFits entry.tag.toNat payloads

/-! ## Exact layouts -/

variable {lay : Layout}

variable {ty : TypeId} {tys : List TypeId} {id : StructId} {e : StructEntry}
  {ls : List Layout}

section Exact

variable {ov : Overflow} {dt : TypeTable} {s : LayoutState}

theorem map_eq_of_forall₂ {α β γ : Type} {rel : α → β → Prop} {rel2 : α → γ → Prop}
    {view : β → γ} {xs : List α} {vs : List β} {shs : List γ}
    (left : List.Forall₂ rel xs vs) (right : List.Forall₂ rel2 xs shs)
    (hex : ∀ {x v sh}, rel x v → rel2 x sh → view v = sh) :
    vs.map view = shs := by
  induction left generalizing shs with
  | nil =>
    cases right
    rfl
  | cons first _ ih =>
    cases right with
    | cons sh tl => rw [map_cons, hex first sh, ih tl]

theorem shapes_unique {first x2 : List Shape} (one : List.Forall₂ dt.HasShape tys first)
    (o : List.Forall₂ dt.HasShape tys x2) : first = x2 :=
  (map_id first).symm.trans (map_eq_of_forall₂ one o TypeTable.HasShape.unique)

theorem payloadShapes_unique {pls : List (List TypeId)} {first x2 : List (List Shape)}
    (one : List.Forall₂ (List.Forall₂ dt.HasShape) pls first)
    (o : List.Forall₂ (List.Forall₂ dt.HasShape) pls x2) : first = x2 :=
  (map_id first).symm.trans (map_eq_of_forall₂ one o shapes_unique)

theorem power_requested (wf : dt.WellFormed)
    (hp : dt.structs[id]? = some e) : RequestsPower e.requestedAlign := by
  intro al hreq
  obtain ⟨ex, _, power⟩ := wf.aligns e (mem_of_getElem? hp) al hreq
  exact ⟨ex, by omega, power⟩

theorem power_tag (e : EnumEntry) : Power e.tag.toNat := by
  rw [EnumEntry.tag, tagSizeFor]
  split
  · exact power_one
  · split
    · exact ⟨1, by decide, rfl⟩
    · exact ⟨2, by decide, rfl⟩

theorem toNat_checkedMul {left right product : UInt64}
    (multiplied : checkedMul left right = some product) :
    product.toNat = left.toNat * right.toNat := by
  rw [checkedMul] at multiplied
  split at multiplied
  · rename_i fits
    cases multiplied
    rw [UInt64.toNat_mul, mod_eq_of_lt fits]
  · cases multiplied

/-- A struct fits because overflows trap and it has a layout, or because all structs do. -/
theorem LayoutState.Inv.structFits (inv : Inv ov dt s)
    (wf : dt.WellFormed) (trusted : ov = .traps ∨ dt.NominalsFit) (hp : dt.structs[id]? = some e)
    (hk : List.Forall₂ (Known s) e.tys ls)
    (hs : List.Forall₂ dt.HasShape e.tys (ls.map Layout.shape)) {r : List UInt64 × Layout}
    (hlo : structLayout ov e.packed e.requestedAlign ls = some r) :
    StructFits e.packed e.requestedAlign (ls.map Layout.shape) := by
  obtain rfl | fit := trusted
  · exact structFits_of_traps (inv.forall_power hk) (power_requested wf hp) hlo
  · obtain ⟨_, alsoShaped, fits⟩ := fit.structs e (mem_of_getElem? hp)
    rw [shapes_unique hs alsoShaped]
    exact fits

theorem LayoutState.Inv.enumFits (inv : Inv ov dt s) (trusted : ov = .traps ∨ dt.NominalsFit)
    {id : EnumId} {e : EnumEntry} (hp : dt.enums[id]? = some e) {ls : List (List Layout)}
    (hk : List.Forall₂ (List.Forall₂ (Known s)) e.payloads ls)
    (hs : List.Forall₂ (List.Forall₂ dt.HasShape) e.payloads (ls.map (List.map Layout.shape)))
    {r : List Layout × UInt64 × Layout} (hlo : enumLayout ov e.tag ls = some r) :
    EnumFits e.tag.toNat (ls.map (List.map Layout.shape)) := by
  obtain rfl | fit := trusted
  · exact enumFits_of_traps (inv.forall_powers hk) hlo
  · obtain ⟨_, alsoShaped, fits⟩ := fit.enums e (mem_of_getElem? hp)
    rw [payloadShapes_unique hs alsoShaped]
    exact fits

theorem LayoutState.Inv.known_exact (inv : Inv ov dt s)
    (wf : dt.WellFormed) (trusted : ov = .traps ∨ dt.NominalsFit)
    {sh : Shape} (hk : Known s ty lay) (hs : dt.HasShape ty sh) :
    lay.shape = sh := by
  obtain ⟨fuel, hf⟩ := hs
  induction fuel generalizing ty lay sh with
  | zero => cases hf
  | succ fuel ih =>
    cases hk with
    | base hp base =>
      exact (TypeTable.hasShape_base (inv.same.types ▸ hp) base).unique ⟨_, hf⟩
    | array hp hk sized =>
      rw [inv.same.types] at hp
      simp only [TypeTable.shapeWithin, hp, bind_eq_bind, bind_some, bind_eq_some_iff] at hf
      obtain ⟨_, hs, ⟨⟩⟩ := hf
      rw [← ih hk hs, Layout.shape, toNat_checkedMul sized]
      rfl
    | struct hp done entryFound =>
      obtain ⟨orig, hdh, tys, pk, hreq⟩ := inv.same.struct entryFound
      obtain ⟨ls, hk, hlo⟩ := (inv.structs done entryFound).laidOut
      rw [inv.same.types] at hp
      simp only [TypeTable.shapeWithin, hp, bind_eq_bind, bind_some, bind_eq_some_iff, hdh] at hf
      obtain ⟨shs, shapedWithin, ⟨⟩⟩ := hf
      have hw := mapM_eq_some.mp shapedWithin
      rw [tys] at hk
      have exacts : ls.map Layout.shape = shs := map_eq_of_forall₂ hk hw ih
      rw [pk, hreq] at hlo
      have fits := inv.structFits wf trusted hdh hk (exacts ▸ hw.imp fun _ _ hf => ⟨_, hf⟩) hlo
      obtain ⟨_, exactLayout, hxlo, -, exactShape⟩ := structLayout_exact ov
        (inv.forall_power hk) (power_requested wf hdh) fits
      rw [hlo] at hxlo
      cases hxlo
      rw [exactShape, exacts, StructEntry.shape]
    | enum hp done entryFound =>
      obtain ⟨orig, hdh, pls, tag⟩ := inv.same.enum entryFound
      obtain ⟨ls, hk, hlo⟩ := (inv.enums done entryFound).laidOut
      rw [inv.same.types] at hp
      simp only [TypeTable.shapeWithin, hp, bind_eq_bind, bind_some, bind_eq_some_iff, hdh] at hf
      obtain ⟨shs, shapedWithin, ⟨⟩⟩ := hf
      have hw := (mapM_eq_some.mp shapedWithin).imp fun _ _ hf => mapM_eq_some.mp hf
      rw [pls] at hk
      have exacts : ls.map (.map Layout.shape) = shs :=
        map_eq_of_forall₂ hk hw fun one o => map_eq_of_forall₂ one o ih
      rw [tag] at hlo
      have fits := inv.enumFits trusted hdh hk
        (exacts ▸ hw.imp fun _ _ hs => hs.imp fun _ _ hf => ⟨_, hf⟩) hlo
      obtain ⟨_, _, exactLayout, hxlo, -, exactShape⟩ := enumLayout_exact ov
        (inv.forall_powers hk) (power_tag orig) fits
      rw [hlo] at hxlo
      cases hxlo
      rw [exactShape, exacts, EnumEntry.shape]

end Exact

/-! ## Fields and payloads -/

/-- Overflows trap, and no panic is allowed. -/
def Overflow.Strict (overflow : Overflow) (mayPanic : Prop) : Prop :=
  overflow = .traps ∧ ¬mayPanic

theorem Overflow.add_returns {ov : Overflow} {mp : Prop} {left right : UInt64}
    (returns : ov.Strict mp → ∃ sum, ov.add left right = .ok sum) :
    Returns mp (ov.add left right) := by
  by_cases hstr : ov.Strict mp
  · exact .inl (returns hstr)
  · cases ov with
    | wraps => exact .inl ⟨_, rfl⟩
    | traps =>
      have hal : mp := by simpa [Strict] using hstr
      rw [add, checkedAdd]
      split
      · exact .inl ⟨_, rfl⟩
      · exact .inr ⟨rfl, hal⟩

theorem Overflow.alignUp_returns {ov : Overflow} {mp : Prop} {v al : UInt64}
    (returns : ov.Strict mp → ∃ r, ov.alignUp v al = .ok r) :
    Returns mp (ov.alignUp v al) := by
  have added : Returns mp (ov.add v al) := by
    refine add_returns fun hstr => ?_
    obtain ⟨r, hali⟩ := returns hstr
    rw [alignUp] at hali
    cases added : ov.add v al with
    | ok sum => exact ⟨sum, rfl⟩
    | error =>
      rw [added] at hali
      cases hali
  rw [alignUp]
  obtain ⟨sum, added⟩ | ⟨panics, hal⟩ := added
  · rw [added]
    exact .inl ⟨_, rfl⟩
  · rw [panics]
    exact .inr ⟨rfl, hal⟩

theorem Overflow.alignUp_ok (ov : Overflow) {v al : UInt64} (fits : v.toNat + al.toNat < 2 ^ 64) :
    ∃ r, ov.alignUp v al = .ok r := by
  obtain ⟨_, added, -⟩ := ov.exists_add fits
  exact ⟨_, by rw [Overflow.alignUp, added]; rfl⟩

/-- The run keeps the invariant and what was done before it. -/
def Lays {α : Type} (mayPanic : Prop) (overflow : Overflow) (declared : TypeTable)
    (state : LayoutState) (run : CheckResult (α × LayoutState)) (post : α → LayoutState → Prop) :
    Prop :=
  Ends mayPanic run fun value after => Inv overflow declared after ∧ Grows state after ∧ post value after

/-- `layoutType` works on states with few enough unvisited entries for `fuel`. -/
def Recurs (mayPanic : Prop) (overflow : Overflow) (declared : TypeTable) (fuel : Nat)
    (layoutType : TypeId → LayoutM Layout) : Prop :=
  ∀ {state : LayoutState} {ty : TypeId}, Inv overflow declared state →
    ty < declared.types.length → state.unvisited * (declared.types.length + 1) + ty < fuel →
    Lays mayPanic overflow declared state (layoutType ty state) fun layout after => Known after ty layout

section Run

variable {mayPanic : Prop} {ov : Overflow} {dt : TypeTable} {fuel : Nat}
  {layoutType : TypeId → LayoutM Layout} {state : LayoutState}

theorem LayoutState.Inv.ends_layoutDiag {α : Type} (inv : Inv ov dt state)
    (wf : dt.WellFormed) (hi : ty < dt.types.length) (message : String)
    {post : α → LayoutState → Prop} : Ends mayPanic (layoutDiag ty message state) post := by
  obtain ⟨name, named⟩ := (inv.same.wellFormed wf).name_ok (inv.same.types.symm ▸ hi)
  show Ends mayPanic ((do diag "<type>" .default s!"{← state.table.name ty}: {message}" : LayoutM α) state)
    post
  exact .lift_bind named trivial

/-- The first of the parts of a struct, once its layout is known to be exact. -/
theorem fieldParts_cons (pk : Bool) (lay : Layout) (shs : List Shape) :
    fieldParts pk (lay.shape :: shs) = lay.part pk :: fieldParts pk shs := by
  cases pk with
  | true | false => rfl

theorem TypeTable.HasShape.aligned (wf : dt.WellFormed) {sh : Shape}
    (hs : dt.HasShape ty sh) : 0 < sh.align ∧ sh.align ∣ sh.size := by
  obtain ⟨fuel, hf⟩ := hs
  induction fuel generalizing ty sh with
  | zero => cases hf
  | succ fuel ih =>
    rw [shapeWithin, bind_eq_bind, bind_eq_some_iff] at hf
    obtain ⟨kind, _, hf⟩ := hf
    cases kind with try simp only [bind_eq_bind, bind_eq_some_iff] at hf
    | struct =>
      obtain ⟨e, hdh, _, -, ⟨⟩⟩ := hf
      exact ⟨Nat.lt_of_lt_of_le (power_leastAlign (power_requested wf hdh)).pos
        (least_le_maxAlign ..), dvd_roundUp ..⟩
    | enum =>
      obtain ⟨e, -, _, -, ⟨⟩⟩ := hf
      exact ⟨Nat.lt_of_lt_of_le (power_tag e).pos (Nat.le_max_right ..), dvd_roundUp ..⟩
    | array elt len =>
      obtain ⟨_, hs, ⟨⟩⟩ := hf
      exact (ih hs).imp_right (Nat.dvd_mul_right_of_dvd · len.toNat)
    | _ =>
      obtain ⟨_, base, rfl⟩ := map_eq_some_iff.mp hf
      unfold HirType.baseLayout at base
      split at base <;> cases base <;> decide

theorem shapes_align_pos (wf : dt.WellFormed) {shs : List Shape}
    (hs : List.Forall₂ dt.HasShape tys shs) : ∀ sh ∈ shs, 0 < sh.align := by
  induction hs with
  | nil => exact forall_mem_nil _
  | cons first _ ih => exact forall_mem_cons.mpr ⟨(first.aligned wf).1, ih⟩

theorem fieldParts_pos (pk : Bool) {shs : List Shape} (hpos : ∀ sh ∈ shs, 0 < sh.align) :
    ∀ part ∈ fieldParts pk shs, 0 < part.align := by
  cases pk with
  | true =>
    intro part hm
    obtain ⟨sh, -, rfl⟩ := mem_map.mp hm
    exact Nat.one_pos
  | false => exact hpos

/-- An entry that is being visited is not done, and no other entry changes. -/
theorem done_set_active {hvs : List Visit} {id : Nat} (unv : hvs[id]? = some .unvisited) {o : Nat} :
    (hvs.set id .active)[o]? = some .done ↔ hvs[o]? = some .done := by
  by_cases he : id = o
  · subst he
    rw [List.getElem?_set_self (List.getElem?_eq_some_iff.mp unv).1, unv]
    simp
  · rw [List.getElem?_set_ne he]

theorem ne_of_done {vis : List Visit} {id o : Nat} (act : vis[id]? = some .active)
    (done : vis[o]? = some .done) : id ≠ o := by
  rintro rfl
  rw [act] at done
  cases done

theorem LayoutState.Inv.markStruct (inv : Inv ov dt state)
    (unv : state.structState[id]? = some .unvisited) :
    Inv ov dt (state.markStruct id .active) ∧ Grows state (state.markStruct id .active) := by
  have advance : Advance state.structState (state.structState.set id .active) :=
    .visit unv (by decide)
  have hg : Grows state (state.markStruct id .active) :=
    ⟨⟨fun hp => hp, fun done => ⟨(done_set_active unv).mpr done, rfl⟩, fun done => ⟨done, rfl⟩⟩, advance, .refl _⟩
  refine ⟨⟨inv.same, advance.length.trans inv.structStates, inv.enumStates, ?_, ?_⟩, hg⟩
  · intro o e done hf
    exact (inv.structs ((done_set_active unv).mp done) hf).mono hg.toKeeps
  · intro o e done hf
    exact (inv.enums done hf).mono hg.toKeeps

/-- Values that are recorded in entries of the same number. -/
theorem zipWith_record {α β γ : Type} (rcd : α → β → α) (part : α → γ) (read : α → β)
    (kept : ∀ e v, part (rcd e v) = part e)
    (hwr : ∀ e v, read (rcd e v) = v) (es : List α) {vs : List β} (len : vs.length = es.length) :
    (es.zipWith rcd vs).map part = es.map part ∧ (es.zipWith rcd vs).map read = vs := by
  induction es generalizing vs with
  | nil =>
    cases length_eq_zero_iff.mp len
    exact ⟨rfl, rfl⟩
  | cons e es ih =>
    cases vs with
    | nil => cases len
    | cons =>
      obtain ⟨pts, hr⟩ := ih (Nat.succ.inj len)
      simp [kept, hwr, pts, hr]

/-- What is done once one more entry is recorded. -/
theorem finished_or_before {α : Type} {hvs : List Visit} {es : List α} {id o : Nat}
    {e hf : α} {chg : α → α} (hp : es[id]? = some e) (done : (hvs.set id .done)[o]? = some .done)
    (hh : (es.modify id chg)[o]? = some hf) :
    o = id ∧ hf = chg e ∨ hvs[o]? = some .done ∧ es[o]? = some hf := by
  by_cases he : id = o
  · subst he
    rw [getElem?_modify, hp] at hh
    exact .inl ⟨rfl, by simpa using hh.symm⟩
  · rw [List.getElem?_set_ne he] at done
    rw [getElem?_modify] at hh
    exact .inr ⟨done, by simpa [he] using hh⟩

/-- Finish the struct that is being laid out. -/
theorem LayoutState.Inv.finishStruct (inv : Inv ov dt state) (wf : dt.WellFormed)
    (act : state.structState[id]? = some .active)
    (hp : state.table.structs[id]? = some e) {offs : List UInt64}
    (hk : List.Forall₂ (Known state) e.tys ls)
    (hlo : structLayout ov e.packed e.requestedAlign ls = some (offs, lay)) :
    Inv ov dt ((state.recordStruct id offs lay).markStruct id .done) ∧
      Keeps state ((state.recordStruct id offs lay).markStruct id .done) := by
  obtain ⟨_, hdh, tys, _, hreq⟩ := inv.same.struct hp
  obtain ⟨len, power⟩ := structLayout_result (inv.forall_power hk)
    (hreq ▸ power_requested wf hdh) hlo
  obtain ⟨sameFields, sameOffsets⟩ := zipWith_record
    (fun fd offset => { fd with offset }) (fun fd => (fd.name, fd.ty)) (·.offset)
    (fun _ _ => rfl) (fun _ _ => rfl) e.fields (len.trans (hk.length_eq.symm.trans (length_map _)))
  have htys : (e.fields.zipWith (fun fd offset => { fd with offset }) offs).map
      (·.ty) = e.fields.map (·.ty) := by
    simpa [Function.comp_def] using congrArg (List.map Prod.snd) sameFields
  have hb := (List.getElem?_eq_some_iff.mp act).1
  have hkp : Keeps state ((state.recordStruct id offs lay).markStruct id .done) := by
    refine ⟨fun hp => hp, fun {o} done => ⟨?_, ?_⟩, fun done => ⟨done, rfl⟩⟩
    · exact (List.getElem?_set_ne (ne_of_done act done)).trans done
    · show (state.table.structs.modify id _)[o]? = _
      rw [getElem?_modify]
      simp [ne_of_done act done]
  refine ⟨⟨⟨inv.same.types, ?_, inv.same.enums⟩, ?_, inv.enumStates, ?_, ?_⟩, hkp⟩
  · refine (map_modify_eq hp ?_).trans inv.same.structs
    exact congrArg (fun fs => (e.name, fs, e.packed, e.requestedAlign)) sameFields
  · exact length_set.trans inv.structStates
  · intro o hf done hh
    obtain ⟨rfl, rfl⟩ | ⟨wasDone, wasHere⟩ := finished_or_before hp done hh
    · refine ⟨⟨ls, ?_, ?_⟩, ?_, power⟩
      · rw [StructEntry.tys, htys]
        exact hk.imp fun _ _ hk => hk.mono hkp
      · rw [hlo, sameOffsets]
      · rw [StructEntry.tys, htys]
        exact inv.forall_hasShape hk
    · exact (inv.structs wasDone wasHere).mono hkp
  · intro o hf done hh
    exact (inv.enums done hh).mono hkp

theorem LayoutState.Inv.markEnum (inv : Inv ov dt state) {id : EnumId}
    (unv : state.enumState[id]? = some .unvisited) :
    Inv ov dt (state.markEnum id .active) ∧ Grows state (state.markEnum id .active) := by
  have advance : Advance state.enumState (state.enumState.set id .active) := .visit unv (by decide)
  have hg : Grows state (state.markEnum id .active) :=
    ⟨⟨fun hp => hp, fun done => ⟨done, rfl⟩, fun done => ⟨(done_set_active unv).mpr done, rfl⟩⟩, .refl _, advance⟩
  refine ⟨⟨inv.same, inv.structStates, advance.length.trans inv.enumStates, ?_, ?_⟩, hg⟩
  · intro o e done hf
    exact (inv.structs done hf).mono hg.toKeeps
  · intro o e done hf
    exact (inv.enums ((done_set_active unv).mp done) hf).mono hg.toKeeps

/-- Finish the enum that is being laid out. -/
theorem LayoutState.Inv.finishEnum (inv : Inv ov dt state) {id : EnumId}
    (act : state.enumState[id]? = some .active) {e : EnumEntry}
    (hp : state.table.enums[id]? = some e) {po : UInt64}
    {hr : List Layout} {ls : List (List Layout)}
    (hk : List.Forall₂ (List.Forall₂ (Known state)) e.payloads ls)
    (hlo : enumLayout ov e.tag ls = some (hr, po, lay)) :
    Inv ov dt ((state.recordEnum id hr e.tag po lay).markEnum id .done) ∧ Keeps state
        ((state.recordEnum id hr e.tag po lay).markEnum id .done) := by
  obtain ⟨len, power⟩ := enumLayout_result (inv.forall_powers hk) (power_tag e) hlo
  obtain ⟨samePayloads, sameLayouts⟩ := zipWith_record
    (fun vr payloadLayout => { vr with payloadLayout }) (·.payload) (·.payloadLayout)
    (fun _ _ => rfl) (fun _ _ => rfl) e.variants (len.trans (hk.length_eq.symm.trans (List.length_map _)))
  have sameCount := congrArg List.length samePayloads
  rw [List.length_map, List.length_map] at sameCount
  have hb := (List.getElem?_eq_some_iff.mp act).1
  have hkp : Keeps state ((state.recordEnum id hr e.tag po lay).markEnum id .done) := by
    refine ⟨fun hp => hp, fun done => ⟨done, rfl⟩, fun {o} done => ⟨?_, ?_⟩⟩
    · exact (getElem?_set_ne (ne_of_done act done)).trans done
    · show (state.table.enums.modify id _)[o]? = _
      rw [getElem?_modify]
      simp [ne_of_done act done]
  refine ⟨⟨⟨inv.same.types, inv.same.structs, ?_⟩, inv.structStates, ?_, ?_, ?_⟩, hkp⟩
  · refine (map_modify_eq hp ?_).trans inv.same.enums
    exact congrArg (fun pls => (e.name, pls)) samePayloads
  · exact length_set.trans inv.enumStates
  · intro o hf done hh
    exact (inv.structs done hh).mono hkp
  · intro o hf done hh
    obtain ⟨rfl, rfl⟩ | ⟨wasDone, wasHere⟩ := finished_or_before hp done hh
    · refine ⟨⟨ls, ?_, ?_⟩, ?_, ?_, power⟩
      · rw [EnumEntry.payloads, samePayloads]
        exact hk.imp fun _ _ hk => hk.imp fun _ _ hk => hk.mono hkp
      · rw [EnumEntry.tag, sameCount, sameLayouts]
        exact hlo
      · rw [EnumEntry.tag, EnumEntry.tag, sameCount]
      · rw [EnumEntry.payloads, samePayloads]
        exact inv.forall_payloadShapes hk
    · exact (inv.enums wasDone wasHere).mono hkp

/-- The sums behind the payloads of an enum. -/
theorem enumLayout_steps {tagSize : UInt64} {ls : List (List Layout)}
    {hr : List Layout} {size al : UInt64} (powers : ∀ pl ∈ ls, Powers pl)
    (power : Power tagSize.toNat) (hpl : payloadLayouts ov 0 1 ls = some (hr, size, al))
    (fits : EnumFits tagSize.toNat (ls.map (List.map Layout.shape))) :
    ∃ po last total, ov.alignUp tagSize al = .ok po ∧
      ov.add po size = .ok last ∧
      ov.alignUp last (max al tagSize) = .ok total := by
  obtain ⟨_, _, _, hlo, -⟩ := enumLayout_exact ov powers power fits
  simp only [enumLayout, hpl, bind_eq_bind, bind_some, bind_eq_some_iff] at hlo
  obtain ⟨po, hali, last, added, total, totalAligned, -⟩ := hlo
  exact ⟨po, last, total, eq_ok_of_toOption hali, eq_ok_of_toOption added,
    eq_ok_of_toOption totalAligned⟩

variable {kind : HirType}

theorem layoutWithin_base {context : TypeContext} (hp : context.types[ty]? = some kind)
    (base : kind.baseLayout = some lay) (fuel : Nat) :
    context.layoutWithin (fuel + 1) ty = some lay := by
  rw [TypeContext.layoutWithin, hp]
  unfold HirType.baseLayout at base
  split at base <;> first | exact base | cases base

theorem layout_base {context : TypeContext} (hp : context.types[ty]? = some kind)
    (base : kind.baseLayout = some lay) : context.layout ty = some lay := by
  have hi := (List.getElem?_eq_some_iff.mp hp).1
  obtain ⟨_, len⟩ := Nat.exists_eq_add_of_lt (Nat.zero_lt_of_lt hi)
  rw [TypeContext.layout, len]
  exact layoutWithin_base hp base _

/-- The types other than arrays, structs and enums have a layout of their own. -/
theorem TypeTable.Admits.exists_baseLayout {id : TypeId} (hadm : dt.Admits id kind)
    (notArray : ∀ elt len, kind ≠ .array elt len) (notStruct : ∀ id, kind ≠ .struct id)
    (notEnum : ∀ id, kind ≠ .enum id) : ∃ lay, kind.baseLayout = some lay := by
  cases kind with
  | int => obtain rfl | rfl | rfl | rfl := hadm <;> exact ⟨_, rfl⟩
  | float => obtain rfl | rfl := hadm <;> exact ⟨_, rfl⟩
  | array elt len => exact absurd rfl (notArray elt len)
  | struct id => exact absurd rfl (notStruct id)
  | enum id => exact absurd rfl (notEnum id)
  | _ => exact ⟨_, rfl⟩

section Places

variable (wf : dt.WellFormed) (safe : ov.Strict mayPanic → dt.NominalsFit)
include wf safe

/-- What the exact layouts say of the next part where overflows trap. -/
theorem LayoutState.Inv.head_fits (pk : Bool) {off al : Nat}
    (inv : Inv ov dt state) (hk : Known state ty lay)
    (fits : ov.Strict mayPanic → ∃ shs, List.Forall₂ dt.HasShape (ty :: tys) shs ∧
      stop off (fieldParts pk shs) + maxAlign al (fieldParts pk shs) < 2 ^ 64)
    (hstr : ov.Strict mayPanic) :
    (off + (lay.part pk).align < 2 ^ 64 ∧
      roundUp off (lay.part pk).align + (lay.part pk).size < 2 ^ 64) ∧
    ∃ shs, List.Forall₂ dt.HasShape tys shs ∧
      stop off (lay.part pk :: fieldParts pk shs) +
        maxAlign al (lay.part pk :: fieldParts pk shs) < 2 ^ 64 := by
  obtain ⟨shs, hs, fits⟩ := fits hstr
  cases hs with
  | cons firstShape tl =>
    rw [← inv.known_exact wf (.inr (safe hstr)) hk firstShape, fieldParts_cons] at fits
    have power := Layout.part_power pk (inv.known_power hk)
    exact ⟨Ocore.head_fits (forall_mem_cons.mpr ⟨power.pos,
      fieldParts_pos pk (shapes_align_pos wf tl)⟩) fits, _, tl, fits⟩

variable (recurs : Recurs mayPanic ov dt fuel layoutType)
include recurs

theorem lays_placeFields {pk : Bool} (inv : Inv ov dt state) (hi : ∀ ty ∈ tys, ty < dt.types.length)
    (hen : state.unvisited * (dt.types.length + 1) + dt.types.length ≤ fuel) {off al : UInt64}
    (fits : ov.Strict mayPanic → ∃ shs, List.Forall₂ dt.HasShape tys shs ∧
      stop off.toNat (fieldParts pk shs) + maxAlign al.toNat (fieldParts pk shs) < 2 ^ 64) :
    Lays mayPanic ov dt state (placeFields ov layoutType pk off al tys state)
      fun r t => ∃ ls, List.Forall₂ (Known t) tys ls ∧ offsetsOf ov pk off al ls = some r := by
  induction tys generalizing state off al with
  | nil => exact ⟨inv, .refl state, [], .nil, rfl⟩
  | cons ty tys ih =>
    have first := hi ty mem_cons_self
    have hfl := Nat.lt_of_lt_of_le (Nat.add_lt_add_left first _) hen
    refine .then (recurs inv first hfl) fun lay mid ⟨inv', hg, hk⟩ => ?_
    have fewer := Nat.mul_le_mul_right (dt.types.length + 1) hg.unvisited_le
    have headFits := inv'.head_fits wf safe pk hk fits
    refine Ends.returns_bind (Overflow.alignUp_returns fun hstr =>
      ov.alignUp_ok (headFits hstr).1.1) fun hh hali => ?_
    cases added : checkedAdd hh lay.size with
    | none => exact inv'.ends_layoutDiag wf first _
    | some =>
      refine .then (ih inv' (forall_mem_cons.mp hi).2
        (by omega) ?_) fun r t laid => ?_
      · intro hstr
        obtain ⟨⟨headFits, -⟩, shs, hs, fits⟩ := headFits hstr
        have power := Layout.part_power pk (inv'.known_power hk)
        have hereExact := alignUp_exact power headFits hali
        refine ⟨shs, hs, ?_⟩
        rw [toNat_max, (checkedAdd_eq_some.mp added).2, hereExact]
        exact fits
      · obtain ⟨inv'', hg', ls, knowns, hpl⟩ := laid
        refine ⟨inv'', hg.trans hg', lay :: ls, .cons (hk.mono hg'.toKeeps) knowns, ?_⟩
        simp [offsetsOf, hali, added, hpl]

theorem lays_placePayload (inv : Inv ov dt state) (hi : ∀ ty ∈ tys, ty < dt.types.length)
    (hen : state.unvisited * (dt.types.length + 1) + dt.types.length ≤ fuel) (off al : UInt64)
    (fits : ov.Strict mayPanic → ∃ shs, List.Forall₂ dt.HasShape tys shs ∧
      stop off.toNat shs + maxAlign al.toNat shs < 2 ^ 64) :
    Lays mayPanic ov dt state (placePayload ov layoutType off al tys state)
      fun r t => ∃ ls, List.Forall₂ (Known t) tys ls ∧ payloadEnd ov off al ls = some r := by
  induction tys generalizing state off al with
  | nil => exact ⟨inv, .refl state, [], .nil, rfl⟩
  | cons ty tys ih =>
    have first := hi ty mem_cons_self
    have hfl := Nat.lt_of_lt_of_le (Nat.add_lt_add_left first _) hen
    refine .then (recurs inv first hfl) fun lay mid ⟨inv', hg, hk⟩ => ?_
    have fewer := Nat.mul_le_mul_right (dt.types.length + 1) hg.unvisited_le
    -- the parts of a payload are laid out as those of a struct that is not packed
    have headFits := inv'.head_fits wf safe false hk fits
    refine Ends.returns_bind (Overflow.alignUp_returns fun hstr =>
      ov.alignUp_ok (headFits hstr).1.1) fun hh hali => ?_
    have hereExact (hstr : ov.Strict mayPanic) :=
      alignUp_exact (inv'.known_power hk) (headFits hstr).1.1 hali
    have sizeFits (hstr : ov.Strict mayPanic) : hh.toNat + lay.size.toNat < 2 ^ 64 :=
      hereExact hstr ▸ (headFits hstr).1.2
    refine Ends.returns_bind (Overflow.add_returns fun hstr =>
      (ov.exists_add (sizeFits hstr)).imp fun _ added => added.1) fun next added => ?_
    refine (ih inv' (forall_mem_cons.mp hi).2
      (by omega) _ _ ?_).mono fun r t laid => ?_
    · intro hstr
      obtain ⟨-, shs, hs, fits⟩ := headFits hstr
      refine ⟨shs, hs, ?_⟩
      rw [toNat_max, add_exact (sizeFits hstr) added, hereExact hstr]
      exact fits
    · obtain ⟨inv'', hg', ls, knowns, hpl⟩ := laid
      refine ⟨inv'', hg.trans hg', lay :: ls, .cons (hk.mono hg'.toKeeps) knowns, ?_⟩
      simp [payloadEnd, hali, added, hpl]

theorem lays_placePayloads {pls : List (List TypeId)} (inv : Inv ov dt state)
    (hi : ∀ pl ∈ pls, ∀ ty ∈ pl, ty < dt.types.length)
    (hen : state.unvisited * (dt.types.length + 1) + dt.types.length ≤ fuel) {maxSize ma : UInt64}
    (fits : ov.Strict mayPanic → ∃ shs, List.Forall₂ (List.Forall₂ dt.HasShape) pls shs ∧
      ∀ pl ∈ shs, PayloadFits pl) :
    Lays mayPanic ov dt state (placePayloads ov layoutType maxSize ma pls state)
      fun r t => ∃ ls, List.Forall₂ (List.Forall₂ (Known t)) pls ls ∧
        payloadLayouts ov maxSize ma ls = some r := by
  induction pls generalizing state maxSize ma with
  | nil => exact ⟨inv, .refl state, [], .nil, rfl⟩
  | cons pl pls ih =>
    have headFits (hstr : ov.Strict mayPanic) : ∃ shs,
        List.Forall₂ dt.HasShape pl shs ∧ PayloadFits shs := by
      obtain ⟨shs, hs, fits⟩ := fits hstr
      cases hs with
      | cons first => exact ⟨_, first, fits _ mem_cons_self⟩
    refine .then (lays_placePayload wf safe recurs inv
      (hi pl mem_cons_self) hen 0 1 headFits) fun r mid ⟨inv', hg, ls, hk, hpl⟩ => ?_
    obtain ⟨last, lg⟩ := r
    have fewer := mul_le_mul_right (dt.types.length + 1) hg.unvisited_le
    have lastFits (hstr : ov.Strict mayPanic) : last.toNat + lg.toNat < 2 ^ 64 := by
      obtain ⟨shs, hs, payloadFits⟩ := headFits hstr
      have exacts : ls.map Layout.shape = shs :=
        map_eq_of_forall₂ hk hs (inv'.known_exact wf (.inr (safe hstr)))
      rw [hstr.1] at hpl
      obtain ⟨_, hpl⟩ := offsetsOf_of_payloadEnd hpl
      obtain ⟨hlx, hlgx⟩ := offsetsOf_traps (inv'.forall_power hk) hpl
      rw [hlx, hlgx]
      exact exacts ▸ payloadFits
    refine Ends.returns_bind (Overflow.alignUp_returns fun hstr =>
      ov.alignUp_ok (lastFits hstr)) fun size hali => .then (ih inv'
      (forall_mem_cons.mp hi).2 (by omega) ?_)
      fun r t laid => ?_
    · intro hstr
      obtain ⟨shs, hs, fits⟩ := fits hstr
      cases hs with
      | cons _ tl =>
        exact ⟨_, tl, (forall_mem_cons.mp fits).2⟩
    · obtain ⟨inv'', hg', oths, knowns, hprest⟩ := laid
      refine ⟨inv'', hg.trans hg', ls :: oths,
        .cons (hk.imp fun _ _ hk => hk.mono hg'.toKeeps) knowns, ?_⟩
      simp [payloadLayouts, hpl, hali, hprest]

theorem lays_layoutStruct (inv : Inv ov dt state) (hi : id < dt.structs.length)
    (hen : state.unvisited * (dt.types.length + 1) ≤ fuel + 1) :
    Lays mayPanic ov dt state (layoutStruct ov layoutType id state)
      fun _ t => t.structState[id]? = some .done := by
  have hvis : id < state.structState.length := inv.structStates ▸ hi
  obtain ⟨visit, hp, unwrapped⟩ := TypeTable.exists_unwrap hvis
  rw [layoutStruct]
  refine .get_bind (.lift_bind unwrapped ?_)
  cases visit with
  | done => exact ⟨inv, .refl state, hp⟩
  | active =>
    refine .get_bind (inv.ends_layoutDiag wf ?_ _)
    cases hf : state.internedTypeForStruct id with
    | none => exact wf.types_pos
    | some =>
      rw [← inv.same.types]
      exact (idxOf?_eq_some_iff.mp hf).1
  | unvisited =>
    refine .modify_bind (.get_bind ?_)
    obtain ⟨marked, hg⟩ := inv.markStruct hp
    obtain ⟨e, hh, hunw⟩ := TypeTable.exists_unwrap (inv.same.length_structs.symm ▸ hi)
    obtain ⟨orig, hdh, tys, pk, hreq⟩ := inv.same.struct hh
    have requestsPower := power_requested wf hdh
    have fewer : (state.markStruct id .active).unvisited + 1 = state.unvisited := by
      have := count_set_visit hp (show Visit.active ≠ .unvisited by decide)
      simp only [LayoutState.unvisited, LayoutState.markStruct]
      omega
    refine .lift_bind hunw (.then (lays_placeFields wf safe recurs marked
      ?_ ?_ ?_) fun r t laid => ?_)
    · intro ty hm
      obtain ⟨fd, hls, rfl⟩ := mem_map.mp hm
      rw [← inv.same.types]
      exact (inv.same.wellFormed wf).fields e (mem_of_getElem? hh) fd hls
    · rw [← fewer, Nat.add_mul] at hen
      omega
    · intro hstr
      obtain ⟨shs, hs, fits⟩ := (safe hstr).structs orig (mem_of_getElem? hdh)
      rw [← tys] at hs
      refine ⟨shs, hs, ?_⟩
      rw [pk]
      exact fits.fieldsFit requestsPower
    · obtain ⟨inv', hg', ls, hk, hpl⟩ := laid
      obtain ⟨offs, last, lg⟩ := r
      -- the end of the struct
      have lastFits (hstr : ov.Strict mayPanic) :
          last.toNat + (alignWith e.requestedAlign lg).toNat < 2 ^ 64 := by
        rw [hstr.1] at hpl
        obtain ⟨hlx, hlgx⟩ := offsetsOf_traps (inv'.forall_power hk) hpl
        obtain ⟨shs, hs, fits⟩ := (safe hstr).structs orig (mem_of_getElem? hdh)
        rw [← tys] at hs
        have exacts : ls.map Layout.shape = shs :=
          map_eq_of_forall₂ hk hs (inv'.known_exact wf (.inr (safe hstr)))
        rw [hreq, toNat_alignWith requestsPower hlgx, hlx]
        rw [← exacts, StructFits, structShape, enclose, ← pk, fieldParts_shape] at fits
        exact fits
      refine Ends.returns_bind (Overflow.alignUp_returns fun hstr =>
        ov.alignUp_ok (lastFits hstr)) fun size hali => ?_
      change ov.alignUp last (alignWith e.requestedAlign lg) = .ok size at hali
      have hlo : structLayout ov e.packed e.requestedAlign ls =
          some (offs, ⟨size, alignWith e.requestedAlign lg⟩) := by
        simp [structLayout, hpl, hali]
      -- the entry may have been read again, but it declares what it did
      obtain ⟨last, stillHere, -⟩ := TypeTable.exists_unwrap (inv'.same.length_structs.symm ▸ hi)
      obtain ⟨again, declaredAgain, lastTys, lastPacked, lastRequested⟩ := inv'.same.struct stillHere
      cases hdh.symm.trans declaredAgain
      have active : t.structState[id]? = some .active :=
        hg'.structVisits.active (getElem?_set_self hvis)
      rw [pk, hreq, ← lastPacked, ← lastRequested] at hlo
      obtain ⟨hfin, keeps⟩ := inv'.finishStruct wf active stillHere
        (lastTys.trans tys.symm ▸ hk) hlo
      rw [lastRequested, ← hreq] at hfin keeps
      have advance := Advance.finish hp hg'.structVisits
      refine ⟨hfin, ?_, List.getElem?_set_self (List.getElem?_eq_some_iff.mp active).1⟩
      exact ⟨hg.toKeeps.trans (hg'.toKeeps.trans keeps), advance, hg'.enumVisits⟩

theorem lays_layoutEnum (inv : Inv ov dt state) {id : EnumId} (hi : id < dt.enums.length)
    (hen : state.unvisited * (dt.types.length + 1) ≤ fuel + 1) :
    Lays mayPanic ov dt state (layoutEnum ov layoutType id state)
      fun _ t => t.enumState[id]? = some .done := by
  have hvis : id < state.enumState.length := inv.enumStates ▸ hi
  obtain ⟨visit, hp, unwrapped⟩ := TypeTable.exists_unwrap hvis
  obtain ⟨e, hh, hunw⟩ := TypeTable.exists_unwrap (inv.same.length_enums.symm ▸ hi)
  rw [layoutEnum]
  refine .get_bind (.lift_bind unwrapped ?_)
  cases visit with
  | done => exact ⟨inv, .refl state, hp⟩
  | active => exact .get_bind (.lift_bind hunw trivial)
  | unvisited =>
    refine .modify_bind (.get_bind ?_)
    obtain ⟨marked, hg⟩ := inv.markEnum hp
    obtain ⟨orig, hdh, pls, tag⟩ := inv.same.enum hh
    have fewer : (state.markEnum id .active).unvisited + 1 = state.unvisited := by
      have := count_set_visit hp (show Visit.active ≠ .unvisited by decide)
      simp only [LayoutState.unvisited, LayoutState.markEnum]
      omega
    have entryFits (hstr : ov.Strict mayPanic) : ∃ shs,
        List.Forall₂ (List.Forall₂ dt.HasShape) e.payloads shs ∧
        EnumFits e.tag.toNat shs := by
      obtain ⟨shs, hs, fits⟩ := (safe hstr).enums orig (mem_of_getElem? hdh)
      exact ⟨shs, pls ▸ hs, tag ▸ fits⟩
    refine .lift_bind hunw (.then (lays_placePayloads wf safe recurs
      marked ?_ ?_ ?_) fun r t laid => ?_)
    · intro pl hm ty hls
      obtain ⟨vr, variantListed, rfl⟩ := mem_map.mp hm
      rw [← inv.same.types]
      exact (inv.same.wellFormed wf).payloads e (mem_of_getElem? hh) vr variantListed ty hls
    · rw [← fewer, Nat.add_mul] at hen
      omega
    · intro hstr
      obtain ⟨shs, hs, fits⟩ := entryFits hstr
      exact ⟨shs, hs, fun pl hm => fits.payloadFits hm⟩
    · obtain ⟨inv', hg', ls, hk, hpl⟩ := laid
      obtain ⟨hr, _, al⟩ := r
      have exactFits (hstr : ov.Strict mayPanic) :
          EnumFits e.tag.toNat (ls.map (.map Layout.shape)) := by
        obtain ⟨shs, hs, fits⟩ := entryFits hstr
        have exacts : ls.map (.map Layout.shape) = shs :=
          map_eq_of_forall₂ hk hs fun one o =>
            map_eq_of_forall₂ one o (inv'.known_exact wf (.inr (safe hstr)))
        rw [exacts]
        exact fits
      have steps (hstr : ov.Strict mayPanic) :=
        enumLayout_steps (inv'.forall_powers hk) (power_tag e) hpl (exactFits hstr)
      refine Ends.returns_bind (Overflow.alignUp_returns fun hstr => ?_) fun po hali =>
        Ends.returns_bind (Overflow.add_returns fun hstr => ?_) fun last added =>
        Ends.returns_bind (Overflow.alignUp_returns fun hstr => ?_) fun total totalAligned => ?_
      · obtain ⟨po, _, _, hali, -⟩ := steps hstr
        exact ⟨po, hali⟩
      · obtain ⟨_, last, _, alsoAligned, added, -⟩ := steps hstr
        cases hali.symm.trans alsoAligned
        exact ⟨last, added⟩
      · obtain ⟨_, _, total, alsoAligned, alsoAdded, totalAligned⟩ := steps hstr
        cases hali.symm.trans alsoAligned
        cases added.symm.trans alsoAdded
        exact ⟨total, totalAligned⟩
      have hlo : enumLayout ov e.tag ls = some (hr, po, ⟨total, max al e.tag⟩) := by
        rw [← EnumEntry.tag] at hali totalAligned
        simp [enumLayout, hpl, hali, added, totalAligned]
      -- the entry may have been read again, but it declares what it did
      obtain ⟨again, stillHere, -⟩ := TypeTable.exists_unwrap (inv'.same.length_enums.symm ▸ hi)
      obtain ⟨same, declaredAgain, againPayloads, againTag⟩ := inv'.same.enum stillHere
      cases hdh.symm.trans declaredAgain
      have active : t.enumState[id]? = some .active :=
        hg'.enumVisits.active (getElem?_set_self hvis)
      rw [tag, ← againTag] at hlo
      obtain ⟨hfin, hkp⟩ := inv'.finishEnum active stillHere (againPayloads.trans pls.symm ▸ hk) hlo
      rw [againTag, ← tag] at hfin hkp
      have advance := Advance.finish hp hg'.enumVisits
      refine ⟨hfin, ?_, List.getElem?_set_self (List.getElem?_eq_some_iff.mp active).1⟩
      exact ⟨hg.toKeeps.trans (hg'.toKeeps.trans hkp), hg'.structVisits, advance⟩

theorem Recurs.step : Recurs mayPanic ov dt (fuel + 1) (layoutTypeStep ov layoutType) := by
  intro s ty inv hi hen
  obtain ⟨kind, hp, unwrapped⟩ := TypeTable.exists_unwrap (inv.same.types.symm ▸ hi)
  have hadm := wf.admits (inv.same.types ▸ hp)
  have nominal : s.unvisited * (dt.types.length + 1) ≤ fuel + 1 :=
    Nat.le_of_lt (Nat.lt_of_le_of_lt (Nat.le_add_right _ ty) hen)
  rw [layoutTypeStep]
  refine .get_bind (.lift_bind unwrapped ?_)
  cases kind with
  | struct id =>
    have hb : id < dt.structs.length := hadm
    refine .then (lays_layoutStruct wf safe recurs inv hb nominal) fun _ t ⟨inv', hg, done⟩ => ?_
    obtain ⟨e, hf, hunw⟩ := TypeTable.exists_unwrap (inv'.same.length_structs.symm ▸ hb)
    refine .get_bind (.lift_bind hunw ?_)
    exact ⟨inv', hg, .struct (hg.types hp) done hf⟩
  | enum id =>
    have hb : id < dt.enums.length := hadm
    refine .then (lays_layoutEnum wf safe recurs inv hb nominal) fun _ t ⟨inv', hg, done⟩ => ?_
    obtain ⟨e, hf, hunw⟩ := TypeTable.exists_unwrap (inv'.same.length_enums.symm ▸ hb)
    refine .get_bind (.lift_bind hunw ?_)
    exact ⟨inv', hg, .enum (hg.types hp) done hf⟩
  | array elt len =>
    have hear : elt < ty := hadm
    have hfl : s.unvisited * (dt.types.length + 1) + elt < fuel :=
      Nat.lt_of_lt_of_le (Nat.add_lt_add_left hear _) (Nat.le_of_lt_succ hen)
    refine Ends.then (recurs inv (Nat.lt_trans hear hi) hfl) fun lay t ⟨inv', hg, hk⟩ => ?_
    cases sized : checkedMul lay.size len with
    | none => exact inv'.ends_layoutDiag wf hi _
    | some => exact ⟨inv', hg, .array (hg.types hp) hk sized⟩
  | _ =>
    obtain ⟨lay, base⟩ := hadm.exists_baseLayout (by simp) (by simp) (by simp)
    refine .get_bind ?_
    rw [layout_base (show s.table.context.types[ty]? = _ from hp) base]
    exact ⟨inv, .refl s, .base hp base⟩

end Places

/-! ## The whole pass -/

theorem recurs_layoutType (wf : dt.WellFormed)
    (safe : ov.Strict mayPanic → dt.NominalsFit) (fuel : Nat) :
    Recurs mayPanic ov dt fuel (Ocore.layoutType ov fuel) := by
  induction fuel with
  | zero => exact fun _ _ hen => absurd hen (not_lt_zero _)
  | succ fuel ih => exact ih.step wf safe

/-- Lay out structs, or enums, one after the other. -/
theorem lays_forM {hvs : LayoutState → List Visit} {layOut : Nat → LayoutM Unit} {n : Nat}
    (hkp : ∀ {state t : LayoutState} {id : Nat}, Grows state t →
      (hvs state)[id]? = some .done → (hvs t)[id]? = some .done)
    (lays : ∀ {state : LayoutState} {id : Nat}, Inv ov dt state → id < n →
      state.unvisited * (dt.types.length + 1) ≤ fuel + 1 →
      Lays mayPanic ov dt state (layOut id state) fun _ t =>
        (hvs t)[id]? = some .done)
    (inv : Inv ov dt state)
    (hen : state.unvisited * (dt.types.length + 1) ≤ fuel + 1) {ids : List Nat}
    (hi : ∀ id ∈ ids, id < n) :
    Lays mayPanic ov dt state (ids.forM layOut state) fun _ t => ∀ id ∈ ids, (hvs t)[id]? = some .done := by
  induction ids generalizing state with
  | nil => exact ⟨inv, .refl state, forall_mem_nil _⟩
  | cons id ids ih =>
    refine .then (lays inv (hi id mem_cons_self) hen) fun _ mid ⟨inv', hg, done⟩ => ?_
    have fewer := Nat.mul_le_mul_right (dt.types.length + 1) hg.unvisited_le
    refine (ih inv' (Nat.le_trans fewer hen) (forall_mem_cons.mp hi).2).mono fun _ t ⟨inv'', hg', oths⟩ => ?_
    exact ⟨inv'', hg.trans hg', forall_mem_cons.mpr ⟨hkp hg' done, oths⟩⟩

theorem inv_new (ov : Overflow) (tb : TypeTable) : Inv ov tb (.new tb)  where
  same := .refl tb
  structStates := length_map _
  enumStates := length_map _
  structs done := by
    rw [LayoutState.new, getElem?_map, map_eq_some_iff] at done
    obtain ⟨_, -, bad⟩ := done
    cases bad
  enums done := by
    rw [LayoutState.new, getElem?_map, map_eq_some_iff] at done
    obtain ⟨_, -, bad⟩ := done
    cases bad

/-- A finished pass: everything is laid out. -/
structure LayoutState.Finished (overflow : Overflow) (declared : TypeTable) (state : LayoutState) :
    Prop extends Inv overflow declared state where
  structsDone : ∀ id < declared.structs.length, state.structState[id]? = some .done
  enumsDone : ∀ id < declared.enums.length, state.enumState[id]? = some .done

/-- The pass ends, with a diagnostic or with every struct and enum laid out. -/
theorem ends_computeLayoutsM (wf : dt.WellFormed) (safe : ov.Strict mayPanic → dt.NominalsFit) :
    Ends mayPanic (computeLayoutsM ov dt (.new dt)) fun _ t =>
      Finished ov dt t := by
  have recurs : Recurs mayPanic ov dt dt.depth (Ocore.layoutType ov dt.depth) :=
    recurs_layoutType wf safe dt.depth
  have hen : (LayoutState.new dt).unvisited * (dt.types.length + 1) ≤ dt.depth + 1 := by
    have structs := count_le_length (a := Visit.unvisited) (l := (LayoutState.new dt).structState)
    have enums := count_le_length (a := Visit.unvisited) (l := (LayoutState.new dt).enumState)
    rw [(inv_new ov dt).structStates] at structs
    rw [(inv_new ov dt).enumStates] at enums
    refine le_succ_of_le (mul_le_mul_right _ ?_)
    rw [LayoutState.unvisited]
    omega
  refine Ends.then (lays_forM (fun hg done => (hg.structs done).1)
    (fun inv => lays_layoutStruct wf safe recurs inv) (inv_new ov dt) hen fun id hm => mem_range.mp hm) fun _ mid ⟨inv, hg, structsDone⟩ => ?_
  have fewer := Nat.mul_le_mul_right (dt.types.length + 1) hg.unvisited_le
  refine (lays_forM (fun hg done => (hg.enums done).1)
    (fun inv => lays_layoutEnum wf safe recurs inv) inv (Nat.le_trans fewer hen) fun id hm => mem_range.mp hm).mono fun _ t ⟨inv', hg', enumsDone⟩ => ?_
  exact ⟨inv', fun id hi => (hg'.structs (structsDone id (mem_range.mpr hi))).1,
    fun id hi => enumsDone id (mem_range.mpr hi)⟩

end Run

end Ostadix.Ocore
