import Ostadix.Ocore.Constants
import Ostadix.Ocore.Growth
import Ostadix.Ocore.LayoutSound
import Ostadix.Ocore.Body
import Mathlib.Data.List.Nodup

/-! # What the passes over declarations establish

The type table is well formed throughout, every type that the tables mention is in it, and no
constant has a value before its turn. From the layouts on the type table only grows. -/

namespace Ostadix.Ocore

open Ast Lib List Nat

/-! ## Valid tables -/

structure ProgramTables.Valid (program : ProgramTables) : Prop where
  types : program.types.WellFormed
  symbols : SymbolsIn program.types program.symbols
  distinct : ∀ entry ∈ program.types.structs, (entry.fields.map (·.name)).Nodup
  functions : ∀ function ∈ program.functions, function.result < program.types.types.length ∧
    ∀ entry ∈ function.locals, entry.ty < program.types.types.length
  statics : ∀ static ∈ program.statics, static.ty < program.types.types.length
  consts : ∀ const ∈ program.consts, const.ty < program.types.types.length

structure Checker.Valid (checker : Checker) : Prop extends Unevaluated checker where
  program : checker.program.Valid

section Passes

variable {ck : Checker}

/-- A table that grows keeps the program valid. -/
theorem ProgramTables.Valid.grow {prog : ProgramTables} (hv : prog.Valid)
    {types : TypeTable} (hg : prog.types.Grows types) :
    ProgramTables.Valid { prog with types } where
  types := hg.2
  symbols := hv.symbols.mono hg.1
  distinct := by
    rw [show types.structs = _ from hg.1.structs]
    exact hv.distinct
  functions := by
    intro fn hm
    obtain ⟨r, locals⟩ := hv.functions fn hm
    exact ⟨hg.1.lt r, fun e hls => hg.1.lt (locals e hls)⟩
  statics static hm := hg.1.lt (hv.statics static hm)
  consts const hm := hg.1.lt (hv.consts const hm)

/-- Only the table is changed, and it grows. -/
def Checker.GrowsTo (checker after : Checker) : Prop :=
  ∃ types, checker.program.types.Grows types ∧ after = { checker with program.types := types }

variable {t : Checker} {symbols : List (String × Symbol)}
  {modules : List (String × SourceModule)}

theorem Checker.GrowsTo.valid (hg : ck.GrowsTo t) (hv : ck.Valid) : t.Valid := by
  obtain ⟨_, hg, rfl⟩ := hg
  exact ⟨⟨hv.length, hv.zero⟩, hv.program.grow hg⟩

theorem Checker.GrowsTo.trans {mid t : Checker} (first : ck.GrowsTo mid)
    (x2 : mid.GrowsTo t) : ck.GrowsTo t := by
  obtain ⟨_, hg, rfl⟩ := first
  obtain ⟨types', hg', rfl⟩ := x2
  exact ⟨types', hg.trans hg', rfl⟩

theorem Checker.Valid.growsTo_refl (hv : ck.Valid) : ck.GrowsTo ck :=
  ⟨ck.program.types, ⟨.refl _, hv.program.types⟩, rfl⟩

theorem Checker.GrowsTo.lt (hg : ck.GrowsTo t) {ty : Nat}
    (hi : ty < ck.program.types.types.length) : ty < t.program.types.types.length := by
  obtain ⟨types, hg, rfl⟩ := hg
  exact hg.1.lt hi

theorem Ends.forM {α : Type} {ok : Checker → Prop} {xs : List α} {step : α → CheckM Unit}
    (each : ∀ x ck, ok ck → Ends True (step x ck) fun _ => ok) {ck : Checker} (hh : ok ck) :
    Ends True (xs.forM step ck) fun _ => ok := by
  induction xs generalizing ck with
  | nil => exact hh
  | cons x xs ih =>
    exact .then (each x ck hh) fun _ mid held => ih held

theorem ends_onTable {α : Type} {action : TableM α} {post : α → TypeTable → Prop}
    (ends : Ends True (action ck.program.types) fun v types =>
      ck.program.types.Grows types ∧ post v types) :
    Ends True (onTable action ck) fun v t =>
      ck.GrowsTo t ∧ post v t.program.types := by
  rw [onTable]
  cases ran : action ck.program.types with
  | error error => cases error <;> trivial
  | ok r =>
    obtain ⟨hg, hh⟩ := ends.ok ran
    exact ⟨⟨r.2, hg, rfl⟩, hh⟩

theorem ends_resolveIn (hv : ck.Valid) (sc : ModuleScope) (ty : TypeExpr) :
    Ends True (resolveIn sc ty ck) fun id t =>
      ck.GrowsTo t ∧ id < t.program.types.types.length := by
  rw [resolveIn]
  exact .get_bind (ends_onTable (resolves_type hv.program.types hv.program.symbols ty))

/-! ## Definitions of types -/

theorem ends_defineFields (sc : ModuleScope) (hv : ck.Valid) (fs : List FieldDef)
    (names : List String) :
    Ends True (defineFields sc fs names ck) fun hdf t =>
      ck.GrowsTo t ∧ (hdf.map (·.name)).Nodup ∧
      ∀ fd ∈ hdf, fd.ty < t.program.types.types.length ∧ fd.name ∉ names := by
  induction fs generalizing ck names with
  | nil => exact ⟨hv.growsTo_refl, nodup_nil, nofun⟩
  | cons fd fs ih =>
    rw [defineFields]
    split
    · trivial
    · rename_i fresh
      refine .then (ends_resolveIn hv sc fd.ty) fun ty mid ⟨hg, hi⟩ => ?_
      refine .then (ih (hg.valid hv) (fd.name :: names)) fun rest t ⟨hg', nodup, every⟩ => ?_
      refine ⟨hg.trans hg', ?_, ?_⟩
      · refine nodup_cons.mpr ⟨?_, nodup⟩
        intro hls
        obtain ⟨o, hm, he⟩ := mem_map.mp hls
        exact (every o hm).2 (he ▸ mem_cons_self)
      · refine forall_mem_cons.mpr ⟨⟨hg'.lt hi, fresh⟩, fun o hm => ?_⟩
        obtain ⟨otherInside, apart⟩ := every o hm
        exact ⟨otherInside, fun hls => apart (mem_cons_of_mem _ hls)⟩

theorem ends_resolvePayload (sc : ModuleScope) (hv : ck.Valid) (tys : List TypeExpr) :
    Ends True (resolvePayload sc tys ck) fun pl t =>
      ck.GrowsTo t ∧ ∀ ty ∈ pl, ty < t.program.types.types.length := by
  induction tys generalizing ck with
  | nil => exact ⟨hv.growsTo_refl, forall_mem_nil _⟩
  | cons ty tys ih =>
    rw [resolvePayload]
    refine .then (ends_resolveIn hv sc ty) fun ty mid first => ?_
    obtain ⟨hg, hi⟩ := first
    refine .then (ih (hg.valid hv)) fun rest t tl => ?_
    obtain ⟨hg', every⟩ := tl
    exact ⟨hg.trans hg', forall_mem_cons.mpr ⟨hg'.lt hi, every⟩⟩

theorem ends_defineVariants (sc : ModuleScope) (hv : ck.Valid)
    (variants : List VariantDef) (names : List String) :
    Ends True (defineVariants sc variants names ck) fun hdf t =>
      ck.GrowsTo t ∧ ∀ vr ∈ hdf, ∀ ty ∈ vr.payload,
        ty < t.program.types.types.length := by
  induction variants generalizing ck names with
  | nil => exact ⟨hv.growsTo_refl, nofun⟩
  | cons vr variants ih =>
    rw [defineVariants]
    split
    · trivial
    · refine .then (ends_resolvePayload sc hv vr.payload) fun pl mid ⟨hg, hi⟩ => ?_
      refine .then (ih (hg.valid hv) _) fun rest t ⟨hg', every⟩ => ?_
      exact ⟨hg.trans hg', forall_mem_cons.mpr ⟨fun ty hm => hg'.lt (hi ty hm), every⟩⟩

theorem align_of_isPowerOfTwo {v : UInt64} (power : isPowerOfTwo v = true)
    (hsm : v ≤ 4096) : ∃ ex ≤ 12, v.toNat = 2 ^ ex := by
  rw [isPowerOfTwo, Bool.and_eq_true, decide_eq_true_eq, beq_iff_eq] at power
  obtain ⟨hnz, cleared⟩ := power
  have hpos : v.toNat ≠ 0 := fun zero => hnz (UInt64.toNat_inj.mp zero)
  have clearedNat : v.toNat &&& (v.toNat - 1) = 0 := by
    have := congrArg UInt64.toNat cleared
    rwa [UInt64.toNat_and, toNat_sub_one (one_le_iff_ne_zero.mpr hpos)] at this
  obtain ⟨ex, he⟩ := (Nat.and_sub_one_eq_zero_iff_isPowerOfTwo hpos).mp clearedNat
  refine ⟨ex, ?_, he⟩
  have hb : 2 ^ ex ≤ 2 ^ 12 := he ▸ UInt64.le_iff_toNat_le.mp hsm
  exact (Nat.pow_le_pow_iff_right (by decide)).mp hb

/-- An alignment that an attribute may ask for. -/
def ItemAttrs.AlignOk (attrs : ItemAttrs) : Prop :=
  ∀ align, attrs.align = some align → ∃ exponent ≤ 12, align.toNat = 2 ^ exponent

theorem parseAttr_alignOk {file : String} {attr : Attribute} {out attrs : ItemAttrs}
    (hpar : parseAttr file attr out = .ok attrs) (ok : out.AlignOk) : attrs.AlignOk := by
  rw [parseAttr] at hpar
  split at hpar
  case h_8 =>
    split at hpar
    · split at hpar
      · cases hpar
      · cases hpar
        exact ok
    · cases hpar
  case h_9 =>
    split at hpar
    · split at hpar
      · rename_i ha
        rw [Bool.and_eq_true, decide_eq_true_eq] at ha
        cases hpar
        rintro al ⟨⟩
        exact align_of_isPowerOfTwo ha.1 ha.2
      · cases hpar
    · cases hpar
  case h_10 => cases hpar
  all_goals
    obtain ⟨_, -, ⟨⟩⟩ := bind_eq_ok.mp hpar
    exact ok

theorem parseAttrs_alignOk {file : String} {x : Item} {attrs : ItemAttrs}
    (hpar : parseAttrs file x = .ok attrs) : attrs.AlignOk := by
  have from_ : ∀ (list : List Attribute) (seen : List String) (out : ItemAttrs), out.AlignOk →
      parseAttrsFrom file list seen out = .ok attrs → attrs.AlignOk := by
    intro list
    induction list with
    | nil =>
      intro seen out ok hpar
      cases hpar
      exact ok
    | cons attr list ih =>
      intro seen out ok hpar
      rw [parseAttrsFrom] at hpar
      split at hpar
      · cases hpar
      · obtain ⟨next, nextParsed, hpar⟩ := bind_eq_ok.mp hpar
        exact ih _ next (parseAttr_alignOk nextParsed ok) hpar
  exact from_ x.attrs [] {} nofun hpar

variable {tb : TypeTable}

theorem forall_mem_append_singleton {α : Type} {holds : α → Prop} {xs : List α} {x : α}
    (every : ∀ x ∈ xs, holds x) (last : holds x) : ∀ o ∈ xs ++ [x], holds o :=
  forall_mem_append.mpr ⟨every, forall_mem_singleton.mpr last⟩

/-- The table with other structs, which have valid fields. -/
theorem TypeTable.WellFormed.setStructs (wf : tb.WellFormed)
    {structs : List StructEntry} (len : tb.structs.length ≤ structs.length)
    (hv : ∀ e ∈ structs, (∀ fd ∈ e.fields, fd.ty < tb.types.length) ∧
      ∀ al, e.requestedAlign = some al → ∃ ex ≤ 12, al.toNat = 2 ^ ex) :
    TypeTable.WellFormed { tb with structs } :=
  { wf with
    admits := by
      intro id ty hp
      have hadm := wf.admits hp
      cases ty with
      | struct => exact Nat.lt_of_lt_of_le hadm len
      | _ => exact hadm
    fields := fun e hm => (hv e hm).1
    aligns := fun e hm => (hv e hm).2 }

theorem TypeTable.WellFormed.setEnums (wf : tb.WellFormed)
    {enums : List EnumEntry} (len : tb.enums.length ≤ enums.length)
    (hv : ∀ e ∈ enums, ∀ vr ∈ e.variants, ∀ ty ∈ vr.payload,
      ty < tb.types.length) : TypeTable.WellFormed { tb with enums } :=
  { wf with
    admits := by
      intro id ty hp
      have hadm := wf.admits hp
      cases ty with
      | enum => exact Nat.lt_of_lt_of_le hadm len
      | _ => exact hadm
    payloads := hv }

/-- A list with one changed element has the changed element and the others. -/
theorem mem_modify {α : Type} {chg : α → α} {xs : List α} {i : Nat} {x : α}
    (hm : x ∈ xs.modify i chg) :
    x ∈ xs ∨ ∃ orig ∈ xs, x = chg orig := by
  obtain ⟨_, hi, rfl⟩ := getElem_of_mem hm
  have hp := getElem?_eq_getElem hi
  rw [getElem?_modify] at hp
  obtain ⟨orig, hf, he⟩ := Option.map_eq_some_iff.mp hp
  have hls := mem_of_getElem? hf
  split at he
  · exact .inr ⟨orig, hls, he.symm⟩
  · exact .inl (he ▸ hls)

theorem ends_defineStruct (hv : ck.Valid) (dfn : StructId × Definition StructDef) :
    Ends True (defineStruct dfn ck) fun _ t => t.Valid := by
  obtain ⟨id, sc, _, dfn⟩ := dfn
  rw [defineStruct]
  refine .run_bind fun attrs hpar => ?_
  refine .then (ends_defineFields sc hv dfn.fields []) fun fields mid ⟨hg, nodup, hi⟩ => ?_
  have hmv := hg.valid hv
  have every {entry : StructEntry} (hm : entry ∈ mid.program.types.structs.modify id
      fun entry => { entry with fields, packed := attrs.packed, requestedAlign := attrs.align }) :
      entry ∈ mid.program.types.structs ∨
        entry.fields = fields ∧ entry.requestedAlign = attrs.align := by
    obtain old | ⟨_, -, rfl⟩ := mem_modify hm
    · exact .inl old
    · exact .inr ⟨rfl, rfl⟩
  refine ⟨⟨hmv.length, hmv.zero⟩, { hmv.program with types := ?_, distinct := ?_ }⟩
  · refine hmv.program.types.setStructs (Nat.le_of_eq (length_modify ..).symm) fun entry hm => ?_
    obtain old | ⟨sameFields, sameAlign⟩ := every hm
    · exact ⟨hmv.program.types.fields entry old, hmv.program.types.aligns entry old⟩
    · rw [sameFields, sameAlign]
      exact ⟨fun fd hls => (hi fd hls).1, parseAttrs_alignOk hpar⟩
  · intro entry hm
    obtain old | ⟨sameFields, -⟩ := every hm
    · exact hmv.program.distinct entry old
    · rw [sameFields]
      exact nodup

theorem ends_defineEnum (hv : ck.Valid) (dfn : EnumId × Definition EnumDef) :
    Ends True (defineEnum dfn ck) fun _ t => t.Valid := by
  obtain ⟨_, sc, _, dfn⟩ := dfn
  rw [defineEnum]
  refine .then (ends_defineVariants sc hv dfn.variants []) fun variants mid ⟨hg, hi⟩ => ?_
  have hmv := hg.valid hv
  refine ⟨⟨hmv.length, hmv.zero⟩, { hmv.program with types := ?_ }⟩
  refine hmv.program.types.setEnums (Nat.le_of_eq (length_modify ..).symm) fun e hm => ?_
  obtain old | ⟨_, -, rfl⟩ := mem_modify hm
  · exact hmv.program.types.payloads e old
  · exact hi

theorem ends_defineTypes (order : HashOrder) (hv : ck.Valid) :
    Ends True (defineTypes order ck) fun _ t => t.Valid := by
  rw [defineTypes]
  refine Ends.get_bind (Ends.then (Ends.forM (fun dfn _ hv =>
    ends_defineStruct hv dfn) hv) fun _ mid hv => ?_)
  exact Ends.get_bind (Ends.forM (fun dfn _ hv => ends_defineEnum hv dfn) hv)

/-! ## Names of types -/

theorem TypeTable.addStructPlaceholder_eq (tb : TypeTable) (name : String) :
    (tb.addStructPlaceholder name).2 = (TypeTable.intern (.struct tb.structs.length)
        { tb with structs := tb.structs ++ [⟨name, [], false, none, ⟨0, 1⟩⟩] }).2 ∧
    (tb.addStructPlaceholder name).1.2 = (TypeTable.intern (.struct tb.structs.length)
        { tb with structs := tb.structs ++ [⟨name, [], false, none, ⟨0, 1⟩⟩] }).1 := by
  rw [addStructPlaceholder, intern, intern]
  dsimp only
  split <;> exact ⟨rfl, rfl⟩

theorem TypeTable.addEnumPlaceholder_eq (tb : TypeTable) (name : String) :
    (tb.addEnumPlaceholder name).2 = (TypeTable.intern (.enum tb.enums.length)
        { tb with enums := tb.enums ++ [⟨name, [], 1, 1, ⟨1, 1⟩⟩] }).2 ∧
    (tb.addEnumPlaceholder name).1.2 = (TypeTable.intern (.enum tb.enums.length)
        { tb with enums := tb.enums ++ [⟨name, [], 1, 1, ⟨1, 1⟩⟩] }).1 := by
  rw [addEnumPlaceholder, intern, intern]
  dsimp only
  split <;> exact ⟨rfl, rfl⟩

/-- A new struct without fields. -/
theorem TypeTable.WellFormed.pushStruct (wf : tb.WellFormed) (name : String) : TypeTable.WellFormed
      { tb with structs := tb.structs ++ [⟨name, [], false, none, ⟨0, 1⟩⟩] } := by
  refine wf.setStructs (prefix_append _ _).length_le (forall_mem_append_singleton ?_ ⟨nofun, nofun⟩)
  exact fun e hm => ⟨wf.fields e hm, wf.aligns e hm⟩

theorem TypeTable.WellFormed.pushEnum (wf : tb.WellFormed) (name : String) : TypeTable.WellFormed
      { tb with enums := tb.enums ++ [⟨name, [], 1, 1, ⟨1, 1⟩⟩] } :=
  wf.setEnums (prefix_append _ _).length_le (forall_mem_append_singleton wf.payloads nofun)

theorem SymbolsIn.append {ty : TypeId} (hsy : SymbolsIn tb symbols) (name : String)
    (hi : ty < tb.types.length) : SymbolsIn tb (symbols ++ [(name, .type ty)]) := by
  intro o ty' hm
  obtain old | new := mem_append.mp hm
  · exact hsy o ty' old
  · cases mem_singleton.mp new
    exact hi

theorem ends_ensureNameFree {post : Unit → Checker → Prop} (name : String) (sc : ModuleScope)
    (sp : Span) (hh : ck.program.symbols.lookup name = none → post () ck) :
    Ends True (ensureNameFree name sc sp ck) post := by
  rw [ensureNameFree]
  refine .get_bind ?_
  split
  · trivial
  · rename_i free
    exact hh (Option.not_isSome_iff_eq_none.mp free)

/-- A new type under a new symbol. -/
theorem ProgramTables.Valid.declareType {program : ProgramTables} (hv : program.Valid)
    {types : TypeTable} {ty : TypeId} (name : String) (wf : types.WellFormed)
    (hgn : program.types.types <+: types.types) (hi : ty < types.types.length)
    (hne : ∀ e ∈ types.structs, (e.fields.map (·.name)).Nodup) :
    ProgramTables.Valid
      { program with types, symbols := program.symbols ++ [(name, .type ty)] } := by
  have lt {ty : Nat} (s : ty < program.types.types.length) : ty < types.types.length :=
    Nat.lt_of_lt_of_le s hgn.length_le
  refine ⟨wf, ?_, hne, ?_, ?_, ?_⟩
  · exact .append (fun name ty hm => lt (hv.symbols name ty hm)) name hi
  · intro fn hm
    obtain ⟨r, locals⟩ := hv.functions fn hm
    exact ⟨lt r, fun e hls => lt (locals e hls)⟩
  · exact fun static hm => lt (hv.statics static hm)
  · exact fun const hm => lt (hv.consts const hm)

theorem ends_collectTypeName (sc : ModuleScope) (x : Item) (hv : ck.Valid) :
    Ends True (collectTypeName sc x ck) fun _ t => t.Valid := by
  have wf := hv.program.types
  cases kind : x.kind with simp only [collectTypeName, kind]
  | struct dfn =>
    refine .bind (ends_ensureNameFree _ sc x.span fun _ => ?_)
    obtain ⟨sameTable, sameTy⟩ := ck.program.types.addStructPlaceholder_eq
      (qualify sc.name dfn.name)
    have pushed := wf.pushStruct (qualify sc.name dfn.name)
    obtain ⟨hg, hf⟩ := TypeTable.intern_grows pushed
      (show TypeTable.Admits _ _ (.struct ck.program.types.structs.length) by
        simp [TypeTable.Admits])
    rw [← sameTable, ← sameTy] at hf
    rw [← sameTable] at hg
    have hne : ∀ e ∈ (TypeTable.addStructPlaceholder (qualify sc.name dfn.name)
        ck.program.types).2.structs, (e.fields.map (·.name)).Nodup := by
      rw [hg.1.structs]
      exact forall_mem_append_singleton hv.program.distinct nodup_nil
    exact ⟨⟨hv.length, hv.zero⟩, hv.program.declareType _ hg.2 hg.1.types
      (List.getElem?_eq_some_iff.mp hf).1 hne⟩
  | enum dfn =>
    refine .bind (ends_ensureNameFree _ sc x.span fun _ => ?_)
    obtain ⟨sameTable, sameTy⟩ := ck.program.types.addEnumPlaceholder_eq (qualify sc.name dfn.name)
    have pushed := wf.pushEnum (qualify sc.name dfn.name)
    obtain ⟨hg, hf⟩ := TypeTable.intern_grows pushed
      (show TypeTable.Admits _ _ (.enum ck.program.types.enums.length) by
        simp [TypeTable.Admits])
    rw [← sameTable, ← sameTy] at hf
    rw [← sameTable] at hg
    have hne : ∀ e ∈ (TypeTable.addEnumPlaceholder (qualify sc.name dfn.name)
        ck.program.types).2.structs, (e.fields.map (·.name)).Nodup := by
      rw [hg.1.structs]
      exact hv.program.distinct
    exact ⟨⟨hv.length, hv.zero⟩, hv.program.declareType _ hg.2 hg.1.types
      (List.getElem?_eq_some_iff.mp hf).1 hne⟩
  | _ =>
    exact hv

theorem ends_collectTypeNames (modules : List (ModuleScope × SourceModule)) (hv : ck.Valid) :
    Ends True (collectTypeNames modules ck) fun _ t => t.Valid :=
  Ends.forM (fun (sc, _) _ hv =>
    Ends.forM (fun x _ hv => ends_collectTypeName sc x hv) hv) hv

theorem wellFormed_new : TypeTable.new.WellFormed  where
  primitives := prefix_rfl
  admits := by
    intro id ty hp
    have hls := mem_of_getElem? hp
    simp only [TypeTable.new, primitives, map_cons, map_nil, mem_cons, not_mem_nil, or_false] at hls
    rcases hls with rfl | rfl | rfl | rfl | rfl | rfl | rfl | rfl | rfl | rfl | rfl | rfl | rfl |
      rfl | rfl <;> simp [TypeTable.Admits]
  fields := nofun
  aligns := nofun
  payloads := nofun

theorem valid_new : Checker.new.Valid  where
  length := rfl
  zero := nofun
  program := ⟨wellFormed_new, nofun, nofun, nofun, nofun, nofun⟩

theorem declareTypes_valid {order : HashOrder} {scopedModules : List (ModuleScope × SourceModule)}
    (hd : declareTypes order modules = .ok (scopedModules, ck)) : ck.Valid := by
  obtain ⟨_, -, hd⟩ := bind_eq_ok.mp hd
  obtain ⟨⟨⟨⟩, _⟩, ran, ⟨⟩⟩ := bind_eq_ok.mp hd
  exact (Ends.then (ends_collectTypeNames _ valid_new) fun _ _ hv =>
    ends_defineTypes order hv).ok ran

/-! ## Layouts -/

theorem ends_layOutTypes (ov : Overflow) (hv : ck.Valid) :
    Ends True (layOutTypes ov ck) fun _ t => t.Valid ∧
      computeLayouts ov ck.program.types = .ok t.program.types := by
  rw [layOutTypes, onTable]
  cases laid : computeLayouts ov ck.program.types with
  | error error => cases error <;> trivial
  | ok types =>
    obtain ⟨s, hfin, rfl⟩ := computeLayouts_finished hv.program.types laid
    refine ⟨⟨⟨hv.length, hv.zero⟩, ?_⟩, rfl⟩
    have he := hfin.same
    have hlen : s.table.types.length = ck.program.types.types.length :=
      congrArg List.length he.types
    refine ⟨he.wellFormed hv.program.types, ?_, he.distinct hv.program.distinct, ?_, ?_, ?_⟩
    · exact fun name ty hm => lt_of_lt_of_eq (hv.program.symbols name ty hm) hlen.symm
    · intro fn hm
      obtain ⟨r, locals⟩ := hv.program.functions fn hm
      exact ⟨lt_of_lt_of_eq r hlen.symm, fun e hls => lt_of_lt_of_eq (locals e hls) hlen.symm⟩
    · exact fun static hm => lt_of_lt_of_eq (hv.program.statics static hm) hlen.symm
    · exact fun const hm => lt_of_lt_of_eq (hv.program.consts const hm) hlen.symm

/-! ## Signatures -/

theorem ends_resolveParams (sc : ModuleScope) (hv : ck.Valid) (params : List Param) :
    Ends True (resolveParams sc params ck) fun locals t =>
      ck.GrowsTo t ∧ ∀ e ∈ locals, e.ty < t.program.types.types.length := by
  induction params generalizing ck with
  | nil => exact ⟨hv.growsTo_refl, nofun⟩
  | cons param params ih =>
    rw [resolveParams]
    refine .then (ends_resolveIn hv sc param.ty) fun ty mid ⟨hg, hi⟩ => ?_
    refine .then (ih (hg.valid hv)) fun rest t ⟨hg', every⟩ => ?_
    exact ⟨hg.trans hg', forall_mem_cons.mpr ⟨hg'.lt hi, every⟩⟩

/-- A symbol that is not a type. -/
theorem SymbolsIn.appendValue (hsy : SymbolsIn tb symbols) (name : String)
    {symbol : Symbol} (v : ∀ ty, symbol ≠ .type ty) :
    SymbolsIn tb (symbols ++ [(name, symbol)]) := by
  intro o ty hm
  obtain old | new := mem_append.mp hm
  · exact hsy o ty old
  · cases mem_singleton.mp new
    exact absurd rfl (v ty)

/-- The table has grown, and the checker is valid. -/
def Checker.Extends (checker after : Checker) : Prop :=
  after.Valid ∧ checker.program.types.Extends after.program.types

theorem Checker.GrowsTo.extends (hg : ck.GrowsTo t) (hv : ck.Valid) : ck.Extends t := by
  refine ⟨hg.valid hv, ?_⟩
  obtain ⟨_, hg, rfl⟩ := hg
  exact hg.1

/-- The pass has declared the names, which were free before. -/
structure Declares (before : Checker) (names : List String) (after : Checker) : Prop where
  grows : before.Extends after
  distinct : names.Nodup
  free : ∀ name ∈ names, before.program.symbols.lookup name = none
  known : ∀ name, name ∈ names ∨ before.program.symbols.lookup name ≠ none →
    after.program.symbols.lookup name ≠ none

theorem Declares.nil (hv : ck.Valid) : Declares ck [] ck :=
  ⟨⟨hv, .refl _⟩, nodup_nil, nofun, by simp⟩

section Declares

variable {s mid : Checker} {names more : List String}

theorem Declares.trans (first : Declares s names mid) (x2 : Declares mid more t) :
    Declares s (names ++ more) t where
  grows := ⟨x2.grows.1, first.grows.2.trans x2.grows.2⟩
  distinct := by
    refine Nodup.append first.distinct x2.distinct ?_
    intro name early late
    exact first.known name (.inl early) (x2.free name late)
  free := by
    refine forall_mem_append.mpr ⟨first.free, ?_⟩
    intro name late
    by_contra known
    exact first.known name (.inr known) (x2.free name late)
  known := by
    intro name known
    rw [mem_append, or_assoc] at known
    obtain early | late | old := known
    · exact x2.known name (.inr (first.known name (.inl early)))
    · exact x2.known name (.inl late)
    · exact x2.known name (.inr (first.known name (.inr old)))

theorem Declares.forM {α : Type} {step : α → CheckM Unit} {namesOf : α → List String}
    (steps : ∀ x s, s.Valid → Ends True (step x s) fun _ t =>
      Declares s (namesOf x) t) (xs : List α) (hv : s.Valid) :
    Ends True (xs.forM step s) fun _ t => Declares s (xs.flatMap namesOf) t := by
  induction xs generalizing s with
  | nil => exact .nil hv
  | cons x xs ih =>
    refine .then (steps x s hv) fun _ mid first => ?_
    exact (ih first.grows.1).mono fun _ _ tl => first.trans tl

/-- After the types have grown, a name that was free is declared. -/
theorem Declares.single {name : String} {symbol : Symbol}
    (free : s.program.symbols.lookup name = none) (hg : s.GrowsTo mid)
    (added : t.program.symbols = mid.program.symbols ++ [(name, symbol)])
    (fewer : names <+ [name]) (hext : s.Extends t) : Declares s names t := by
  obtain ⟨_, _, rfl⟩ := hg
  refine ⟨hext, (nodup_singleton name).sublist fewer,
    fun o hm => mem_singleton.mp (fewer.subset hm) ▸ free, ?_⟩
  rintro o (hls | hk)
  · simp [mem_singleton.mp (fewer.subset hls), added, lookup_append]
  · simp [added, lookup_append, hk]

end Declares

/-- The names of an item that gets a symbol. -/
def namesOf (scope : ModuleScope) (item : Item) : List String :=
  (Item.linked scope item).toList.map Linked.qualifiedName

theorem ends_collectValueSignature (sc : ModuleScope) (x : Item) (hv : ck.Valid) :
    Ends True (collectValueSignature sc x ck) fun _ t =>
      Declares ck (namesOf sc x) t := by
  cases kind : x.kind with simp only [collectValueSignature, kind]
  | function dfn =>
    refine .bind (ends_ensureNameFree _ sc x.span fun free => .run_bind fun attrs hpar => ?_)
    refine .then (ends_resolveParams sc hv dfn.params) fun locals mid resolved => ?_
    obtain ⟨hg, localsInside⟩ := resolved
    refine .then (ends_resolveIn (hg.valid hv) sc dfn.returnType) fun r t resolved => ?_
    obtain ⟨hg', resultInside⟩ := resolved
    obtain ⟨hav, hext⟩ := (hg.trans hg').extends hv
    refine .get_bind (.run_bind fun _ _ => ?_)
    refine .single free (hg.trans hg') rfl (by simp [namesOf, Item.linked, hpar, kind,
      Linked.qualifiedName, Except.toOption]) ⟨⟨⟨hav.length, hav.zero⟩,
      { hav.program with symbols := ?_, functions := ?_ }⟩, hext⟩
    · exact hav.program.symbols.appendValue _ (by rintro _ ⟨⟩)
    · exact forall_mem_append_singleton hav.program.functions
        ⟨resultInside, fun e hm => hg'.lt (localsInside e hm)⟩
  | static dfn =>
    refine .bind (ends_ensureNameFree _ sc x.span fun free => .run_bind fun attrs hpar => ?_)
    split
    · trivial
    · refine .then (ends_resolveIn hv sc dfn.ty) fun ty t resolved => ?_
      obtain ⟨hg, hi⟩ := resolved
      obtain ⟨hav, hext⟩ := hg.extends hv
      refine .single free hg rfl (by simp [namesOf, Item.linked, hpar, kind,
        Linked.qualifiedName, Except.toOption]) ⟨⟨⟨hav.length, hav.zero⟩,
        { hav.program with symbols := ?_, statics := ?_ }⟩, hext⟩
      · exact hav.program.symbols.appendValue _ (by rintro _ ⟨⟩)
      · exact forall_mem_append_singleton hav.program.statics hi
  | const dfn =>
    refine .bind (ends_ensureNameFree _ sc x.span fun free => ?_)
    refine .then (ends_resolveIn hv sc dfn.ty) fun ty t resolved => ?_
    obtain ⟨hg, hi⟩ := resolved
    obtain ⟨hav, hext⟩ := hg.extends hv
    refine .single free hg rfl (by simp [namesOf, Item.linked, kind]) ⟨⟨⟨?_, ?_⟩,
      { hav.program with symbols := ?_, consts := ?_ }⟩, hext⟩
    · exact (length_append.trans (congrArg (· + 1) hav.length)).trans length_append.symm
    · exact forall_mem_append_singleton hav.zero rfl
    · exact hav.program.symbols.appendValue _ (by rintro _ ⟨⟩)
    · exact forall_mem_append_singleton hav.program.consts hi
  | _ =>
    have none : namesOf sc x = [] := by simp [namesOf, Item.linked, kind]
    exact none ▸ .nil hv

theorem ends_collectValueSignatures (modules : List (ModuleScope × SourceModule)) (hv : ck.Valid) :
    Ends True (collectValueSignatures modules ck) fun _ t => Declares ck
      (modules.flatMap fun (sc, module) => module.items.flatMap (namesOf sc)) t :=
  Declares.forM (fun (sc, module) _ hv => Declares.forM (fun x _ hv =>
    ends_collectValueSignature sc x hv) module.items hv) modules hv

/-- After the passes over declarations everything is valid, and the table extends the one that the
layout pass left. -/
theorem declare_ok {ho : Overflow} {order : HashOrder} (hd : declare ho order modules = .ok ck) :
    ck.Valid ∧ ∃ scopedModules s hlo,
      declareTypes order modules = .ok (scopedModules, s) ∧ s.Valid ∧
      computeLayouts ho s.program.types = .ok hlo ∧
      hlo.Extends ck.program.types := by
  obtain ⟨⟨scopedModules, s⟩, typesDeclared, tl⟩ := bind_eq_ok.mp hd
  obtain ⟨⟨⟨⟩, t⟩, ran, ⟨⟩⟩ := bind_eq_ok.mp tl
  have beforeValid := declareTypes_valid typesDeclared
  have ends := Ends.then (ends_layOutTypes ho beforeValid) fun _ mid laid =>
    (ends_collectValueSignatures scopedModules laid.1).mono fun _ t declares =>
      (⟨declares.grows.1, mid.program.types, laid.2, declares.grows.2⟩ : t.Valid ∧ ∃ hlo,
        computeLayouts ho s.program.types = .ok hlo ∧
        hlo.Extends t.program.types)
  obtain ⟨hv, hlo, laid, hext⟩ := ends.ok ran
  exact ⟨hv, scopedModules, s, hlo, typesDeclared, beforeValid, laid, hext⟩

end Passes

end Ostadix.Ocore
