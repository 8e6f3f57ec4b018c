import Ostadix.Ocore.Outcome
import Ostadix.Ocore.Resolve
import Ostadix.Ocore.WellFormed

/-! # Growth of the type table

Once the structs and enums are defined the table only grows, by interning. Interning keeps a
table well formed, and so does the resolution of type expressions. -/

namespace Ostadix.Ocore

open Ast Lib List

variable {kind : HirType}

variable {ty : TypeId}

namespace TypeTable

variable {table mid final : TypeTable}

theorem Extends.refl (tb : TypeTable) : tb.Extends tb :=
  ⟨prefix_rfl, rfl, rfl⟩

theorem Extends.trans (first : table.Extends mid) (x2 : mid.Extends final) : table.Extends final :=
  ⟨first.types.trans x2.types, x2.structs.trans first.structs, x2.enums.trans first.enums⟩

theorem Extends.lt (hext : table.Extends final) {ty : Nat} (hi : ty < table.types.length) :
    ty < final.types.length :=
  Nat.lt_of_lt_of_le hi hext.types.length_le

theorem Extends.typeAt (hext : table.Extends final) (hf : table.types[ty]? = some kind) :
    final.types[ty]? = some kind :=
  getElem?_of_prefix hext.types hf

theorem typeAt_eq_ok : table.typeAt ty = .ok kind ↔ table.types[ty]? = some kind :=
  unwrap_eq_ok

theorem lt_of_typeAt (hf : table.typeAt ty = .ok kind) : ty < table.types.length :=
  (List.getElem?_eq_some_iff.mp (typeAt_eq_ok.mp hf)).1

/-- Admission looks at earlier positions, structs and enums only. -/
theorem Admits.mono {id : TypeId} (hadm : table.Admits id kind)
    (structs : final.structs = table.structs) (enums : final.enums = table.enums) :
    final.Admits id kind := by
  cases kind with
  | struct => exact Nat.lt_of_lt_of_eq hadm (congrArg List.length structs).symm
  | enum => exact Nat.lt_of_lt_of_eq hadm (congrArg List.length enums).symm
  | _ => exact hadm

theorem WellFormed.push (wf : table.WellFormed) (hadm : table.Admits table.types.length kind) :
    WellFormed { table with types := table.types ++ [kind] } where
  primitives := wf.primitives.trans (prefix_append _ _)
  admits := by
    intro id ty hp
    rw [getElem?_append] at hp
    split at hp
    · exact (wf.admits hp).mono rfl rfl
    · rename_i outside
      have first : id - table.types.length < [kind].length := (List.getElem?_eq_some_iff.mp hp).1
      have last : id = table.types.length := Nat.le_antisymm
        (Nat.le_of_sub_eq_zero (Nat.lt_one_iff.mp first)) (Nat.le_of_not_lt outside)
      subst last
      rw [Nat.sub_self] at hp
      cases hp
      exact hadm.mono rfl rfl
  fields := by
    intro e hm fd hls
    exact Nat.lt_of_lt_of_le (wf.fields e hm fd hls) (prefix_append _ _).length_le
  aligns := wf.aligns
  payloads := by
    intro e hm vr hls ty here
    exact Nat.lt_of_lt_of_le (wf.payloads e hm vr hls ty here) (prefix_append _ _).length_le

/-- The table is well formed and extends `table`. -/
def Grows (table final : TypeTable) : Prop :=
  table.Extends final ∧ final.WellFormed

theorem Grows.trans (first : table.Grows mid) (x2 : mid.Grows final) : table.Grows final :=
  ⟨first.1.trans x2.1, x2.2⟩

theorem intern_grows (wf : table.WellFormed) (hadm : table.Admits table.types.length kind) :
    table.Grows (table.intern kind).2 ∧
      (table.intern kind).2.types[(table.intern kind).1]? = some kind := by
  rw [intern]
  split
  · rename_i id hf
    obtain ⟨hi, he, -⟩ := List.idxOf?_eq_some_iff.mp hf
    refine ⟨⟨.refl table, wf⟩, ?_⟩
    exact List.getElem?_eq_some_iff.mpr ⟨hi, he⟩
  · refine ⟨⟨⟨List.prefix_append _ _, rfl, rfl⟩, wf.push hadm⟩, ?_⟩
    exact List.getElem?_concat_length

theorem primitiveNames_lt : ∀ e ∈ primitiveNames, e.2 < Ocore.primitives.length := by
  decide

theorem WellFormed.primitive_lt (wf : table.WellFormed) {name : String}
    (hf : primitive name = some ty) : ty < table.types.length := by
  have hi := primitiveNames_lt (name, ty) (mem_of_lookup hf)
  have total := wf.primitives.length_le
  rw [length_map] at total
  exact Nat.lt_of_lt_of_le hi total

end TypeTable

/-- The types that symbols name are in the table. -/
def SymbolsIn (table : TypeTable) (symbols : List (String × Symbol)) : Prop :=
  ∀ name ty, (name, Symbol.type ty) ∈ symbols → ty < table.types.length

theorem SymbolsIn.mono {tb final : TypeTable} {symbols : List (String × Symbol)}
    (hsy : SymbolsIn tb symbols) (hext : tb.Extends final) :
    SymbolsIn final symbols :=
  fun name ty hm => hext.lt (hsy name ty hm)

/-! ## Type expressions -/

section Resolution

variable {sc : ModuleScope} {symbols : List (String × Symbol)}

/-- The run grows the table and gives a type of it. -/
def Resolves (table : TypeTable) (run : CheckResult (TypeId × TypeTable)) : Prop :=
  Ends True run fun ty after => table.Grows after ∧ ty < after.types.length

theorem resolves_intern {tb : TypeTable} (wf : tb.WellFormed)
    (hadm : tb.Admits tb.types.length kind) : Resolves tb (internType kind tb) := by
  obtain ⟨hg, hf⟩ := TypeTable.intern_grows wf hadm
  exact ⟨hg, (List.getElem?_eq_some_iff.mp hf).1⟩

theorem resolveNamed_lt {tb : TypeTable} (hsy : SymbolsIn tb symbols) {path : Path}
    {sp : Span} (hres : resolveNamed sc symbols path sp = .ok ty) :
    ty < tb.types.length := by
  obtain ⟨_, -, hres⟩ := bind_eq_ok.mp hres
  split at hres
  · rename_i hf
    cases hres
    exact hsy _ _ (mem_of_lookup hf)
  · cases hres

theorem resolves_named {tb : TypeTable} (wf : tb.WellFormed)
    (hsy : SymbolsIn tb symbols) (path : Path) (sp : Span) :
    Resolves tb ((liftM (resolveNamed sc symbols path sp) : TableM TypeId) tb) := by
  rw [← bind_pure (liftM _ : TableM TypeId)]
  refine .run_bind fun ty hres => ?_
  exact ⟨⟨.refl tb, wf⟩, resolveNamed_lt hsy hres⟩

mutual

theorem resolves_type {tb : TypeTable} (wf : tb.WellFormed)
    (hsy : SymbolsIn tb symbols) (ty : TypeExpr) :
    Resolves tb (resolveType sc symbols ty tb) := by
  cases ty with
  | mk kind sp =>
    rw [resolveType]
    exact resolves_typeKind wf hsy sp kind

theorem resolves_typeKind {tb : TypeTable} (wf : tb.WellFormed)
    (hsy : SymbolsIn tb symbols) (sp : Span) (kind : TypeExprKind) :
    Resolves tb (resolveTypeKind sc symbols sp kind tb) := by
  cases kind with
  | named path =>
    match path with
    | [name] =>
      cases hf : TypeTable.primitive name with
      | some =>
        simp only [resolveTypeKind, hf]
        exact ⟨⟨.refl tb, wf⟩, wf.primitive_lt hf⟩
      | none =>
        simp only [resolveTypeKind, hf]
        exact resolves_named wf hsy [name] sp
    | [] => exact resolves_named wf hsy [] sp
    | first :: x2 :: tl => exact resolves_named wf hsy (first :: x2 :: tl) sp
  | pointer mutable pointee =>
    rw [resolveTypeKind]
    refine .then (resolves_type wf hsy pointee) fun ty mid ⟨hg, hi⟩ => ?_
    refine (resolves_intern hg.2 ?_).mono fun _ t interned => ⟨hg.trans interned.1, interned.2⟩
    exact hi
  | array elt =>
    rw [resolveTypeKind]
    refine .then (resolves_type wf hsy elt) fun ty mid ⟨hg, hi⟩ => ?_
    refine (resolves_intern hg.2 ?_).mono fun _ t interned => ⟨hg.trans interned.1, interned.2⟩
    exact hi
  | fnPointer abi params r =>
    rw [resolveTypeKind]
    refine .then (resolves_types wf hsy params) fun tys mid ⟨hg, allInside⟩ => ?_
    refine .then (resolves_type hg.2 (hsy.mono hg.1) r) fun ty middle' ⟨hg', hi⟩ => ?_
    refine (resolves_intern hg'.2 ?_).mono fun _ t interned =>
      ⟨hg.trans (hg'.trans interned.1), interned.2⟩
    exact ⟨fun ty hm => hg'.1.lt (allInside ty hm), hi⟩

theorem resolves_types {tb : TypeTable} (wf : tb.WellFormed)
    (hsy : SymbolsIn tb symbols) (tys : List TypeExpr) :
    Ends True (resolveTypes sc symbols tys tb) fun tys t =>
      tb.Grows t ∧ ∀ ty ∈ tys, ty < t.types.length := by
  cases tys with
  | nil => exact ⟨⟨.refl tb, wf⟩, nofun⟩
  | cons ty tys =>
    rw [resolveTypes]
    refine .then (resolves_type wf hsy ty) fun ty middle ⟨hg, hi⟩ => ?_
    refine .then (resolves_types hg.2 (hsy.mono hg.1) tys) fun tys t ⟨hg', allInside⟩ => ?_
    exact ⟨hg.trans hg', forall_mem_cons.mpr ⟨hg'.1.lt hi, allInside⟩⟩

end

end Resolution

end Ostadix.Ocore
