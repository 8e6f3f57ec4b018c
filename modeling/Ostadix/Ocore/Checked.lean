import Ostadix.Ocore.BodyPass

/-! # Accepted programs

What holds of every program that the type checker accepts: its type table extends the one that the
layout pass left, and its constants and statics are those of the pass over constants. -/

namespace Ostadix.Ocore

open Ast Lib List

section Check

variable {overflow : Overflow} {order : HashOrder} {modules : List (String × SourceModule)}
  {checker t : Checker} {program : ProgramTables}

/-- The pass over bodies only grows the type table and fills in functions. -/
structure Checker.BodiesFilled (checker after : Checker) : Prop where
  valid : after.program.Valid
  types : checker.program.types.Extends after.program.types
  statics : after.program.statics = checker.program.statics
  consts : after.program.consts = checker.program.consts

theorem Checker.BodiesFilled.trans {mid : Checker} (first : checker.BodiesFilled mid)
    (x2 : mid.BodiesFilled t) : checker.BodiesFilled t :=
  ⟨x2.valid, first.types.trans x2.types, x2.statics.trans first.statics,
    x2.consts.trans first.consts⟩

/-- The function has a body, and `Node` holds of every expression in it. -/
def ProgramTables.Filled (program : ProgramTables) (id : FunctionId) : Prop :=
  ∃ function block, program.functions[id]? = some function ∧ function.body = some block ∧
    BlockForall (Node ⟨program.statics, program.functions.map (·.result), function.locals,
      program.types⟩) block

theorem ends_checkFunctionBody (hv : checker.program.Valid) (id : FunctionId)
    (dfn : Definition Function) :
    Ends True (checkFunctionBody id dfn checker) fun _ t => checker.BodiesFilled t ∧
      ∀ i, checker.program.Filled i ∨ i = id ∧ dfn.definition.body ≠ none → t.program.Filled i := by
  rw [checkFunctionBody]
  cases dfn.definition.body with
  | none => exact ⟨⟨hv, .refl _, rfl, rfl⟩, by simp⟩
  | some bd =>
    refine Ends.get_bind (Ends.run_bind fun fn hf => ?_)
    have found := unwrap_eq_ok.mp hf
    have hm := mem_of_getElem? found
    obtain ⟨resultInside, localsInside⟩ := hv.functions fn hm
    refine Ends.run_bind fun ran checkedBlock => ?_
    obtain ⟨hk, s⟩ := ran
    have st0 : BodyState.Valid ⟨dfn.scope, checker.program, fn.result,
        if fn.unsafe_ then 1 else 0, 0⟩
        ⟨checker.program.types, fn.locals, [paramScope fn.locals]⟩ :=
      ⟨hv, localsInside⟩
    obtain ⟨hg, all⟩ := (ends_checkBlock st0 bd).ok checkedBlock
    refine Ends.run_bind fun _ _ => ?_
    have hgn := hv.grow ⟨hg.types, hg.valid.types⟩
    refine ⟨⟨⟨hgn.types, hgn.symbols, hgn.distinct, ?_, hgn.statics, hgn.consts⟩, hg.types, rfl,
      rfl⟩, fun i known => ?_⟩
    · intro o hls
      obtain old | rfl := mem_or_eq_of_mem_set hls
      · exact hgn.functions o old
      · exact ⟨hg.lt resultInside, hg.valid.locals⟩
    -- `Node` reads the results of functions, which stay
    have results : (checker.program.functions.set id
        { fn with locals := s.locals, body := some hk }).map (·.result) =
        checker.program.functions.map (·.result) := by
      apply ext_getElem?
      grind
    obtain rfl | other := eq_or_ne i id
    · refine ⟨_, hk, getElem?_set_self (List.getElem?_eq_some_iff.mp found).1, rfl, .mono ?_ hk all⟩
      exact Node.grow ⟨rfl, results, prefix_rfl, .refl _⟩
    · obtain ⟨o, blk, old, body, all⟩ | ⟨rfl, -⟩ := known
      · refine ⟨o, blk, (getElem?_set_ne other.symm).trans old, body, .mono ?_ blk all⟩
        exact Node.grow ⟨rfl, results, prefix_rfl, hg.types⟩
      · exact absurd rfl other

theorem ends_fillBodies (hv : checker.program.Valid) (defs : List (Definition Function × Nat)) :
    Ends True ((defs.forM fun (dfn, id) => checkFunctionBody id dfn : CheckM Unit) checker) fun _ t =>
      checker.BodiesFilled t ∧ ∀ i, checker.program.Filled i ∨
        (∃ dfn, (dfn, i) ∈ defs ∧ dfn.definition.body ≠ none) → t.program.Filled i := by
  induction defs generalizing checker with
  | nil => exact ⟨⟨hv, .refl _, rfl, rfl⟩, by simp⟩
  | cons dfn defs ih =>
    refine .then (ends_checkFunctionBody hv dfn.2 dfn.1) fun _ mid first => ?_
    refine (ih first.1.valid).mono fun _ t rest => ⟨first.1.trans rest.1, fun i known => ?_⟩
    refine rest.2 i ?_
    obtain known | ⟨dfn', listed, body⟩ := known
    · exact .inl (first.2 i (.inl known))
    · obtain rfl | listed := mem_cons.mp listed
      · exact .inl (first.2 i (.inr ⟨rfl, body⟩))
      · exact .inr ⟨dfn', listed, body⟩

/-- The values do not touch the types of constants and statics. -/
theorem ProgramTables.Valid.evaluate {consts : List ConstEntry} {statics : List StaticEntry}
    (hv : program.Valid) (constTys : consts.map (·.ty) = program.consts.map (·.ty))
    (staticTys : statics.map (·.ty) = program.statics.map (·.ty)) :
    ProgramTables.Valid { program with consts, statics } where
  types := hv.types
  symbols := hv.symbols
  distinct := hv.distinct
  functions := hv.functions
  statics static hm := by
    have hls : static.ty ∈ program.statics.map (·.ty) := staticTys ▸ mem_map_of_mem hm
    obtain ⟨orig, originalMember, he⟩ := mem_map.mp hls
    exact he ▸ hv.statics orig originalMember
  consts const hm := by
    have hls : const.ty ∈ program.consts.map (·.ty) := constTys ▸ mem_map_of_mem hm
    obtain ⟨orig, originalMember, he⟩ := mem_map.mp hls
    exact he ▸ hv.consts orig originalMember

theorem check_ok (ha : check overflow order modules = .ok program) :
    ∃ ck, declare overflow order modules = .ok ck ∧ ck.Valid ∧ program.Valid ∧
      ck.program.types.Extends program.types ∧
      Evaluated ck ck.constDefs.length program.consts ∧
      Initialized ck program.consts ck.staticDefs.length program.statics := by
  obtain ⟨ck, hd, tl⟩ := bind_eq_ok.mp ha
  obtain ⟨⟨⟨⟩, _⟩, ran, ⟨⟩⟩ := bind_eq_ok.mp tl
  obtain ⟨⟨⟩, _, valuesRan, bodiesRan⟩ := run_bind_eq_ok.mp ran
  have hv := (declare_ok hd).1
  obtain ⟨consts, statics, rfl, hev, hini⟩ := checkConstantsAndStatics_ok hv.toUnevaluated valuesRan
  have hmv := hv.program.evaluate hev.tys hini.tys
  obtain ⟨filled, -⟩ := (ends_fillBodies hmv _).ok bodiesRan
  refine ⟨ck, hd, hv, filled.valid, filled.types, ?_, ?_⟩
  · rw [filled.consts]
    exact hev
  · rw [filled.consts, filled.statics]
    exact hini

/-! ## Bodies -/

/-- The constants and statics of an accepted program have the values that substitution gives,
exactly if every constant is declared after the constants its initializer names. -/
theorem constants_hold_iff_ordered (accepted : check overflow order modules = .ok program) :
    ∃ checker, declare overflow order modules = .ok checker ∧
      (checker.Holds program.consts program.statics ↔ checker.Ordered) := by
  obtain ⟨checker, declared, valid, -, -, evaluated, initialized⟩ := check_ok accepted
  exact ⟨checker, declared,
    holds_iff valid.toUnevaluated valid.program.distinct evaluated initialized⟩

/-! ## Layouts -/

end Check

/-- Definitions in the order of their declarations. -/
def HashOrder.declared : HashOrder where
  structs := id
  enums := id
  structs_perm _ := .refl _
  enums_perm _ := .refl _

def wordType : TypeExpr :=
  .mk (.named ["u64"]) .default

/-- `const A: u64 = B; const B: u64 = 5;` and the same with `B` first. -/
def laterConstant : List Item :=
  [⟨[], .const ⟨"A", wordType, .mk (.path ["B"]) .default⟩, .default⟩,
    ⟨[], .const ⟨"B", wordType, .mk (.integer 5) .default⟩, .default⟩]

def sampleModule (items : List Item) : List (String × SourceModule) :=
  [("main.oc", ⟨["main"], [], items, .default⟩)]

/-- A constant that is named before its declaration is taken to be zero. -/
theorem laterConstant_is_zero :
    ∃ program checker, check .wraps .declared (sampleModule laterConstant) = .ok program ∧
      declare .wraps .declared (sampleModule laterConstant) = .ok checker ∧
      program.consts.map (·.value) = [.zero, .integer 5] ∧
      ¬checker.Holds program.consts program.statics := by
  refine ⟨_, _, rfl, rfl, rfl, fun holds => ?_⟩
  obtain ⟨fuel, value⟩ := holds.consts 0 _ rfl
  -- substitution finds the value of the other constant, two definitions deep
  match fuel with
  | 0 => cases value
  | 1 => cases value
  | fuel + 2 => cases value

theorem earlierConstant_holds :
    ∃ program, check .wraps .declared (sampleModule laterConstant.reverse) = .ok program ∧
      ∃ checker, declare .wraps .declared (sampleModule laterConstant.reverse) = .ok checker ∧
        (checker.Holds program.consts program.statics ↔ checker.Ordered) :=
  ⟨_, rfl, constants_hold_iff_ordered rfl⟩

end Ostadix.Ocore
