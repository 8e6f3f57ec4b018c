import Mathlib.Data.List.Pairwise
import Mathlib.Data.List.Nodup
import Ostadix.Lib.Dominance
import Ostadix.Ocore.Mir

/-! # Well-formed SSA

What it means for a MIR function to be in SSA form, and a certificate of it for a function under
construction: for every block the values that are available whenever the block is entered. -/

namespace Ostadix.Ocore

open Ostadix.Lib List

/-! ## Definitions and uses -/

def Projection.uses : Projection → List ValueId
  | .field _ => []
  | .index value _ => [value]

def PlaceBase.uses : PlaceBase → List ValueId
  | .local _ | static _ => []
  | pointer value => [value]

def Place.uses (place : Place) : List ValueId :=
  place.base.uses ++ place.projections.flatMap Projection.uses

def MirAsmOperand.uses : MirAsmOperand → List ValueId
  | .in _ value => [value]
  | out _ target => target.uses
  | inOut _ input output => input :: output.uses

namespace Instruction

def dst : Instruction → Option ValueId
  | const dst _ | functionAddress dst _ | addressOf dst _ | load dst .. | unary dst .. | binary dst ..
  | cast dst .. | phi dst _ => some dst
  | call dst .. | callIndirect dst .. | intrinsic dst .. => dst
  | store .. | copy .. | asm .. => none

/-- The operands of an instruction, except those of a `phi`, which are read on the edges. -/
def uses : Instruction → List ValueId
  | const .. | functionAddress .. | phi .. => []
  | addressOf _ place | load _ place _ => place.uses
  | store place value _ => value :: place.uses
  | copy destination source _ => destination.uses ++ source.uses
  | unary _ _ operand => [operand]
  | binary _ _ lhs rhs => [lhs, rhs]
  | cast _ value .. => [value]
  | call _ _ args | intrinsic _ _ args => args
  | callIndirect _ callee args => callee :: args
  | asm _ operands _ => operands.flatMap MirAsmOperand.uses

end Instruction

namespace Terminator

def uses : Terminator → List ValueId
  | pending | unreachable | .return none | jump _ => []
  | .return (some value) => [value]
  | branch condition .. => [condition]

def targets : Terminator → List BlockId
  | pending | unreachable | .return _ => []
  | jump target => [target]
  | branch _ thenBlock elseBlock => [thenBlock, elseBlock]

end Terminator

/-! ## Well-formed functions -/

namespace MirFunction

/-- The edges of the control-flow graph. -/
def Edge (function : MirFunction) (source target : BlockId) : Prop :=
  ∃ block, function.blocks[source]? = some block ∧ target ∈ block.terminator.targets

/-- The instruction at an index of a block. -/
def At (function : MirFunction) (point : BlockId × Nat) (instruction : Instruction) : Prop :=
  ∃ block, function.blocks[point.1]? = some block ∧ block.instructions[point.2]? = some instruction

def DefinedAt (function : MirFunction) (value : ValueId) (point : BlockId × Nat) : Prop :=
  ∃ instruction, function.At point instruction ∧ instruction.dst = some value

/-- A terminator counts as the point after the last instruction. -/
def UsedAt (function : MirFunction) (value : ValueId) (point : BlockId × Nat) : Prop :=
  (∃ instruction, function.At point instruction ∧ value ∈ instruction.uses) ∨
  ∃ block, function.blocks[point.1]? = some block ∧ point.2 = block.instructions.length ∧
    value ∈ block.terminator.uses

/-- Every way from the entry to `point` has executed the instruction at `definition`. -/
def Dominates (function : MirFunction) (definition point : BlockId × Nat) : Prop :=
  (definition.1 = point.1 ∧ definition.2 < point.2) ∨
    StrictlyDominates function.entry function.Edge definition.1 point.1

def ReachableBlock (function : MirFunction) (block : BlockId) : Prop :=
  Reachable function.entry function.Edge block

/-- The point after the last instruction of a block. -/
def endOf (function : MirFunction) (block : BlockId) : BlockId × Nat :=
  (block, (function.blocks.getD block .empty).instructions.length)

structure WellFormedSsa (function : MirFunction) : Prop where
  entryExists : function.entry < function.blocks.length
  definedOnce : ∀ value, value < function.values.length →
    ∃! point, function.DefinedAt value point
  onlyDefined : ∀ value point, function.DefinedAt value point → value < function.values.length
  usesDominated : ∀ value point, function.ReachableBlock point.1 → function.UsedAt value point →
    ∃ definition, function.DefinedAt value definition ∧ function.Dominates definition point
  phisDominated : ∀ point dst incoming, function.ReachableBlock point.1 →
    function.At point (.phi dst incoming) → ∀ predecessor value, (predecessor, value) ∈ incoming →
    ∃ definition, function.DefinedAt value definition ∧
      function.Dominates definition (function.endOf predecessor)
  phisComplete : ∀ point dst incoming, function.At point (.phi dst incoming) →
    (incoming.map Prod.fst).Nodup ∧
      ∀ predecessor, predecessor ∈ incoming.map Prod.fst ↔ function.Edge predecessor point.1
  noPending : ∀ block ∈ function.blocks, block.terminator ≠ .pending
  targetsExist : ∀ source target, function.Edge source target → target < function.blocks.length

end MirFunction

/-! ## Certificates -/

namespace FunctionBuilder

variable (builder : FunctionBuilder)

def instructions (block : BlockId) : List Instruction :=
  (builder.block block).instructions

def targets (block : BlockId) : List BlockId :=
  (builder.block block).terminator.targets

def Pending (block : BlockId) : Prop :=
  (builder.block block).terminator = .pending

def Defines (block : BlockId) (value : ValueId) : Prop :=
  ∃ instruction ∈ builder.instructions block, instruction.dst = some value

def NoPhi (block : BlockId) : Prop :=
  ∀ dst incoming, .phi dst incoming ∉ builder.instructions block

/-- A block that `break` or `continue` may jump to. -/
def LoopTarget (block : BlockId) : Prop :=
  ∃ targets ∈ builder.loops, block = targets.1 ∨ block = targets.2

/-- All values defined so far, block by block. -/
def definitions : List ValueId :=
  builder.blocks.flatMap fun block => block.instructions.filterMap Instruction.dst

end FunctionBuilder

/-- The values available whenever a block is entered. -/
abbrev Certificate := BlockId → ValueId → Prop

/-- Available at the end of a block. -/
def Available (builder : FunctionBuilder) (certificate : Certificate) (block : BlockId)
    (value : ValueId) : Prop :=
  certificate block value ∨ builder.Defines block value

/-- `certificate` certifies the blocks built so far; `waiting` are the blocks other than the
current one that have no terminator yet. -/
structure Certified (builder : FunctionBuilder) (certificate : Certificate)
    (waiting : BlockId → Prop) : Prop where
  currentExists : builder.current < builder.blocks.length
  pendingWaits : ∀ block, block < builder.blocks.length → builder.Pending block →
    block = builder.current ∨ waiting block
  targetsExist : ∀ block, ∀ target ∈ builder.targets block, target < builder.blocks.length
  loopTargets : ∀ target, builder.LoopTarget target →
    target < builder.blocks.length ∧ (∀ value, ¬ certificate target value) ∧ builder.NoPhi target
  certifiedDefined : ∀ block value, certificate block value → value < builder.values.length
  atEntry : ∀ value, ¬ certificate 0 value
  alongEdge : ∀ block, ∀ target ∈ builder.targets block, ∀ value, certificate target value →
    Available builder certificate block value
  usesAvailable : ∀ block before instruction after,
    builder.instructions block = before ++ instruction :: after →
    ∀ value ∈ instruction.uses,
      certificate block value ∨ ∃ earlier ∈ before, earlier.dst = some value
  terminatorAvailable : ∀ block, ∀ value ∈ (builder.block block).terminator.uses,
    Available builder certificate block value
  phis : ∀ block dst incoming, .phi dst incoming ∈ builder.instructions block →
    (incoming.map Prod.fst).Nodup ∧
      (∀ predecessor, predecessor ∈ incoming.map Prod.fst ↔ block ∈ builder.targets predecessor) ∧
      ∀ predecessor value, (predecessor, value) ∈ incoming →
        Available builder certificate predecessor value
  definitions : builder.definitions.Perm (List.range builder.values.length)

/-! ## From certificates to well-formed functions -/

/-- In a list without repetitions a defined value tells its index. -/
theorem filterMap_index_unique {α β : Type} {define : α → Option β} {xs : List α}
    (nodup : (xs.filterMap define).Nodup) {left right : Nat} {first x2 : α} {v : β}
    (leftAt : xs[left]? = some first) (rightAt : xs[right]? = some x2)
    (leftDefines : define first = some v) (rightDefines : define x2 = some v) :
    left = right := by
  rw [Nodup, pairwise_filterMap, pairwise_iff_getElem] at nodup
  obtain ⟨leftIn, rfl⟩ := List.getElem?_eq_some_iff.mp leftAt
  obtain ⟨rightIn, rfl⟩ := List.getElem?_eq_some_iff.mp rightAt
  rcases Nat.lt_trichotomy left right with before | same | after
  · exact absurd rfl (nodup _ _ leftIn rightIn before v leftDefines v rightDefines)
  · exact same
  · exact absurd rfl (nodup _ _ rightIn leftIn after v rightDefines v leftDefines)

/-- The function a finished builder stands for. -/
def FunctionBuilder.finish (builder : FunctionBuilder) (source : FunctionId) : MirFunction :=
  ⟨source, builder.localTypes, builder.values, builder.blocks, 0⟩

section Finish

variable {b : FunctionBuilder} {src : FunctionId}

variable {blk : BlockId} {point : BlockId × Nat}

theorem block_of_getElem? {bb : BasicBlock} (hp : b.blocks[blk]? = some bb) : b.block blk = bb := by
  rw [FunctionBuilder.block, getD_eq_getElem?_getD, hp, Option.getD_some]

theorem edge_finish {blk tgt : BlockId} : (b.finish src).Edge blk tgt ↔ tgt ∈ b.targets blk := by
  constructor
  · rintro ⟨hf, hp, hm⟩
    rw [FunctionBuilder.targets, block_of_getElem? hp]
    exact hm
  · intro hm
    rw [FunctionBuilder.targets, FunctionBuilder.block, getD_eq_getElem?_getD] at hm
    cases hp : b.blocks[blk]? with
    | none => rw [hp] at hm; cases hm
    | some hf => rw [hp] at hm; exact ⟨hf, hp, hm⟩

theorem at_finish {ins : Instruction} : (b.finish src).At point ins ↔
      (b.instructions point.1)[point.2]? = some ins := by
  constructor
  · rintro ⟨hf, hp, hm⟩
    rw [FunctionBuilder.instructions, block_of_getElem? hp]
    exact hm
  · intro hm
    rw [FunctionBuilder.instructions, FunctionBuilder.block, getD_eq_getElem?_getD] at hm
    cases hp : b.blocks[point.1]? with
    | none => rw [hp] at hm; cases hm
    | some hf => rw [hp] at hm; exact ⟨hf, hp, hm⟩

variable {v : ValueId}

theorem mem_definitions (src : FunctionId) :
    v ∈ b.definitions ↔ ∃ point, (b.finish src).DefinedAt v point := by
  simp only [FunctionBuilder.definitions, mem_flatMap, mem_filterMap]
  constructor
  · rintro ⟨hf, hst, ins, hm, hdef⟩
    obtain ⟨blk, hp⟩ := mem_iff_getElem?.mp hst
    obtain ⟨i, hloc⟩ := mem_iff_getElem?.mp hm
    exact ⟨(blk, i), ins, ⟨hf, hp, hloc⟩, hdef⟩
  · rintro ⟨point, ins, ⟨hf, hp, hloc⟩, hdef⟩
    exact ⟨hf, mem_of_getElem? hp, ins, mem_of_getElem? hloc, hdef⟩

theorem definedAt_unique (nodup : b.definitions.Nodup) {left right : BlockId × Nat}
    (leftDefines : (b.finish src).DefinedAt v left)
    (rightDefines : (b.finish src).DefinedAt v right) : left = right := by
  obtain ⟨leftBlock, _⟩ := left
  obtain ⟨rightBlock, _⟩ := right
  obtain ⟨first, ⟨leftFound, hpl, leftAt⟩, leftDst⟩ := leftDefines
  obtain ⟨x2, ⟨_, hpr, rightAt⟩, rightDst⟩ := rightDefines
  obtain ⟨nodups, disjoint⟩ := List.nodup_flatMap.mp nodup
  have sameBlock : leftBlock = rightBlock := by
    by_contra apart
    obtain ⟨leftLt, rfl⟩ := List.getElem?_eq_some_iff.mp hpl
    obtain ⟨rightLt, rfl⟩ := List.getElem?_eq_some_iff.mp hpr
    have leftMember := List.mem_filterMap.mpr ⟨first, List.mem_of_getElem? leftAt, leftDst⟩
    have rightMember := List.mem_filterMap.mpr ⟨x2, List.mem_of_getElem? rightAt, rightDst⟩
    rw [pairwise_iff_getElem] at disjoint
    obtain below | above := Nat.lt_or_gt_of_ne apart
    · exact disjoint leftBlock rightBlock leftLt rightLt below leftMember rightMember
    · exact disjoint rightBlock leftBlock rightLt leftLt above rightMember leftMember
  subst sameBlock
  cases hpl.symm.trans hpr
  have sameIndex := filterMap_index_unique (nodups leftFound (mem_of_getElem? hpl))
    leftAt rightAt leftDst rightDst
  exact Prod.ext rfl sameIndex

variable {cert : Certificate} {wt : BlockId → Prop}

theorem Certified.nodup (hc : Certified b cert wt) : b.definitions.Nodup :=
  hc.definitions.nodup_iff.mpr nodup_range

theorem Certified.availability (hc : Certified b cert wt) :
    Availability 0 (b.finish src).Edge b.Defines cert where
  atEntry := hc.atEntry
  alongEdge e hav := hc.alongEdge _ _ (edge_finish.mp e) _ hav

theorem defines_of_definedAt (hdf : (b.finish src).DefinedAt v point) : b.Defines point.1 v := by
  obtain ⟨ins, hloc, hdef⟩ := hdf
  exact ⟨ins, mem_of_getElem? (at_finish.mp hloc), hdef⟩

theorem exists_definedAt_of_defines (hdef : b.Defines blk v) :
    ∃ i < (b.instructions blk).length, (b.finish src).DefinedAt v (blk, i) := by
  obtain ⟨ins, hm, hdef⟩ := hdef
  obtain ⟨i, hloc⟩ := List.mem_iff_getElem?.mp hm
  obtain ⟨hb, _⟩ := List.getElem?_eq_some_iff.mp hloc
  exact ⟨i, hb, ins, at_finish.mpr hloc, hdef⟩

section

variable (hc : Certified b cert wt)

include hc

/-- A value certified at a reachable block is defined in a block that strictly dominates it. -/
theorem Certified.strictlyDominates (reachable : (b.finish src).ReachableBlock blk)
    (hav : cert blk v) :
    ∃ dfn, (b.finish src).DefinedAt v dfn ∧
      StrictlyDominates 0 (b.finish src).Edge dfn.1 blk := by
  obtain ⟨hvis, walk⟩ := reachable
  obtain ⟨home, _, hdef⟩ := hc.availability.defined walk hav
  obtain ⟨i, _, hdf⟩ := exists_definedAt_of_defines hdef
  refine ⟨(home, i), hdf, ?_⟩
  refine strictlyDominates_of_available hc.availability ?_ ⟨hvis, walk⟩ hav
  intro o otherDefines
  obtain ⟨_, _, otherDefined⟩ := exists_definedAt_of_defines otherDefines
  exact congrArg Prod.fst (definedAt_unique hc.nodup otherDefined hdf)

/-- What is available at the end of a block is defined on every way to that end, also if there
is none. -/
theorem Certified.dominates_end (src : FunctionId) (hav : Available b cert blk v) :
    ∃ dfn, (b.finish src).DefinedAt v dfn ∧ (b.finish src).Dominates dfn
        (blk, (b.instructions blk).length) := by
  by_cases hdef : b.Defines blk v
  · obtain ⟨i, hb, hdf⟩ := exists_definedAt_of_defines hdef
    exact ⟨(blk, i), hdf, .inl ⟨rfl, hb⟩⟩
  · have hent : cert blk v := hav.resolve_right hdef
    by_cases reachable : (b.finish src).ReachableBlock blk
    · obtain ⟨dfn, hdf, dominates⟩ := hc.strictlyDominates reachable hent
      exact ⟨dfn, hdf, .inr dominates⟩
    · have hm : v ∈ b.definitions := by
        rw [hc.definitions.mem_iff, mem_range]
        exact hc.certifiedDefined blk v hent
      obtain ⟨dfn, hdf⟩ := (mem_definitions src).mp hm
      refine ⟨dfn, hdf, .inr ⟨?_, ?_⟩⟩
      · rintro rfl
        exact hdef (defines_of_definedAt hdf)
      · intro hvis walk
        exact absurd ⟨hvis, walk⟩ reachable

theorem Certified.usesDominated (reachable : (b.finish src).ReachableBlock point.1)
    (used : (b.finish src).UsedAt v point) :
    ∃ dfn, (b.finish src).DefinedAt v dfn ∧
      (b.finish src).Dominates dfn point := by
  obtain ⟨blk, i⟩ := point
  obtain ⟨ins, hloc, hm⟩ | ⟨hf, hp, rfl, hm⟩ := used
  · have hloc := at_finish.mp hloc
    obtain ⟨_, hf⟩ := List.getElem?_eq_some_iff.mp hloc
    have split : b.instructions blk = (b.instructions blk).take i ++
        ins :: (b.instructions blk).drop (i + 1) := by
      rw [← hf, List.getElem_cons_drop, List.take_append_drop]
    obtain hent | ⟨hear, earlierMember, hdef⟩ := hc.usesAvailable blk _ _ _ split v hm
    · obtain ⟨dfn, hdf, dominates⟩ := hc.strictlyDominates reachable hent
      exact ⟨dfn, hdf, .inr dominates⟩
    · obtain ⟨pos, earlierAt⟩ := List.mem_iff_getElem?.mp earlierMember
      obtain ⟨positionBound, _⟩ := List.getElem?_eq_some_iff.mp earlierAt
      have s : pos < i := by
        rw [List.length_take] at positionBound
        omega
      rw [getElem?_take_of_lt s] at earlierAt
      exact ⟨(blk, pos), ⟨hear, at_finish.mpr earlierAt, hdef⟩, .inl ⟨rfl, s⟩⟩
  · have hav := hc.terminatorAvailable blk v (by
      rw [block_of_getElem? hp]
      exact hm)
    have hh := hc.dominates_end src hav
    rw [FunctionBuilder.instructions, block_of_getElem? hp] at hh
    exact hh

end

/-- A certified builder without pending blocks is a function in SSA form. -/
theorem Certified.wellFormedSsa (hc : Certified b cert fun _ => False)
    (hcl : ¬ b.Pending b.current) : (b.finish src).WellFormedSsa  where
  entryExists := Nat.zero_lt_of_lt hc.currentExists
  definedOnce v hb := by
    have hm : v ∈ b.definitions := by
      rw [hc.definitions.mem_iff, mem_range]
      exact hb
    obtain ⟨point, hdf⟩ := (mem_definitions src).mp hm
    exact ⟨point, hdf, fun o otherDefined =>
      definedAt_unique hc.nodup otherDefined hdf⟩
  onlyDefined v point hdf := by
    have hm := (mem_definitions src).mpr ⟨point, hdf⟩
    rw [hc.definitions.mem_iff, mem_range] at hm
    exact hm
  usesDominated v point reachable used := hc.usesDominated reachable used
  phisDominated point dst inc _ hloc pred v hm := by
    obtain ⟨_, _, hav⟩ := hc.phis point.1 dst inc (mem_of_getElem? (at_finish.mp hloc))
    exact hc.dominates_end src (hav pred v hm)
  phisComplete point dst inc hloc := by
    obtain ⟨nodup, hcpl, _⟩ := hc.phis point.1 dst inc (mem_of_getElem? (at_finish.mp hloc))
    refine ⟨nodup, ?_⟩
    intro pred
    rw [hcpl pred, edge_finish]
  noPending hf hst pend := by
    obtain ⟨blk, hp⟩ := List.mem_iff_getElem?.mp hst
    obtain ⟨hb, _⟩ := List.getElem?_eq_some_iff.mp hp
    have hbp : b.Pending blk := by
      rw [FunctionBuilder.Pending, block_of_getElem? hp]
      exact pend
    obtain rfl | waits := hc.pendingWaits blk hb hbp
    · exact hcl hbp
    · exact waits
  targetsExist blk tgt e := hc.targetsExist blk tgt (edge_finish.mp e)

end Finish

end Ostadix.Ocore
