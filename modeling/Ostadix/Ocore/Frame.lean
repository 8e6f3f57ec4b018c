import Ostadix.Ocore.Ssa

/-! # Steps of a certified builder

What the primitives of the builder do to the blocks, and that each of them keeps the builder
certified. `Frame` says what else stays as it was: blocks other than the current one are not
touched, and no edge into an old block appears, except to a loop target. -/

namespace Ostadix.Ocore

variable {blk : BlockId}

namespace FunctionBuilder

/-! ## Blocks after a step -/

/-- Add values and one instruction at the end of the current block. -/
def append (builder : FunctionBuilder) (tys : List TypeId) (instruction : Instruction) :
    FunctionBuilder :=
  { builder with values := builder.values ++ tys }.modifyCurrent fun block =>
    { block with instructions := block.instructions ++ [instruction] }

/-- Close the current block. -/
def close (builder : FunctionBuilder) (terminator : Terminator) : FunctionBuilder :=
  builder.modifyCurrent fun block => { block with terminator }

/-- Add new blocks. -/
def addBlocks (builder : FunctionBuilder) (count : Nat) : FunctionBuilder :=
  { builder with blocks := builder.blocks ++ List.replicate count .empty }

variable {b : FunctionBuilder}

theorem block_of_le (beyond : b.blocks.length ≤ blk) : b.block blk = .empty := by
  rw [FunctionBuilder.block, List.getD_eq_getElem?_getD, List.getElem?_eq_none beyond,
    Option.getD_none]

theorem block_modifyCurrent (hcur : b.current < b.blocks.length)
    (chg : BasicBlock → BasicBlock) (blk : BlockId) :
    (b.modifyCurrent chg).block blk =
      if blk = b.current then chg (b.block blk) else b.block blk := by
  simp only [FunctionBuilder.block, modifyCurrent, List.getD_eq_getElem?_getD, List.getElem?_modify]
  by_cases he : blk = b.current
  · subst he
    simp [List.getElem?_eq_getElem hcur]
  · have other : ¬ b.current = blk := fun heq => he heq.symm
    simp [he, other]

@[simp] theorem length_blocks_modifyCurrent (chg : BasicBlock → BasicBlock) :
    (b.modifyCurrent chg).blocks.length = b.blocks.length := by
  simp [modifyCurrent]

/-- A block out of range reads as empty, so added blocks are no change. -/
@[simp] theorem block_addBlocks (n : Nat) (blk : BlockId) :
    (b.addBlocks n).block blk = b.block blk := by
  simp only [FunctionBuilder.block, addBlocks, List.getD_eq_getElem?_getD]
  by_cases old : blk < b.blocks.length
  · rw [List.getElem?_append_left old]
  · rw [List.getElem?_append_right (Nat.le_of_not_lt old),
      List.getElem?_eq_none (Nat.le_of_not_lt old), List.getElem?_replicate]
    split <;> rfl

@[simp] theorem length_addBlocks (n : Nat) :
    (b.addBlocks n).blocks.length = b.blocks.length + n := by
  simp [addBlocks]

theorem addBlocks_addBlocks (n more : Nat) :
    (b.addBlocks n).addBlocks more = b.addBlocks (n + more) := by
  simp [addBlocks]

@[simp] theorem current_addBlocks (n : Nat) : (b.addBlocks n).current = b.current := rfl

@[simp] theorem block_goTo (blk o : BlockId) : (b.goTo blk).block o = b.block o := rfl

@[simp] theorem instructions_goTo (blk o : BlockId) :
    (b.goTo blk).instructions o = b.instructions o := rfl

@[simp] theorem targets_goTo (blk o : BlockId) : (b.goTo blk).targets o = b.targets o := rfl

@[simp] theorem blocks_goTo (blk : BlockId) : (b.goTo blk).blocks = b.blocks := rfl

@[simp] theorem values_goTo (blk : BlockId) : (b.goTo blk).values = b.values := rfl

@[simp] theorem loops_goTo (blk : BlockId) : (b.goTo blk).loops = b.loops := rfl

@[simp] theorem current_goTo (blk : BlockId) : (b.goTo blk).current = blk := rfl

@[simp] theorem current_append (tys : List TypeId) (ins : Instruction) :
    (b.append tys ins).current = b.current := rfl

@[simp] theorem loops_append (tys : List TypeId) (ins : Instruction) :
    (b.append tys ins).loops = b.loops := rfl

@[simp] theorem length_blocks_append (tys : List TypeId) (ins : Instruction) :
    (b.append tys ins).blocks.length = b.blocks.length :=
  length_blocks_modifyCurrent _

@[simp] theorem length_values_append (tys : List TypeId) (ins : Instruction) :
    (b.append tys ins).values.length = b.values.length + tys.length :=
  List.length_append

@[simp] theorem current_close (term : Terminator) : (b.close term).current = b.current := rfl

@[simp] theorem loops_close (term : Terminator) : (b.close term).loops = b.loops := rfl

@[simp] theorem values_close (term : Terminator) : (b.close term).values = b.values := rfl

@[simp] theorem length_blocks_close (term : Terminator) :
    (b.close term).blocks.length = b.blocks.length :=
  length_blocks_modifyCurrent _

section Append

variable (currentExists : b.current < b.blocks.length) (tys : List TypeId)
  (ins : Instruction)
include currentExists

theorem block_append (blk : BlockId) : (b.append tys ins).block blk = if blk = b.current then
        ⟨b.instructions blk ++ [ins], (b.block blk).terminator⟩
      else b.block blk :=
  block_modifyCurrent currentExists _ blk

theorem instructions_append (blk : BlockId) : (b.append tys ins).instructions blk =
      if blk = b.current then b.instructions blk ++ [ins]
      else b.instructions blk := by
  rw [instructions, block_append currentExists]
  by_cases he : blk = b.current
  · rw [if_pos he, if_pos he]
  · rw [if_neg he, if_neg he]
    rfl

theorem terminator_append (blk : BlockId) : ((b.append tys ins).block blk).terminator =
      (b.block blk).terminator := by
  rw [block_append currentExists]
  by_cases he : blk = b.current
  · rw [if_pos he]
  · rw [if_neg he]

end Append

section Close

variable (currentExists : b.current < b.blocks.length) (term : Terminator)
include currentExists

theorem block_close (blk : BlockId) : (b.close term).block blk =
      if blk = b.current then ⟨b.instructions blk, term⟩
      else b.block blk :=
  block_modifyCurrent currentExists _ blk

theorem instructions_close (blk : BlockId) :
    (b.close term).instructions blk = b.instructions blk := by
  rw [instructions, block_close currentExists]
  by_cases he : blk = b.current
  · rw [if_pos he]
  · rw [if_neg he]
    rfl

theorem terminator_close (blk : BlockId) : ((b.close term).block blk).terminator =
      if blk = b.current then term else (b.block blk).terminator := by
  rw [block_close currentExists]
  by_cases he : blk = b.current
  · rw [if_pos he, if_pos he]
  · rw [if_neg he, if_neg he]

end Close

/-! ## The list of definitions -/

theorem flatMap_modify_perm {α β : Type} {collect : α → List β} {chg : α → α} {more : List β} :
    ∀ {xs : List α} {i : Nat} {x : α}, xs[i]? = some x → collect (chg x) = collect x ++ more →
      ((xs.modify i chg).flatMap collect).Perm (xs.flatMap collect ++ more)
  | first :: xs, 0, x, hf, hch => by
    cases hf
    simp only [List.modify_zero_cons, List.flatMap_cons, hch, List.append_assoc]
    exact List.Perm.append_left _ List.perm_append_comm
  | first :: xs, i + 1, x, hf, hch => by
    simp only [List.modify_succ_cons, List.flatMap_cons, List.append_assoc]
    exact List.Perm.append_left _ (flatMap_modify_perm hf hch)

theorem definitions_append (hcur : b.current < b.blocks.length)
    (tys : List TypeId) (ins : Instruction) :
    (b.append tys ins).definitions.Perm (b.definitions ++ ins.dst.toList) := by
  refine flatMap_modify_perm (List.getElem?_eq_getElem hcur) ?_
  simp only [List.filterMap_append, List.filterMap_cons, List.filterMap_nil]
  cases ins.dst <;> rfl

theorem flatMap_modify_eq {α β : Type} {collect : α → List β} {chg : α → α} {xs : List α}
    (i : Nat) (he : ∀ x, collect (chg x) = collect x) :
    (xs.modify i chg).flatMap collect = xs.flatMap collect := by
  induction xs generalizing i with
  | nil => simp
  | cons x xs ih => cases i <;> simp [he, ih]

theorem definitions_close (term : Terminator) : (b.close term).definitions = b.definitions :=
  flatMap_modify_eq b.current fun _ => rfl

theorem definitions_addBlocks (n : Nat) : (b.addBlocks n).definitions = b.definitions := by
  simp [FunctionBuilder.definitions, addBlocks, BasicBlock.empty]

end FunctionBuilder

open FunctionBuilder List

/-! ## Appending an instruction -/

variable {value : ValueId}

section Append

variable {b : FunctionBuilder} {cert : Certificate} {wt : BlockId → Prop}
  {tys : List TypeId} {ins : Instruction}

section

variable (currentExists : b.current < b.blocks.length)

include currentExists

theorem targets_append (blk : BlockId) : (b.append tys ins).targets blk = b.targets blk := by
  rw [FunctionBuilder.targets, terminator_append currentExists]
  rfl

theorem available_append (hav : Available b cert blk value) :
    Available (b.append tys ins) cert blk value := by
  obtain hent | ⟨dfn, hm, hdef⟩ := hav
  · exact .inl hent
  · refine .inr ⟨dfn, ?_, hdef⟩
    rw [instructions_append currentExists]
    split
    · exact mem_append_left _ hm
    · exact hm

/-- The value an appended instruction defines is available afterwards. -/
theorem available_append_dst (hdef : ins.dst = some value) :
    Available (b.append tys ins) cert b.current value := by
  refine .inr ⟨ins, ?_, hdef⟩
  rw [instructions_append currentExists, if_pos rfl]
  exact mem_append_right _ mem_cons_self

end

/-- An instruction defines the values that are added with it: none, or the next one. -/
def DefinesNew (builder : FunctionBuilder) (tys : List TypeId) (instruction : Instruction) : Prop :=
  instruction.dst.toList = List.range' builder.values.length tys.length

/-- A `phi` for the current block: one operand per predecessor, available at its end. -/
def PhiReady (builder : FunctionBuilder) (certificate : Certificate) (instruction : Instruction) :
    Prop :=
  ∀ dst incoming, instruction = .phi dst incoming →
    ¬ builder.LoopTarget builder.current ∧ (incoming.map Prod.fst).Nodup ∧
      (∀ predecessor, predecessor ∈ incoming.map Prod.fst ↔
        builder.current ∈ builder.targets predecessor) ∧
      ∀ predecessor value, (predecessor, value) ∈ incoming →
        Available builder certificate predecessor value

theorem Certified.append (hc : Certified b cert wt) (definesNew : DefinesNew b tys ins)
    (uses : ∀ v ∈ ins.uses, Available b cert b.current v) (phiReady : PhiReady b cert ins) :
    Certified (b.append tys ins) cert wt := by
  have hexi := hc.currentExists
  constructor
  case currentExists => simpa using hexi
  case pendingWaits =>
    intro blk hb pend
    refine hc.pendingWaits blk (by simpa using hb) ?_
    rw [Pending, terminator_append hexi] at pend
    exact pend
  case targetsExist =>
    intro blk tgt hm
    rw [targets_append hexi] at hm
    simpa using hc.targetsExist blk tgt hm
  case loopTargets =>
    intro tgt loop
    obtain ⟨hb, nothing, noPhi⟩ := hc.loopTargets tgt loop
    refine ⟨by simpa using hb, nothing, ?_⟩
    intro dst inc hm
    rw [instructions_append hexi] at hm
    split at hm
    · rename_i he
      rw [mem_append, mem_singleton] at hm
      obtain old | new := hm
      · exact noPhi dst inc old
      · exact (phiReady dst inc new.symm).1 (he ▸ loop)
    · exact noPhi dst inc hm
  case certifiedDefined =>
    intro blk v hent
    have hb := hc.certifiedDefined blk v hent
    rw [length_values_append]
    exact Nat.lt_add_right _ hb
  case atEntry => exact hc.atEntry
  case alongEdge =>
    intro blk tgt hm v hent
    rw [targets_append hexi] at hm
    exact available_append hexi (hc.alongEdge blk tgt hm v hent)
  case usesAvailable =>
    intro blk s used after split v hm
    rw [instructions_append hexi] at split
    split at split
    · rename_i he
      -- the instruction is the new one exactly if nothing comes after it
      obtain rfl | ⟨hear, _, rfl⟩ := eq_nil_or_concat after
      · obtain ⟨rfl, new⟩ := append_inj' split rfl
        cases new
        exact he ▸ uses v hm
      · rw [concat_eq_append, ← cons_append, ← append_assoc] at split
        obtain ⟨split, _⟩ := append_inj' split rfl
        exact hc.usesAvailable blk s used hear split v hm
    · exact hc.usesAvailable blk s used after split v hm
  case terminatorAvailable =>
    intro blk v hm
    rw [terminator_append hexi] at hm
    exact available_append hexi (hc.terminatorAvailable blk v hm)
  case phis =>
    intro blk dst inc hm
    have result : (inc.map Prod.fst).Nodup ∧ (∀ pred, pred ∈ inc.map Prod.fst ↔
          blk ∈ b.targets pred) ∧
        ∀ pred v, (pred, v) ∈ inc → Available b cert pred v := by
      rw [instructions_append hexi] at hm
      split at hm
      · rename_i he
        rw [mem_append, mem_singleton] at hm
        obtain old | new := hm
        · exact hc.phis blk dst inc old
        · subst he
          exact (phiReady dst inc new.symm).2
      · exact hc.phis blk dst inc hm
    obtain ⟨nodup, hcpl, hav⟩ := result
    refine ⟨nodup, ?_, ?_⟩
    · intro pred
      rw [hcpl pred, targets_append hexi]
    · intro pred v op
      exact available_append hexi (hav pred v op)
  case definitions =>
    refine (definitions_append hexi tys ins).trans ?_
    rw [definesNew]
    rw [length_values_append, range_eq_range', ← range'_append_1, Nat.zero_add, ← range_eq_range']
    exact hc.definitions.append_right _

end Append

/-! ## Closing the current block -/

section Close

variable {b : FunctionBuilder} {cert : Certificate} {wt : BlockId → Prop}
  {term : Terminator}

theorem targets_close (hcur : b.current < b.blocks.length) (blk : BlockId) :
    (b.close term).targets blk = if blk = b.current then term.targets else b.targets blk := by
  rw [FunctionBuilder.targets, terminator_close hcur]
  by_cases he : blk = b.current
  · rw [if_pos he, if_pos he]
  · rw [if_neg he, if_neg he]
    rfl

theorem available_close (hcur : b.current < b.blocks.length) :
    Available (b.close term) cert blk value ↔ Available b cert blk value := by
  rw [Available, Available, Defines, Defines, instructions_close hcur]

theorem targets_of_pending (pend : b.Pending blk) : b.targets blk = [] := by
  rw [FunctionBuilder.targets, pend]
  rfl

/-- The current block may be closed with edges into blocks that expect no more than it offers
and that have no `phi` yet. -/
theorem Certified.close (hc : Certified b cert wt) (pend : b.Pending b.current)
    (tgts : ∀ tgt ∈ term.targets, tgt < b.blocks.length ∧ b.NoPhi tgt ∧
      ∀ v, cert tgt v → Available b cert b.current v)
    (uses : ∀ v ∈ term.uses, Available b cert b.current v) :
    Certified (b.close term) cert wt := by
  have hexi := hc.currentExists
  constructor
  case currentExists => simpa using hexi
  case pendingWaits =>
    intro blk hb hbp
    by_cases he : blk = b.current
    · exact .inl he
    · rw [Pending, terminator_close hexi, if_neg he] at hbp
      exact hc.pendingWaits blk (by simpa using hb) hbp
  case targetsExist =>
    intro blk tgt hm
    rw [targets_close hexi] at hm
    rw [length_blocks_close]
    split at hm
    · exact (tgts tgt hm).1
    · exact hc.targetsExist blk tgt hm
  case loopTargets =>
    intro tgt loop
    obtain ⟨hb, hno, noPhi⟩ := hc.loopTargets tgt loop
    refine ⟨by simpa using hb, hno, ?_⟩
    intro dst inc
    rw [instructions_close hexi]
    exact noPhi dst inc
  case certifiedDefined => exact hc.certifiedDefined
  case atEntry => exact hc.atEntry
  case alongEdge =>
    intro blk tgt hm v hent
    rw [available_close hexi]
    rw [targets_close hexi] at hm
    split at hm
    · rename_i he
      exact he ▸ (tgts tgt hm).2.2 v hent
    · exact hc.alongEdge blk tgt hm v hent
  case usesAvailable =>
    intro blk before used t split v hm
    rw [instructions_close hexi] at split
    exact hc.usesAvailable blk before used t split v hm
  case terminatorAvailable =>
    intro blk v hm
    rw [available_close hexi]
    rw [terminator_close hexi] at hm
    split at hm
    · rename_i he
      exact he ▸ uses v hm
    · exact hc.terminatorAvailable blk v hm
  case phis =>
    intro blk dst inc hm
    rw [instructions_close hexi] at hm
    obtain ⟨nodup, hcpl, hav⟩ := hc.phis blk dst inc hm
    refine ⟨nodup, ?_, ?_⟩
    · intro pred
      rw [hcpl pred, targets_close hexi]
      by_cases he : pred = b.current
      · -- the block had no edge before, and the new ones lead to blocks without a `phi`
        rw [if_pos he, he, targets_of_pending pend]
        constructor
        · intro bad
          cases bad
        · intro tgt
          exact absurd hm ((tgts blk tgt).2.1 dst inc)
      · rw [if_neg he]
    · intro pred v op
      rw [available_close hexi]
      exact hav pred v op
  case definitions =>
    rw [definitions_close]
    exact hc.definitions

end Close

/-! ## New blocks, the current block and loops -/

section Blocks

variable {b : FunctionBuilder} {cert : Certificate} {wt : BlockId → Prop}

theorem Certified.mono_waiting (hc : Certified b cert wt) {oths : BlockId → Prop}
    (weaker : ∀ blk, blk < b.blocks.length → wt blk → oths blk) :
    Certified b cert oths :=
  { hc with
    pendingWaits := fun blk hb pend =>
      (hc.pendingWaits blk hb pend).imp_right (weaker blk hb) }

/-- The certificate that certifies `values` for all blocks from `first` on. -/
def Certificate.beyond (certificate : Certificate) (first : BlockId) (values : ValueId → Prop) :
    Certificate :=
  fun block => if block < first then certificate block else values

theorem Certificate.beyond_old (cert : Certificate) {first blk : BlockId}
    (vs : ValueId → Prop) (old : blk < first) :
    cert.beyond first vs blk = cert blk :=
  if_pos old

theorem Certificate.beyond_new (cert : Certificate) {first blk : BlockId}
    (vs : ValueId → Prop) (new : first ≤ blk) :
    cert.beyond first vs blk = vs :=
  if_neg (Nat.not_lt_of_le new)

section

variable (hc : Certified b cert wt)

include hc

/-- New blocks may be certified with any values that are defined. -/
theorem Certified.addBlocks {vs : ValueId → Prop}
    (hdf : ∀ v, vs v → v < b.values.length) (n : Nat) :
    Certified (b.addBlocks n) (cert.beyond b.blocks.length vs) fun blk => wt blk ∨
        (b.blocks.length ≤ blk ∧ blk < b.blocks.length + n) := by
  have hexi := hc.currentExists
  have he {blk : BlockId} (old : blk < b.blocks.length) :
      cert.beyond b.blocks.length vs blk = cert blk :=
    cert.beyond_old vs old
  have hav {blk : BlockId} {v : ValueId} (hh : Available b cert blk v)
      (inUse : blk < b.blocks.length) :
      Available (b.addBlocks n) (cert.beyond b.blocks.length vs) blk v := by
    rw [Available, he inUse, Defines, instructions, block_addBlocks]
    exact hh
  -- a block that has an instruction, an edge or a use is not the new one
  have inUse {blk : BlockId} (used : b.block blk ≠ .empty) : blk < b.blocks.length :=
    Nat.lt_of_not_le fun beyond => used (block_of_le beyond)
  have usedOfTarget {blk tgt : BlockId} (hm : tgt ∈ b.targets blk) : b.block blk ≠ .empty := by
    intro empty
    rw [FunctionBuilder.targets, empty] at hm
    cases hm
  constructor
  case currentExists =>
    rw [length_addBlocks]
    exact Nat.lt_add_right n hexi
  case pendingWaits =>
    intro blk hb pend
    rw [Pending, block_addBlocks] at pend
    by_cases old : blk < b.blocks.length
    · exact (hc.pendingWaits blk old pend).imp_right .inl
    · exact .inr (.inr ⟨Nat.le_of_not_lt old, length_addBlocks n ▸ hb⟩)
  case targetsExist =>
    intro blk tgt hm
    rw [FunctionBuilder.targets, block_addBlocks] at hm
    rw [length_addBlocks]
    exact Nat.lt_add_right n (hc.targetsExist blk tgt hm)
  case loopTargets =>
    intro tgt loop
    obtain ⟨hb, hno, noPhi⟩ := hc.loopTargets tgt loop
    refine ⟨by rw [length_addBlocks]; exact Nat.lt_add_right n hb, ?_, ?_⟩
    · rw [he hb]
      exact hno
    · intro dst inc
      rw [instructions, block_addBlocks]
      exact noPhi dst inc
  case certifiedDefined =>
    intro blk v hent
    by_cases old : blk < b.blocks.length
    · rw [he old] at hent
      exact hc.certifiedDefined blk v hent
    · rw [cert.beyond_new vs (Nat.le_of_not_lt old)] at hent
      exact hdf v hent
  case atEntry =>
    rw [he (Nat.zero_lt_of_lt hexi)]
    exact hc.atEntry
  case alongEdge =>
    intro blk tgt hm v hent
    rw [FunctionBuilder.targets, block_addBlocks] at hm
    rw [he (hc.targetsExist blk tgt hm)] at hent
    exact hav (hc.alongEdge blk tgt hm v hent) (inUse (usedOfTarget hm))
  case usesAvailable =>
    intro blk s used t split v hm
    rw [instructions, block_addBlocks] at split
    have old : blk < b.blocks.length := inUse fun empty => by
      rw [empty] at split
      cases s <;> cases split
    rw [he old]
    exact hc.usesAvailable blk s used t split v hm
  case terminatorAvailable =>
    intro blk v hm
    rw [block_addBlocks] at hm
    refine hav (hc.terminatorAvailable blk v hm) (inUse fun empty => ?_)
    rw [empty] at hm
    cases hm
  case phis =>
    intro blk dst inc hm
    rw [instructions, block_addBlocks] at hm
    obtain ⟨nodup, hcpl, ops⟩ := hc.phis blk dst inc hm
    refine ⟨nodup, ?_, ?_⟩
    · intro pred
      rw [hcpl pred, FunctionBuilder.targets, FunctionBuilder.targets, block_addBlocks]
    · intro pred v op
      have edge := (hcpl pred).mp (mem_map_of_mem (f := Prod.fst) op)
      exact hav (ops pred v op) (inUse (usedOfTarget edge))
  case definitions =>
    rw [definitions_addBlocks]
    exact hc.definitions

theorem Certified.available_defined (hav : Available b cert blk value) :
    value < b.values.length := by
  obtain hent | ⟨ins, hm, hdef⟩ := hav
  · exact hc.certifiedDefined blk value hent
  · have old : blk < b.blocks.length := by
      refine Nat.lt_of_not_le fun beyond => ?_
      rw [instructions, block_of_le beyond] at hm
      cases hm
    have hst : b.block blk ∈ b.blocks := by
      rw [FunctionBuilder.block, getD_eq_getElem?_getD, getElem?_eq_getElem old, Option.getD_some]
      exact getElem_mem old
    rw [← mem_range, ← hc.definitions.mem_iff]
    exact mem_flatMap.mpr ⟨_, hst, mem_filterMap.mpr ⟨ins, hm, hdef⟩⟩

/-- A waiting block may become current once the current one is closed. -/
theorem Certified.setCurrent (hcl : ¬ b.Pending b.current) (hexi : blk < b.blocks.length) :
    Certified (b.goTo blk) cert fun o => wt o ∧ o ≠ blk :=
  { hc with
    currentExists := hexi
    pendingWaits := fun o hb pend => by
      by_cases he : o = blk
      · exact .inl he
      · obtain rfl | waits := hc.pendingWaits o hb pend
        · exact absurd pend hcl
        · exact .inr ⟨waits, he⟩ }

theorem Certified.pushLoop {exit back : BlockId}
    (ready : ∀ tgt, tgt = exit ∨ tgt = back → tgt < b.blocks.length ∧
      (∀ v, ¬ cert tgt v) ∧ b.NoPhi tgt) :
    Certified { b with loops := (exit, back) :: b.loops } cert wt :=
  { hc with
    loopTargets := fun tgt loop => by
      obtain ⟨tgts, hm, hh⟩ := loop
      obtain rfl | out := mem_cons.mp hm
      · exact ready tgt hh
      · exact hc.loopTargets tgt ⟨tgts, out, hh⟩ }

theorem Certified.popLoop : Certified { b with loops := b.loops.tail } cert wt :=
  { hc with
    loopTargets := fun tgt loop => by
      obtain ⟨tgts, hm, hh⟩ := loop
      exact hc.loopTargets tgt ⟨tgts, mem_of_mem_tail hm, hh⟩ }

end

end Blocks

end Ostadix.Ocore
