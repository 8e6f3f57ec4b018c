import Ostadix.Ocore.Region

/-! # Short-circuit operators

`&&` and `||` are the only source of `phi`s. The join block is new, nothing but the two jumps
written for it leads there, and both operands are available at the ends of their blocks. -/

namespace Ostadix.Ocore

open FunctionBuilder List Nat

/-- The lowering of a short circuit after its right operand: the constant and the join block are
still as they were made, and no edge leads to the join yet. -/
structure RhsDone (before : FunctionBuilder) (certificate : Certificate) (waiting : BlockId → Prop)
    (middle : FunctionBuilder) (certificate' : Certificate) (rhs : ValueId) : Prop where
  within : Within before certificate middle certificate' fun other =>
    (waiting other ∨ (before.blocks.length ≤ other ∧ other < before.blocks.length + 3)) ∧
      other ≠ before.blocks.length
  room : before.blocks.length + 2 < middle.blocks.length
  fresh : ∀ block, block = before.blocks.length + 1 ∨ block = before.blocks.length + 2 →
    block ≠ middle.current ∧ middle.block block = .empty ∧
      certificate' block = Available before certificate before.current
  noEdge : ∀ block, before.blocks.length + 2 ∉ middle.targets block
  loops : middle.loops = before.loops
  offers : middle.Pending middle.current → Available middle certificate' middle.current rhs ∧
    ∀ value, Available before certificate before.current value →
      Available middle certificate' middle.current value

section ShortCircuit

variable {before middle : FunctionBuilder} {certificate certificate' : Certificate}
  {waiting : BlockId → Prop}

theorem not_loopTarget_new (hc : Certified before certificate waiting) {blk : BlockId}
    (new : before.blocks.length ≤ blk) : ¬ before.LoopTarget blk :=
  fun loop => Nat.not_lt_of_le new (hc.loopTargets blk loop).1

theorem rhsDone (hc : Certified before certificate waiting)
    (pend : before.Pending before.current) {term : Terminator} (final : term ≠ .pending)
    (tgts : ∀ tgt ∈ term.targets,
      tgt = before.blocks.length ∨ tgt = before.blocks.length + 1)
    (uses : ∀ v ∈ term.uses, Available before certificate before.current v)
    {rhs : BuilderM ValueId} (rhsLowers : Lowers [] rhs fun v => [v]) {rhsValue : ValueId}
    (ran : rhs (((before.addBlocks 3).close term).goTo before.blocks.length) =
      .ok (rhsValue, middle)) :
    ∃ cert', RhsDone before certificate waiting middle cert' rhsValue := by
  have hcur := hc.currentExists
  have addedExists : (before.addBlocks 3).current < (before.addBlocks 3).blocks.length := by
    rw [length_addBlocks]
    exact Nat.lt_add_right 3 hcur
  have within := Within.fork hc pend (fun _ hh => hh) final (fun tgt hm => by
      obtain rfl | rfl := tgts tgt hm
      · exact ⟨Nat.le_refl _, Nat.lt_add_of_pos_right (Nat.succ_pos 2)⟩
      · exact ⟨Nat.le_succ _, Nat.add_lt_add_left (by decide : 1 < 3) _⟩)
    uses (Nat.le_refl _) (Nat.lt_add_of_pos_right (Nat.succ_pos 2))
  -- a new block of the fork is empty, whichever block is current
  have forkedBlock {block : BlockId} (new : before.blocks.length ≤ block) :
      (((before.addBlocks 3).close term).goTo before.blocks.length).block block = .empty := by
    have apart : block ≠ before.current := ne_of_gt (lt_of_lt_of_le hcur new)
    rw [block_goTo, block_close addedExists, current_addBlocks, if_neg apart, block_addBlocks,
      block_of_le new]
  have forkedPending : (((before.addBlocks 3).close term).goTo before.blocks.length).Pending
      before.blocks.length := by
    rw [Pending, forkedBlock (le_refl _)]
    rfl
  obtain ⟨cert', hlw⟩ := rhsLowers _ _ _ within.certified forkedPending
    (forall_mem_nil _) rhsValue middle ran
  have forkedLength : (((before.addBlocks 3).close term).goTo
      before.blocks.length).blocks.length = before.blocks.length + 3 := by
    rw [blocks_goTo, length_blocks_close, length_addBlocks]
  refine ⟨cert', ?_⟩
  constructor
  case within =>
    refine within.stepped hlw.toStepped ?_
    intro tgt loop _
    exact loop
  case room =>
    have hgn := hlw.frame.blocksGrow
    rw [forkedLength] at hgn
    exact hgn
  case fresh =>
    intro block which
    have new : before.blocks.length < block := by
      obtain rfl | rfl := which <;> exact Nat.lt_add_of_pos_right (by decide)
    have old : block < before.blocks.length + 3 := by
      obtain rfl | rfl := which <;> exact Nat.add_lt_add_left (by decide) _
    refine ⟨?_, ?_, ?_⟩
    · rintro rfl
      obtain he | beyond := hlw.moved
      · exact Nat.ne_of_gt new he
      · rw [forkedLength] at beyond
        exact Nat.not_lt_of_le beyond old
    · rw [hlw.frame.kept block (forkedLength ▸ old) (Nat.ne_of_gt new)]
      exact forkedBlock (Nat.le_of_lt new)
    · rw [hlw.frame.certificateKept block (forkedLength ▸ old)]
      exact certificate.beyond_new _ (le_of_lt new)
  case noEdge =>
    intro block hm
    have old : before.blocks.length + 2 < before.blocks.length + 3 := lt_succ_self _
    obtain early | loop := hlw.frame.newEdges block _ (forkedLength ▸ old) hm
    · rw [targets_goTo, targets_close addedExists] at early
      split at early
      · obtain he | he := tgts _ early
        · exact absurd he (by simp)
        · exact absurd he (by simp)
      · rw [FunctionBuilder.targets, block_addBlocks] at early
        exact absurd (hc.targetsExist block _ early) (by simp)
    · exact not_loopTarget_new hc (le_add_right _ 2) loop
  case loops => exact hlw.loops
  case offers =>
    intro open_
    refine ⟨hlw.provides open_ rhsValue mem_cons_self, ?_⟩
    intro v hav
    refine hlw.keeps open_ v (.inl ?_)
    show certificate.beyond before.blocks.length _ before.blocks.length v
    rw [certificate.beyond_new _ (le_refl _)]
    exact hav

/-- The builder after the right operand has jumped on and the constant is defined. -/
def constantAt (middle : FunctionBuilder) (first : BlockId) (constant : UInt64) (ty : TypeId) :
    FunctionBuilder :=
  ((jumpOn middle (first + 2)).goTo (first + 1)).append [ty] (.const middle.values.length constant)

/-- The builder when the `phi` is about to be emitted. -/
def joinedAt (middle : FunctionBuilder) (first : BlockId) (constant : UInt64) (ty : TypeId) :
    FunctionBuilder :=
  ((constantAt middle first constant ty).close (.jump (first + 2))).goTo (first + 2)

section Joined

variable {rhs : ValueId} (constant : UInt64) (ty : TypeId)
  (done : RhsDone before certificate waiting middle certificate' rhs)
include done

theorem RhsDone.constantBlockExists :
    ((jumpOn middle (before.blocks.length + 2)).goTo (before.blocks.length + 1)).current <
      ((jumpOn middle (before.blocks.length + 2)).goTo (before.blocks.length + 1)).blocks.length := by
  rw [current_goTo, blocks_goTo, length_blocks_jumpOn]
  exact lt_of_succ_lt done.room

theorem RhsDone.constantExists : (constantAt middle before.blocks.length constant ty).current <
      (constantAt middle before.blocks.length constant ty).blocks.length := by
  rw [constantAt, current_append, length_blocks_append]
  exact done.constantBlockExists

theorem RhsDone.instructions_constant (blk : BlockId) :
    (constantAt middle before.blocks.length constant ty).instructions blk =
      if blk = before.blocks.length + 1 then
        middle.instructions blk ++ [.const middle.values.length constant]
      else middle.instructions blk := by
  rw [constantAt, instructions_append done.constantBlockExists, instructions_goTo,
    instructions_jumpOn done.within.certified.currentExists, current_goTo]

theorem RhsDone.terminator_constant {blk : BlockId} (apart : blk ≠ middle.current) :
    ((constantAt middle before.blocks.length constant ty).block blk).terminator =
      (middle.block blk).terminator := by
  rw [constantAt, terminator_append done.constantBlockExists, block_goTo,
    block_jumpOn_of_ne done.within.certified.currentExists apart]

theorem RhsDone.mem_targets_joined (blk : BlockId) :
    before.blocks.length + 2 ∈ (joinedAt middle before.blocks.length constant ty).targets blk ↔
      blk = before.blocks.length + 1 ∨ (middle.Pending middle.current ∧ blk = middle.current) := by
  rw [joinedAt, targets_goTo, targets_close (done.constantExists constant ty), constantAt,
    current_append, current_goTo]
  by_cases he : blk = before.blocks.length + 1
  · rw [if_pos he]
    simp [Terminator.targets, he]
  · rw [if_neg he, targets_append done.constantBlockExists, targets_goTo,
      mem_targets_jumpOn done.within.certified.currentExists]
    simp [he, done.noEdge blk]

/-- What was available in the blocks of the right operand still is. -/
theorem RhsDone.available_joined {blk : BlockId} {v : ValueId}
    (hav : Available middle certificate' blk v) :
    Available (joinedAt middle before.blocks.length constant ty) certificate' blk v := by
  obtain hent | ⟨ins, hm, hdef⟩ := hav
  · exact .inl hent
  · refine .inr ⟨ins, ?_, hdef⟩
    rw [joinedAt, instructions_goTo, instructions_close (done.constantExists constant ty),
      done.instructions_constant]
    split
    · exact mem_append_left _ hm
    · exact hm

theorem RhsDone.available_constant :
    Available (joinedAt middle before.blocks.length constant ty) certificate'
      (before.blocks.length + 1) middle.values.length := by
  refine .inr ⟨.const middle.values.length constant, ?_, rfl⟩
  rw [joinedAt, instructions_goTo, instructions_close (done.constantExists constant ty),
    done.instructions_constant, if_pos rfl]
  exact mem_append_right _ mem_cons_self

/-- Both ways into the join are closed, and the join is current. -/
theorem RhsDone.joined :
    Within before certificate (joinedAt middle before.blocks.length constant ty) certificate'
      waiting := by
  obtain ⟨constantApart, constantEmpty, constantCertified⟩ := done.fresh _ (.inl rfl)
  obtain ⟨_, joinEmpty, joinCertified⟩ := done.fresh _ (.inr rfl)
  have noPhi : middle.NoPhi (before.blocks.length + 2) := by
    intro dst inc hm
    rw [instructions, joinEmpty] at hm
    cases hm
  -- the right operand jumps to the join, if it returns
  obtain ⟨left, leftClosed⟩ := done.within.leaveTo (le_add_right _ 2) fun open_ =>
    ⟨done.room, noPhi, fun v hent =>
      (done.offers open_).2 v (by rw [← joinCertified]; exact hent)⟩
  -- the constant goes to its own block
  have constantBlock := left.setCurrent leftClosed (le_succ before.blocks.length) (by
    rw [length_blocks_jumpOn]
    exact lt_of_succ_lt done.room)
  have hdf : Within before certificate (constantAt middle before.blocks.length constant ty)
      certificate' _ := constantBlock.append (by rw [DefinesNew, values_goTo, values_jumpOn]; rfl)
    (forall_mem_nil _) (by rintro _ _ ⟨⟩)
  have constantPending : (constantAt middle before.blocks.length constant ty).Pending
      (constantAt middle before.blocks.length constant ty).current := by
    rw [Pending, constantAt, current_append, current_goTo, ← constantAt,
      done.terminator_constant constant ty constantApart, constantEmpty]
    rfl
  have joinReady : ∀ tgt ∈ (Terminator.jump (before.blocks.length + 2)).targets,
      before.blocks.length ≤ tgt ∧
      tgt < (constantAt middle before.blocks.length constant ty).blocks.length ∧
      (constantAt middle before.blocks.length constant ty).NoPhi tgt ∧
      ∀ v, certificate' tgt v →
        Available (constantAt middle before.blocks.length constant ty) certificate'
          (constantAt middle before.blocks.length constant ty).current v := by
    intro tgt hm
    cases mem_singleton.mp hm
    refine ⟨le_add_right _ 2, ?_, ?_, ?_⟩
    · rw [constantAt, length_blocks_append, blocks_goTo, length_blocks_jumpOn]
      exact done.room
    · intro dst inc hm
      rw [done.instructions_constant, if_neg (by simp)] at hm
      exact noPhi dst inc hm
    · intro v hent
      refine .inl ?_
      rw [constantAt, current_append, current_goTo, constantCertified, ← joinCertified]
      exact hent
  have hcl := hdf.close constantPending joinReady (forall_mem_nil _)
  -- and the join becomes current
  refine (hcl.setCurrent (not_pending_close (done.constantExists constant ty) (by simp))
    (le_add_right _ 2) ?_).mono_waiting ?_
  · rw [length_blocks_close, constantAt, length_blocks_append, blocks_goTo, length_blocks_jumpOn]
    exact done.room
  · rintro block _ ⟨⟨⟨waits | ⟨new, hb⟩, notRhs⟩, notConstant⟩, notJoin⟩
    · exact waits
    · exact absurd hb (Nat.not_lt_of_le
        (Nat.lt_of_le_of_ne (Nat.lt_of_le_of_ne (Nat.lt_of_le_of_ne new notRhs.symm)
          notConstant.symm) notJoin.symm))

/-- The operands of the `phi`: the constant, and the right operand if it returns. -/
def phiOperands (middle : FunctionBuilder) (first : BlockId) (rhs : ValueId) :
    List (BlockId × ValueId) :=
  if !middle.terminated middle.current then
    [(middle.current, rhs), (first + 1, middle.values.length)]
  else [(first + 1, middle.values.length)]

theorem RhsDone.phiReady (hc : Certified before certificate waiting) (dst : ValueId) :
    PhiReady (joinedAt middle before.blocks.length constant ty) certificate'
      (.phi dst (phiOperands middle before.blocks.length rhs)) := by
  intro _ inc phi
  cases phi
  have constantApart : middle.current ≠ before.blocks.length + 1 := (done.fresh _ (.inl rfl)).1.symm
  have notLoop : ¬ (joinedAt middle before.blocks.length constant ty).LoopTarget
      (joinedAt middle before.blocks.length constant ty).current := by
    intro loop
    refine not_loopTarget_new hc (le_add_right _ 2) ?_
    rw [LoopTarget, ← done.loops, ← loops_jumpOn (before.blocks.length + 2)]
    exact loop
  refine ⟨notLoop, ?_⟩
  rw [phiOperands]
  by_cases open_ : middle.Pending middle.current
  · have returns : (!middle.terminated middle.current) = true := by
      rw [pending_iff_terminated.mp open_]
      rfl
    rw [if_pos returns]
    refine ⟨by simpa using constantApart, ?_, ?_⟩
    · intro pred
      rw [joinedAt, current_goTo, ← joinedAt, done.mem_targets_joined]
      simp [open_, or_comm]
    · intro pred v hm
      simp only [mem_cons, Prod.mk.injEq, not_mem_nil, or_false] at hm
      obtain ⟨rfl, rfl⟩ | ⟨rfl, rfl⟩ := hm
      · exact done.available_joined constant ty (done.offers open_).1
      · exact done.available_constant constant ty
  · have diverges : ¬ (!middle.terminated middle.current) = true := by
      rw [pending_iff_terminated, Bool.not_eq_false] at open_
      simp [open_]
    rw [if_neg diverges]
    refine ⟨by simp, ?_, ?_⟩
    · intro pred
      rw [joinedAt, current_goTo, ← joinedAt, done.mem_targets_joined]
      simp [open_]
    · intro pred v hm
      simp only [mem_cons, Prod.mk.injEq, not_mem_nil, or_false] at hm
      obtain ⟨rfl, rfl⟩ := hm
      exact done.available_constant constant ty

end Joined

end ShortCircuit

theorem lowers_joinShortCircuit (op : BinaryOp) (lhs : ValueId) {rhs : BuilderM ValueId}
    (rhsLowers : Lowers [] rhs fun v => [v]) (ty : TypeId) :
    Lowers [lhs] (joinShortCircuit op lhs rhs ty) fun v => [v] := by
  intro s cert hwt hc pend givens r t ran
  rw [joinShortCircuit, newBlock_bind_apply, newBlock_bind_apply, newBlock_bind_apply,
    terminate_bind_apply, setCurrent_bind_apply, addBlocks_addBlocks, addBlocks_addBlocks,
    length_addBlocks, length_addBlocks] at ran
  obtain ⟨rhsValue, mid, ranRhs, ran⟩ := bind_ok.mp ran
  rw [get_bind_apply, currentTerminated_bind_apply, jumpUnlessTerminated_bind_apply,
    setCurrent_bind_apply, constValue_bind_apply, terminate_bind_apply,
    setCurrent_bind_apply] at ran
  obtain ⟨resultIs, afterIs⟩ := defineValue_ok ran
  obtain ⟨cert', done⟩ : ∃ cert', RhsDone s cert hwt mid cert' rhsValue := by
    refine rhsDone hc pend ?_ ?_ ?_ rhsLowers ranRhs
    · split <;> simp
    · intro tgt hm
      split at hm
      · simpa [Terminator.targets] using hm
      · simpa [Terminator.targets, or_comm] using hm
    · intro v hm
      refine givens v ?_
      split at hm <;> exact hm
  have vs : mid.values.length = ((jumpOn mid (s.blocks.length + 2)).goTo
      (s.blocks.length + 1)).values.length := by
    rw [values_goTo, values_jumpOn]
  let cst : UInt64 := if op = .logicalAnd then 0 else 1
  have joined : t = (joinedAt mid s.blocks.length cst ty).append [ty]
      (.phi r (phiOperands mid s.blocks.length rhsValue)) := by
    rw [joinedAt, constantAt, phiOperands, vs, resultIs]
    exact afterIs
  have ready := done.phiReady cst ty hc r
  have resultNew : r = (joinedAt mid s.blocks.length cst ty).values.length := by
    rw [joinedAt, constantAt, vs]
    exact resultIs
  have hw : Within s cert ((joinedAt mid s.blocks.length cst ty).append
      [ty] (.phi r (phiOperands mid s.blocks.length rhsValue))) cert' hwt := by
    refine (done.joined cst ty).append ?_ ?_ ready
    · rw [DefinesNew, ← resultNew]
      rfl
    · intro v bad
      cases bad
  have joinExists := (done.joined cst ty).certified.currentExists
  obtain ⟨_, _, joinCertified⟩ := done.fresh _ (.inr rfl)
  rw [joined]
  refine ⟨cert', ?_⟩
  constructor
  case toStepped =>
    refine hw.toStepped ?_
    rw [loops_append, joinedAt, loops_goTo, loops_close, constantAt, loops_append, loops_goTo,
      loops_jumpOn]
    exact done.loops
  case keeps =>
    intro _ v hav
    refine .inl ?_
    rw [current_append, joinedAt, current_goTo, joinCertified]
    exact hav
  case provides =>
    intro _ v hm
    cases mem_singleton.mp hm
    exact available_append_dst joinExists rfl

end Ostadix.Ocore
