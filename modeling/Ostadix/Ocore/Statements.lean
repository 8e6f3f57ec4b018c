import Ostadix.Ocore.Lowering

/-! # Statements and programs

No value is live across statements, so the blocks that statements make expect nothing. From the
lowering of statements follows that of whole functions: every accepted program is lowered to
well-formed SSA. -/

namespace Ostadix.Ocore

open FunctionBuilder Lib List Nat

/-- A statement keeps the builder certified. -/
def LowersStmt (computation : BuilderM Unit) : Prop :=
  ∀ before certificate waiting, Certified before certificate waiting →
    before.Pending before.current → ∀ result after, computation before = .ok (result, after) →
    ∃ certificate', Stepped before certificate waiting after certificate'

theorem Lowers.stmt {cmp : BuilderM Unit} {provides : Unit → List ValueId}
    (hlow : Lowers [] cmp provides) : LowersStmt cmp := by
  intro s cert hwt hc pend r t ran
  obtain ⟨cert', hlw⟩ := hlow s cert hwt hc pend (forall_mem_nil _) r t ran
  exact ⟨cert', hlw.toStepped⟩

variable {r : Unit} {cond : BuilderM ValueId} {bd : BuilderM Unit}

/-- The evaluation of a condition: it diverges, and the statement ends with it, or its value is
there. -/
theorem lowersValue_unlessDiverged (hlow : LowersValue cond)
    {next : ValueId → BuilderM Unit} {s t : FunctionBuilder} {cert : Certificate}
    {hwt : BlockId → Prop} (hc : Certified s cert hwt) (pend : s.Pending s.current)
    (ran : unlessDiverged cond (fun _ => pure ()) next s = .ok (r, t)) :
    ∃ cert' mid, Stepped s cert hwt mid cert' ∧
      (t = mid ∨ ∃ v, mid.Pending mid.current ∧
        Available mid cert' mid.current v ∧
        next v mid = .ok (r, t)) := by
  obtain ⟨v, mid, ranCondition, ran⟩ := bind_ok.mp ran
  obtain ⟨cert', hlw⟩ := hlow s cert hwt hc pend (forall_mem_nil _) v mid ranCondition
  refine ⟨cert', mid, hlw.toStepped, ?_⟩
  rw [currentTerminated_bind_apply] at ran
  by_cases open_ : mid.Pending mid.current
  · rw [pending_iff_terminated.mp open_, if_neg Bool.false_ne_true] at ran
    exact .inr ⟨v, open_, hlw.provides open_ v mem_cons_self, ran⟩
  · rw [pending_iff_terminated, Bool.not_eq_false] at open_
    rw [open_, if_pos rfl] at ran
    exact .inl (pure_ok.mp ran).2.symm

/-! ## Bodies -/

/-- A block that may be jumped to: it is there, expects nothing and has no `phi`. -/
structure Landing (builder : FunctionBuilder) (certificate : Certificate) (block : BlockId) :
    Prop where
  exists_ : block < builder.blocks.length
  nothing : ∀ value, ¬ certificate block value
  noPhi : builder.NoPhi block

section Body

variable {s0 b t : FunctionBuilder} {cert cert' : Certificate}
  {wt : BlockId → Prop} {touched : BlockId} {jumps : BlockId → Prop}
  {cert'' : Certificate}

variable {blk : BlockId}

theorem Landing.framed (landing : Landing b cert' blk) (fr : Frame touched jumps b cert' t cert'') :
    Landing t cert'' blk where
  exists_ := lt_of_lt_of_le landing.exists_ fr.blocksGrow
  nothing := by
    rw [fr.certificateKept blk landing.exists_]
    exact landing.nothing
  noPhi := fr.noPhi landing.exists_ landing.noPhi

/-- Blocks that were not touched: as they were, and certified with nothing. -/
structure Untouched (builder : FunctionBuilder) (certificate : Certificate) (block : BlockId) :
    Prop where
  exists_ : block < builder.blocks.length
  nothing : ∀ value, ¬ certificate block value
  empty : builder.block block = .empty

theorem Untouched.landing (hunt : Untouched b cert blk) : Landing b cert blk where
  exists_ := hunt.exists_
  nothing := hunt.nothing
  noPhi := by
    intro dst inc hm
    rw [instructions, hunt.empty] at hm
    cases hm

theorem Untouched.pending (hunt : Untouched b cert blk) : b.Pending blk := by
  rw [Pending, hunt.empty]
  rfl

/-- Run a body in the current block of a construct and jump on to `next`. -/
theorem Within.body (hw : Within s0 cert b cert' wt)
    (pend : b.Pending b.current) (hlow : LowersStmt bd)
    (loops : ∀ tgt, b.LoopTarget tgt → tgt < s0.blocks.length → s0.LoopTarget tgt)
    (ran : bd b = .ok (r, t)) {next : BlockId}
    (new : s0.blocks.length ≤ next) (landing : Landing b cert' next) :
    ∃ cert'', Within s0 cert (jumpOn t next) cert'' wt ∧
      ¬ (jumpOn t next).Pending (jumpOn t next).current ∧
      (jumpOn t next).loops = b.loops ∧
      ∀ blk, blk ≠ b.current → Untouched b cert' blk → Untouched (jumpOn t next) cert'' blk := by
  obtain ⟨cert'', hstp⟩ := hlow b cert' wt hw.certified pend r t ran
  have landed := landing.framed hstp.frame
  obtain ⟨left, hcl⟩ := (hw.stepped hstp loops).leaveTo new fun _ =>
    ⟨landed.exists_, landed.noPhi, fun v hent => absurd hent (landed.nothing v)⟩
  refine ⟨cert'', left, hcl, by rw [loops_jumpOn]; exact hstp.loops, ?_⟩
  intro blk apart hunt
  have kept := hstp.frame.kept blk hunt.exists_ apart
  have apartAfter : blk ≠ t.current := by
    obtain he | beyond := hstp.moved
    · rw [he]
      exact apart
    · exact Nat.ne_of_lt (Nat.lt_of_lt_of_le hunt.exists_ beyond)
  constructor
  · rw [length_blocks_jumpOn]
    exact Nat.lt_of_lt_of_le hunt.exists_ hstp.frame.blocksGrow
  · rw [hstp.frame.certificateKept blk hunt.exists_]
    exact hunt.nothing
  · rw [block_jumpOn_of_ne hstp.certified.currentExists apartAfter, kept]
    exact hunt.empty

/-- The blocks of a fork of a statement, other than the one it goes on with, are untouched. -/
theorem untouched_fork (hcur : s0.current < s0.blocks.length) {n : Nat}
    {term : Terminator} {current blk : BlockId} (new : s0.blocks.length ≤ blk)
    (hb : blk < s0.blocks.length + n) :
    Untouched (((s0.addBlocks n).close term).goTo current)
      (cert.beyond s0.blocks.length fun _ => False) blk where
  exists_ := by
    rw [blocks_goTo, length_blocks_close, length_addBlocks]
    exact hb
  nothing v hent := by
    rw [cert.beyond_new _ new] at hent
    exact hent
  empty := by
    have addedExists : (s0.addBlocks n).current < (s0.addBlocks n).blocks.length := by
      rw [length_addBlocks]
      exact Nat.lt_add_right n hcur
    have apart : blk ≠ s0.current := Nat.ne_of_gt (Nat.lt_of_lt_of_le hcur new)
    rw [block_goTo, block_close addedExists, current_addBlocks, if_neg apart, block_addBlocks,
      block_of_le new]

/-- Close the current block with edges into `count` new blocks and go on in one of them. -/
theorem Within.split (hc : Certified s0 cert wt)
    (pend : s0.Pending s0.current) (count : Nat) (term : Terminator)
    (blk : BlockId) (final : term ≠ .pending)
    (tgts : ∀ tgt ∈ term.targets, s0.blocks.length ≤ tgt ∧ tgt < s0.blocks.length + count)
    (uses : ∀ v ∈ term.uses, Available s0 cert s0.current v)
    (new : s0.blocks.length ≤ blk) (hb : blk < s0.blocks.length + count) :
    Within s0 cert (((s0.addBlocks count).close term).goTo blk)
        (cert.beyond s0.blocks.length fun _ => False)
        (fun o => (wt o ∨ (s0.blocks.length ≤ o ∧ o < s0.blocks.length + count)) ∧ o ≠ blk) ∧
      ∀ o, s0.blocks.length ≤ o → o < s0.blocks.length + count →
        Untouched (((s0.addBlocks count).close term).goTo blk)
          (cert.beyond s0.blocks.length fun _ => False) o :=
  ⟨.fork hc pend (fun _ bad => bad.elim) final tgts uses new hb,
    fun _ newOther otherBound => untouched_fork hc.currentExists newOther otherBound⟩

theorem Untouched.goTo (hunt : Untouched b cert' blk) (current : BlockId) :
    Untouched (b.goTo current) cert' blk where
  exists_ := hunt.exists_
  nothing := hunt.nothing
  empty := hunt.empty

/-- Go on in an untouched block of the construct. -/
theorem Within.enter (hw : Within s0 cert b cert' wt)
    (hcl : ¬ b.Pending b.current) (new : s0.blocks.length ≤ blk) (hunt : Untouched b cert' blk) :
    Within s0 cert (b.goTo blk) cert' (fun o => wt o ∧ o ≠ blk) ∧ (b.goTo blk).Pending blk :=
  ⟨hw.setCurrent hcl new hunt.exists_, hunt.pending⟩

end Body

/-! ## Conditionals -/

theorem jumpUnlessTerminated_apply (builder : FunctionBuilder) (tgt : BlockId) :
    jumpUnlessTerminated tgt builder = .ok ((), jumpOn builder tgt) := by
  rw [jumpOn]
  show (if (!builder.terminated builder.current) = true then terminate (.jump tgt)
    else pure ()) builder = _
  cases builder.terminated builder.current <;> rfl

theorem lowerBranch_ok {blk join : BlockId} {b t : FunctionBuilder}
    (ran : lowerBranch blk join bd b = .ok (r, t)) :
    ∃ v mid, bd (b.goTo blk) = .ok (v, mid) ∧ t = jumpOn mid join := by
  rw [lowerBranch, setCurrent_bind_apply] at ran
  obtain ⟨v, mid, ranBody, ran⟩ := bind_ok.mp ran
  rw [jumpUnlessTerminated_apply] at ran
  cases ran
  exact ⟨v, mid, ranBody, rfl⟩

theorem lowersStmt_lowerIf {thenBody elseBody : BuilderM Unit}
    (conditionLowers : LowersValue cond) (thenLowers : LowersStmt thenBody)
    (elseLowers : LowersStmt elseBody) : LowersStmt (lowerIf cond thenBody elseBody) := by
  intro first certificate₀ hwt certified₀ pending₀ r t ran
  obtain ⟨cert, s, hev, rfl | ⟨v, pend, hav, ran⟩⟩ :=
    lowersValue_unlessDiverged conditionLowers certified₀ pending₀ ran
  · exact ⟨cert, hev⟩
  have hc := hev.certified
  rw [newBlock_bind_apply, newBlock_bind_apply, newBlock_bind_apply, terminate_bind_apply,
    addBlocks_addBlocks, addBlocks_addBlocks, length_addBlocks, length_addBlocks] at ran
  obtain ⟨_, _, ranThen, ran⟩ := bind_ok.mp ran
  obtain ⟨_, _, ranElse, ran⟩ := bind_ok.mp ran
  rw [setCurrent_apply] at ran
  cases ran
  obtain ⟨_, _, thenRan, rfl⟩ := lowerBranch_ok ranThen
  obtain ⟨_, _, elseRan, rfl⟩ := lowerBranch_ok ranElse
  obtain ⟨forked, hunt⟩ := Within.split hc pend 3
    (.branch v s.blocks.length (s.blocks.length + 1)) s.blocks.length (by simp)
    (fun tgt hm => by
      simp only [Terminator.targets, mem_cons, not_mem_nil, or_false] at hm
      obtain rfl | rfl := hm
      · exact ⟨Nat.le_refl _, Nat.lt_add_of_pos_right (by decide)⟩
      · exact ⟨Nat.le_succ _, Nat.add_lt_add_left (by decide) _⟩)
    (fun used hm => by cases mem_singleton.mp hm; exact hav)
    (Nat.le_refl _) (Nat.lt_add_of_pos_right (by decide))
  have elseNew : s.blocks.length ≤ s.blocks.length + 1 := Nat.le_add_right _ 1
  have joinNew : s.blocks.length ≤ s.blocks.length + 2 := Nat.le_add_right _ 2
  have elseUntouched := hunt (s.blocks.length + 1) elseNew (Nat.add_lt_add_left (by decide) _)
  have joinUntouched := hunt (s.blocks.length + 2) joinNew (Nat.add_lt_add_left (by decide) _)
  have thenPending := (hunt s.blocks.length (Nat.le_refl _)
    (Nat.lt_add_of_pos_right (by decide))).pending
  -- the then branch
  obtain ⟨_, thenWithin, thenClosed, thenLoops, thenKept⟩ :=
    forked.body thenPending thenLowers (fun _ loop _ => loop) thenRan joinNew joinUntouched.landing
  -- the else branch
  obtain ⟨elseWithin, elsePending⟩ := thenWithin.enter thenClosed elseNew
    (thenKept _ (by simp) elseUntouched)
  have joinAfterThen := (thenKept _ (by simp) joinUntouched).goTo (s.blocks.length + 1)
  obtain ⟨elseCertificate, elseWithin, elseClosed, elseLoops, elseKept⟩ :=
    elseWithin.body elsePending elseLowers (fun _ loop _ => by
      obtain ⟨tgts, hm, hh⟩ := loop
      exact ⟨tgts, thenLoops ▸ hm, hh⟩) elseRan joinNew joinAfterThen.landing
  -- the join
  obtain ⟨joined, _⟩ := elseWithin.enter elseClosed joinNew (elseKept _ (by simp) joinAfterThen)
  refine ⟨elseCertificate,
    hev.trans certified₀.currentExists ((joined.mono_waiting ?_).toStepped ?_)⟩
  · rintro block _ ⟨⟨⟨waits | ⟨new, hb⟩, notThen⟩, notElse⟩, notJoin⟩
    · exact waits
    · exact absurd hb (Nat.not_lt_of_le
        (Nat.lt_of_le_of_ne (Nat.lt_of_le_of_ne (Nat.lt_of_le_of_ne new notThen.symm)
          notElse.symm) notJoin.symm))
  · exact elseLoops.trans thenLoops

/-! ## Loops -/

section Loop

variable {s0 b t : FunctionBuilder} {cert cert' : Certificate}
  {wt : BlockId → Prop}

def FunctionBuilder.enterLoop (builder : FunctionBuilder) (exit again : BlockId) :
    FunctionBuilder :=
  { builder with loops := (exit, again) :: builder.loops }

def FunctionBuilder.leaveLoop (builder : FunctionBuilder) : FunctionBuilder :=
  { builder with loops := builder.loops.tail }

theorem lowerLoopBody_ok {blk exit back : BlockId}
    (ran : lowerLoopBody blk exit back bd b = .ok (r, t)) :
    ∃ v mid, bd ((b.goTo blk).enterLoop exit back) = .ok (v, mid) ∧
      t = (jumpOn mid.leaveLoop back).goTo exit := by
  obtain ⟨_, _, pushed, ran⟩ := bind_ok.mp ran
  cases pushed
  rw [setCurrent_bind_apply] at ran
  obtain ⟨v, mid, ranBody, ran⟩ := bind_ok.mp ran
  obtain ⟨_, _, popped, ran⟩ := bind_ok.mp ran
  cases popped
  rw [jumpUnlessTerminated_bind_apply, setCurrent_apply] at ran
  cases ran
  exact ⟨v, mid, ranBody, rfl⟩

theorem jumpOn_leaveLoop (tgt : BlockId) : jumpOn b.leaveLoop tgt = (jumpOn b tgt).leaveLoop := by
  rw [jumpOn, jumpOn]
  show (if b.terminated b.current then _ else _) = _
  split <;> rfl

section

variable (hw : Within s0 cert b cert' wt)

include hw

theorem Within.enterLoop {exit back : BlockId} (exitLanding : Landing b cert' exit)
    (againLanding : Landing b cert' back) :
    Within s0 cert (b.enterLoop exit back) cert' wt where
  certified := by
    apply hw.certified.pushLoop
    rintro tgt (rfl | rfl)
    · exact ⟨exitLanding.exists_, exitLanding.nothing, exitLanding.noPhi⟩
    · exact ⟨againLanding.exists_, againLanding.nothing, againLanding.noPhi⟩
  frame := hw.frame.trans (.of_blocks s0.current s0.LoopTarget rfl rfl)
    hw.startExists (.inl rfl) fun _ loop _ => loop
  startExists := hw.startExists
  new := hw.new

theorem Within.leaveLoop : Within s0 cert b.leaveLoop cert' wt  where
  certified := hw.certified.popLoop
  frame := hw.frame.trans (.of_blocks s0.current s0.LoopTarget rfl rfl)
    hw.startExists (.inl rfl) fun _ loop _ => loop
  startExists := hw.startExists
  new := hw.new

/-- Run the body of a loop; `exit` becomes current. -/
theorem Within.loop (pend : b.Pending b.current) (hlow : LowersStmt bd) (loops : b.loops = s0.loops) {exit hag : BlockId}
    (ran : bd (b.enterLoop exit hag) = .ok (r, t))
    (exitNew : s0.blocks.length ≤ exit) (exitApart : exit ≠ b.current)
    (hunt : Untouched b cert' exit) (againNew : s0.blocks.length ≤ hag)
    (landing : Landing b cert' hag) :
    ∃ cert'', Within s0 cert ((jumpOn t.leaveLoop hag).goTo exit) cert''
        (fun o => wt o ∧ o ≠ exit) ∧
      ((jumpOn t.leaveLoop hag).goTo exit).loops = s0.loops := by
  have hent := hw.enterLoop hunt.landing landing
  have landingEntered : Landing (b.enterLoop exit hag) cert' hag :=
    ⟨landing.exists_, landing.nothing, landing.noPhi⟩
  have untouchedEntered : Untouched (b.enterLoop exit hag) cert' exit :=
    ⟨hunt.exists_, hunt.nothing, hunt.empty⟩
  obtain ⟨cert'', ranWithin, hcl, loopsAfter, kept⟩ :=
    hent.body pend hlow (by
      -- the targets of the loop itself are new
      rintro tgt ⟨targets, hm, hh⟩ old
      obtain rfl | out := mem_cons.mp hm
      · obtain rfl | rfl := hh
        · exact absurd old (Nat.not_lt_of_le exitNew)
        · exact absurd old (Nat.not_lt_of_le againNew)
      · exact ⟨targets, loops ▸ out, hh⟩) ran againNew landingEntered
  have exitUntouched := kept exit exitApart untouchedEntered
  rw [jumpOn_leaveLoop]
  refine ⟨cert'', (ranWithin.leaveLoop.enter hcl exitNew
    ⟨exitUntouched.exists_, exitUntouched.nothing, exitUntouched.empty⟩).1, ?_⟩
  show (jumpOn t hag).loops.tail = s0.loops
  rw [loopsAfter]
  exact loops

end

end Loop

theorem lowersStmt_lowerLoop (hlow : LowersStmt bd) : LowersStmt (lowerLoop bd) := by
  intro s cert hwt hc pend r t ran
  rw [lowerLoop, newBlock_bind_apply, newBlock_bind_apply, terminate_bind_apply,
    addBlocks_addBlocks, length_addBlocks] at ran
  obtain ⟨_, _, bodyRan, rfl⟩ := lowerLoopBody_ok ran
  have bodyBound : s.blocks.length < s.blocks.length + 2 := Nat.lt_add_of_pos_right (by decide)
  have exitNew : s.blocks.length ≤ s.blocks.length + 1 := Nat.le_add_right _ 1
  obtain ⟨forked, hunt⟩ := Within.split hc pend 2 (.jump s.blocks.length) s.blocks.length (by simp)
    (fun tgt hm => by
      cases mem_singleton.mp hm
      exact ⟨le_refl _, bodyBound⟩)
    (forall_mem_nil _) (Nat.le_refl _) bodyBound
  have bodyUntouched := hunt s.blocks.length (Nat.le_refl _) bodyBound
  have exitUntouched := hunt (s.blocks.length + 1) exitNew (Nat.add_lt_add_left (by decide) _)
  obtain ⟨cert', looped, loops⟩ := forked.loop bodyUntouched.pending hlow rfl bodyRan
    exitNew (by simp) exitUntouched (Nat.le_refl _) bodyUntouched.landing
  refine ⟨cert', (looped.mono_waiting ?_).toStepped loops⟩
  rintro block _ ⟨⟨waits | ⟨new, hb⟩, notBody⟩, notExit⟩
  · exact waits
  · exact absurd hb (Nat.not_lt_of_le
      (Nat.lt_of_le_of_ne (Nat.lt_of_le_of_ne new notBody.symm) notExit.symm))

theorem lowersStmt_lowerWhile (conditionLowers : LowersValue cond)
    (hlow : LowersStmt bd) : LowersStmt (lowerWhile cond bd) := by
  intro s cert hwt hc pend r t ran
  rw [lowerWhile, newBlock_bind_apply, terminate_bind_apply, setCurrent_bind_apply] at ran
  have conditionBound : s.blocks.length < s.blocks.length + 1 := lt_succ_self _
  obtain ⟨hent, hunt⟩ := Within.split hc pend 1 (.jump s.blocks.length) s.blocks.length (by simp)
    (fun tgt hm => by
      cases mem_singleton.mp hm
      exact ⟨le_refl _, conditionBound⟩)
    (forall_mem_nil _) (le_refl _) conditionBound
  have conditionUntouched := hunt s.blocks.length (le_refl _) conditionBound
  have onlyWaiting : ∀ blk, blk < (((s.addBlocks 1).close (.jump s.blocks.length)).goTo
      s.blocks.length).blocks.length → ((hwt blk ∨ (s.blocks.length ≤ blk ∧
      blk < s.blocks.length + 1)) ∧ blk ≠ s.blocks.length) → hwt blk := by
    rintro blk _ ⟨waits | ⟨new, hb⟩, notCondition⟩
    · exact waits
    · exact absurd hb (Nat.not_lt_of_le (Nat.lt_of_le_of_ne new notCondition.symm))
  have hent := hent.mono_waiting onlyWaiting
  obtain ⟨cert', mid, hev, rfl | ⟨v, open_, hav, ran⟩⟩ :=
    lowersValue_unlessDiverged conditionLowers hent.certified conditionUntouched.pending ran
  · exact ⟨cert', (hent.stepped hev fun _ loop _ => loop).toStepped hev.loops⟩
  have atCondition := hent.stepped hev fun _ loop _ => loop
  have hag := conditionUntouched.landing.framed hev.frame
  rw [newBlock_bind_apply, newBlock_bind_apply, terminate_bind_apply, addBlocks_addBlocks,
    length_addBlocks] at ran
  obtain ⟨_, _, bodyRan, rfl⟩ := lowerLoopBody_ok ran
  have bodyBound : mid.blocks.length < mid.blocks.length + 2 := Nat.lt_add_of_pos_right (by decide)
  have exitNew : mid.blocks.length ≤ mid.blocks.length + 1 := Nat.le_add_right _ 1
  have exitBound : mid.blocks.length + 1 < mid.blocks.length + 2 :=
    Nat.add_lt_add_left (by decide) _
  obtain ⟨forked, hunt⟩ := Within.split hev.certified open_ 2
    (.branch v mid.blocks.length (mid.blocks.length + 1)) mid.blocks.length (by simp)
    (fun tgt hm => by
      simp only [Terminator.targets, mem_cons, not_mem_nil, or_false] at hm
      obtain rfl | rfl := hm
      · exact ⟨le_refl _, bodyBound⟩
      · exact ⟨exitNew, exitBound⟩)
    (fun used hm => by cases mem_singleton.mp hm; exact hav)
    (le_refl _) bodyBound
  have hg : s.blocks.length ≤ mid.blocks.length := atCondition.frame.blocksGrow
  have atBody := atCondition.trans forked fun tgt loop _ => by
    obtain ⟨tgts, hm, hh⟩ := loop
    exact ⟨tgts, hev.loops ▸ hm, hh⟩
  obtain ⟨cert'', looped, loops⟩ := atBody.loop
    (hunt mid.blocks.length (le_refl _) bodyBound).pending hlow hev.loops bodyRan
    (le_trans hg exitNew) (by simp)
    (hunt (mid.blocks.length + 1) exitNew exitBound) (le_refl _)
    (hag.framed forked.frame)
  refine ⟨cert'', (looped.mono_waiting ?_).toStepped loops⟩
  rintro blk _ ⟨⟨waits | ⟨new, hb⟩, notBody⟩, notExit⟩
  · exact waits
  · exact absurd hb (Nat.not_lt_of_le
      (Nat.lt_of_le_of_ne (Nat.lt_of_le_of_ne new notBody.symm) notExit.symm))

/-! ## Leaving a block -/

/-- `break` and `continue` go to a target of the innermost loop. -/
theorem lowersStmt_jumpTo {choose : BlockId × BlockId → BlockId}
    (chosen : ∀ tgts, choose tgts = tgts.1 ∨ choose tgts = tgts.2) :
    LowersStmt (do terminate (.jump (choose (← innermostLoop)))) := by
  intro s cert hwt hc pend r t ran
  obtain ⟨tgts, _, hlk, ran⟩ := bind_ok.mp ran
  rw [innermostLoop, get_bind_apply] at hlk
  obtain ⟨innermost, rfl⟩ := orPanic_ok.mp hlk
  have loop : s.LoopTarget (choose tgts) := ⟨tgts, mem_of_mem_head? innermost, chosen tgts⟩
  rw [terminate_ok ran]
  exact ⟨cert, (Lowered.close hc pend (by simp)
    (fun tgt hm => by cases mem_singleton.mp hm; exact loop)
    (by intro _ bad; cases bad) []).toStepped⟩

/-- Leave the current block for good. -/
theorem Stepped.leave {s : FunctionBuilder} {cert : Certificate}
    {hwt : BlockId → Prop} (hc : Certified s cert hwt)
    (pend : s.Pending s.current) {term : Terminator}
    (final : term ≠ .pending) (leaves : term.targets = [])
    (uses : ∀ v ∈ term.uses, Available s cert s.current v) :
    Stepped s cert hwt (s.close term) cert :=
  (Lowered.close hc pend final (by rw [leaves]; intro _ bad; cases bad) uses []).toStepped

theorem lowersStmt_lowerReturn_none : LowersStmt (lowerReturn none) := by
  intro s cert hwt hc pend r t ran
  rw [lowerReturn, currentTerminated_bind_apply, pending_iff_terminated.mp pend] at ran
  rw [terminate_ok ran]
  exact ⟨cert, .leave hc pend (by simp) rfl (by intro _ bad; cases bad)⟩

theorem lowersStmt_lowerReturn_some {v : BuilderM ValueId} (hlow : LowersValue v) :
    LowersStmt (lowerReturn (some v)) := by
  intro s cert hwt hc pend r t ran
  obtain ⟨cert', _, hev, rfl | ⟨hret, open_, hav, ran⟩⟩ :=
    lowersValue_unlessDiverged hlow hc pend ran
  · exact ⟨cert', hev⟩
  · rw [terminate_ok ran]
    have hcl := Stepped.leave hev.certified open_
      (show Terminator.return (some hret) ≠ .pending by simp) rfl
      (fun used hm => by cases mem_singleton.mp hm; exact hav)
    exact ⟨cert', hev.trans hc.currentExists hcl⟩

/-! ## All statements -/

/-- Statements after a closed block are dropped. -/
theorem lowerStmts_closed (cx : LowerContext) (stmts : List HirStmt) {b : FunctionBuilder}
    (hcl : ¬ b.Pending b.current) :
    lowerStmts cx stmts b = .ok ((), b) := by
  rw [pending_iff_terminated, Bool.not_eq_false] at hcl
  cases stmts with
  | nil => rfl
  | cons =>
    rw [lowerStmts, currentTerminated_bind_apply, hcl]
    rfl

theorem lowersStmt_pure : LowersStmt (pure ()) :=
  (.pure (nil_subset _) : Lowers [] _ fun _ => []).stmt

mutual

theorem lowersStmt_lowerBlock (cx : LowerContext) :
    ∀ blk : HirBlock, LowersStmt (lowerBlock cx blk)
  | .mk stmts => by
    rw [lowerBlock]
    exact lowersStmt_lowerStmts cx stmts

theorem lowersStmt_lowerStmts (cx : LowerContext) :
    ∀ stmts : List HirStmt, LowersStmt (lowerStmts cx stmts)
  | [] => by
    rw [lowerStmts]
    exact lowersStmt_pure
  | stmt :: stmts => by
    intro s cert hwt hc pend r t ran
    rw [lowerStmts, currentTerminated_bind_apply, pending_iff_terminated.mp pend] at ran
    obtain ⟨_, mid, ranStmt, ran⟩ := bind_ok.mp ran
    obtain ⟨cert', first⟩ := lowersStmt_lowerStmt cx stmt s cert hwt hc pend _ mid ranStmt
    by_cases open_ : mid.Pending mid.current
    · obtain ⟨cert'', tl⟩ := lowersStmt_lowerStmts cx stmts mid cert' hwt
        first.certified open_ r t ran
      exact ⟨cert'', first.trans hc.currentExists tl⟩
    · rw [lowerStmts_closed cx stmts open_] at ran
      cases ran
      exact ⟨cert', first⟩

theorem lowersStmt_lowerStmt (cx : LowerContext) : ∀ stmt : HirStmt, LowersStmt (lowerStmt cx stmt)
  | .let id init => by
    rw [lowerStmt]
    have hlow : Lowers [] (do
        let hd ← orPanic cx.function.locals[id]?
        lowerInitializer cx init (localPlace id hd.ty)) fun _ => [] :=
      .orPanic_bind fun hd => lowersInto_lowerInitializer cx init (localPlace id hd.ty)
    exact hlow.stmt
  | .expr expr => by
    rw [lowerStmt]
    exact (lowers_discard (lowersValue_lowerExpr cx expr)).stmt
  | .unsafeBlock blk => by
    rw [lowerStmt]
    exact lowersStmt_lowerBlock cx blk
  | .return none => by
    rw [lowerStmt]
    exact lowersStmt_lowerReturn_none
  | .return (some v) => by
    rw [lowerStmt]
    exact lowersStmt_lowerReturn_some (lowersValue_lowerExpr cx v)
  | .if cond thenBlock none => by
    rw [lowerStmt]
    exact lowersStmt_lowerIf (lowersValue_lowerExpr cx cond)
      (lowersStmt_lowerBlock cx thenBlock) lowersStmt_pure
  | .if cond thenBlock (some elseBlock) => by
    rw [lowerStmt]
    exact lowersStmt_lowerIf (lowersValue_lowerExpr cx cond)
      (lowersStmt_lowerBlock cx thenBlock) (lowersStmt_lowerBlock cx elseBlock)
  | .while cond bd => by
    rw [lowerStmt]
    exact lowersStmt_lowerWhile (lowersValue_lowerExpr cx cond) (lowersStmt_lowerBlock cx bd)
  | .loop bd => by
    rw [lowerStmt]
    exact lowersStmt_lowerLoop (lowersStmt_lowerBlock cx bd)
  | .break => by
    rw [lowerStmt]
    exact lowersStmt_jumpTo fun _ => .inl rfl
  | .continue => by
    rw [lowerStmt]
    exact lowersStmt_jumpTo fun _ => .inr rfl

end

/-! ## Functions and programs -/

/-- A new builder has one empty block and no values. -/
theorem certified_new (fn : HirFunction) :
    Certified (.new fn) (fun _ _ => False) fun _ => False := by
  have empty (blk : BlockId) : (FunctionBuilder.new fn).block blk = .empty := by
    cases blk <;> rfl
  have instructions (blk : BlockId) : (FunctionBuilder.new fn).instructions blk = [] := by
    rw [FunctionBuilder.instructions, empty]
    rfl
  have tgts (blk : BlockId) : (FunctionBuilder.new fn).targets blk = [] := by
    rw [FunctionBuilder.targets, empty]
    rfl
  constructor
  case currentExists => exact Nat.zero_lt_one
  case pendingWaits =>
    intro blk hexi _
    exact .inl (Nat.lt_one_iff.mp hexi)
  case targetsExist =>
    intro blk tgt hm
    rw [tgts] at hm
    cases hm
  case loopTargets =>
    rintro tgt ⟨_, bad, _⟩
    cases bad
  case certifiedDefined =>
    intro _ _ bad
    exact bad.elim
  case atEntry => exact fun _ bad => bad
  case alongEdge =>
    intro _ _ _ _ bad
    exact bad.elim
  case usesAvailable =>
    intro blk s ins t split
    rw [instructions] at split
    cases s <;> cases split
  case terminatorAvailable =>
    intro blk v hm
    rw [empty] at hm
    cases hm
  case phis =>
    intro blk dst inc hm
    rw [instructions] at hm
    cases hm
  case definitions => exact List.Perm.refl []

theorem lowerBody_certified {cx : LowerContext} {bd : HirBlock} {t : FunctionBuilder}
    (ran : lowerBody cx bd (.new cx.function) = .ok (r, t)) :
    ∃ cert, Certified t cert (fun _ => False) ∧ ¬ t.Pending t.current := by
  obtain ⟨_, mid, ranBody, ran⟩ := bind_ok.mp ran
  obtain ⟨cert, hlw⟩ := lowersStmt_lowerBlock cx bd _ _ _ (certified_new cx.function)
    rfl _ mid ranBody
  rw [currentTerminated_bind_apply] at ran
  by_cases open_ : mid.Pending mid.current
  · -- the last block falls off the end of the function
    rw [pending_iff_terminated.mp open_] at ran
    obtain ⟨_, _, hlk, ran⟩ := bind_ok.mp ran
    obtain ⟨_, rfl⟩ := orPanic_ok.mp hlk
    have leave {term : Terminator} (final : term ≠ .pending)
        (leaves : term.targets = []) (unused : term.uses = [])
        (terminated : terminate term mid = .ok (r, t)) :
        Certified t cert (fun _ => False) ∧ ¬ t.Pending t.current := by
      rw [terminate_ok terminated]
      refine ⟨(Stepped.leave hlw.certified open_ final leaves ?_).certified,
        not_pending_close hlw.certified.currentExists final⟩
      rw [unused]
      intro _ bad
      cases bad
    split at ran
    · exact ⟨cert, leave (by simp) rfl rfl ran⟩
    · exact ⟨cert, leave (by simp) rfl rfl ran⟩
  · have hcl := open_
    rw [pending_iff_terminated, Bool.not_eq_false] at hcl
    rw [hcl] at ran
    cases ran
    exact ⟨cert, hlw.certified, open_⟩

theorem lowerFunction_wellFormedSsa {cx : LowerContext} {bd : HirBlock} {fn : MirFunction}
    (hlw : lowerFunction cx bd = .ok fn) : fn.WellFormedSsa := by
  obtain ⟨⟨_, _⟩, ran, hfin⟩ := bind_eq_ok.mp hlw
  cases hfin
  obtain ⟨_, hc, hcl⟩ := lowerBody_certified ran
  exact hc.wellFormedSsa hcl

theorem lowerFunctions_wellFormedSsa (prog : HirProgram) :
    ∀ {functions : List (HirFunction × FunctionId)} {lw : List MirFunction},
      lowerFunctions prog functions = .ok lw →
      ∀ fn ∈ lw, fn.WellFormedSsa := by
  intro functions
  induction functions with
  | nil =>
    intro lw ran fn hm
    cases ran
    cases hm
  | cons head rest ih =>
    intro lw ran
    obtain ⟨fn, _⟩ := head
    cases bd : fn.body with
    | none =>
      simp only [lowerFunctions, bd] at ran
      exact ih ran
    | some bd =>
      simp only [lowerFunctions, bd] at ran
      obtain ⟨_, ranFirst, ran⟩ := bind_eq_ok.mp ran
      obtain ⟨_, ranRest, ran⟩ := bind_eq_ok.mp ran
      cases ran
      intro hf hm
      obtain rfl | hl := mem_cons.mp hm
      · exact lowerFunction_wellFormedSsa ranFirst
      · exact ih ranRest hf hl

/-- Every function of a lowered program is in SSA form: each value is defined once, every use is
dominated by its definition, and a `phi` lists each predecessor of its block once. -/
theorem lower_wellFormedSsa (program : HirProgram) (lowered : MirProgram)
    (ran : lower program = .ok lowered) :
    ∀ function ∈ lowered.functions, function.WellFormedSsa := by
  obtain ⟨functions, ranFunctions, finished⟩ := bind_eq_ok.mp ran
  cases finished
  exact lowerFunctions_wellFormedSsa program ranFunctions

/-- `while flag && flag { break; }` -/
def whileBothProgram : HirProgram where
  types := ⟨[.bool, .void], [], [], [("bool", 0), ("void", 1)]⟩
  functions := [{
    qualifiedName := "sample"
    result := 1
    locals := [⟨0⟩]
    body := some (.mk [.while
      (.mk (.binary .logicalAnd (.mk (.local 0) 0 ⟨6, 10, 1, 7⟩) (.mk (.local 0) 0 ⟨14, 18, 1, 15⟩))
        0 ⟨6, 18, 1, 7⟩)
      (.mk [.break])]) }]
  statics := 0

/-- Block 4 joins the two ways through `&&`. -/
def whileBothLowered : MirProgram where
  functions := [{
    source := 0
    localTypes := [0]
    values := [0, 0, 0, 0]
    blocks := [
      ⟨[], .jump 1⟩,
      ⟨[.load 0 ⟨.local 0, [], 0⟩ false], .branch 0 2 3⟩,
      ⟨[.load 1 ⟨.local 0, [], 0⟩ false], .jump 4⟩,
      ⟨[.const 2 0], .jump 4⟩,
      ⟨[.phi 3 [(2, 1), (3, 2)]], .branch 3 5 6⟩,
      ⟨[], .jump 6⟩,
      ⟨[], .return none⟩]
    entry := 0 }]
  statics := []

theorem whileBoth_wellFormedSsa :
    lower whileBothProgram = .ok whileBothLowered ∧
      ∀ function ∈ whileBothLowered.functions, function.WellFormedSsa := by
  have ran : lower whileBothProgram = .ok whileBothLowered := by decide +kernel
  exact ⟨ran, lower_wellFormedSsa whileBothProgram whileBothLowered ran⟩

end Ostadix.Ocore
