import Ostadix.Ocore.Triple

/-! # Regions of new blocks

A construct with branches closes the current block and goes on in blocks of its own. `Within`
says how far it has got: only new blocks were touched since, and the current block is one of
them. -/

namespace Ostadix.Ocore

open FunctionBuilder

/-- The construct that began at `start` has reached `builder`. -/
structure Within (start : FunctionBuilder) (certificate : Certificate) (builder : FunctionBuilder)
    (certificate' : Certificate) (waiting : BlockId → Prop) : Prop where
  certified : Certified builder certificate' waiting
  frame : Frame start.current start.LoopTarget start certificate builder certificate'
  startExists : start.current < start.blocks.length
  new : start.blocks.length ≤ builder.current

section Within

variable {s0 b t : FunctionBuilder} {cert cert' cert'' : Certificate}
  {wt : BlockId → Prop}

/-- Close the current block with a branch into `count` new blocks, which expect `values`, and go
on in one of them. -/
theorem Within.fork (certified : Certified s0 cert wt)
    (pend : s0.Pending s0.current) {values : ValueId → Prop}
    (offered : ∀ v, values v → Available s0 cert s0.current v)
    {count : Nat} {term : Terminator} (final : term ≠ .pending)
    (tgts : ∀ tgt ∈ term.targets, s0.blocks.length ≤ tgt ∧ tgt < s0.blocks.length + count)
    (uses : ∀ v ∈ term.uses, Available s0 cert s0.current v)
    {blk : BlockId} (new : s0.blocks.length ≤ blk) (hexi : blk < s0.blocks.length + count) :
    Within s0 cert (((s0.addBlocks count).close term).goTo blk)
      (cert.beyond s0.blocks.length values)
      fun o => (wt o ∨ (s0.blocks.length ≤ o ∧ o < s0.blocks.length + count)) ∧ o ≠ blk := by
  have added : Certified (s0.addBlocks count) (cert.beyond s0.blocks.length values) _ :=
    certified.addBlocks (fun v hh => certified.available_defined (offered v hh)) count
  have current : (s0.addBlocks count).current = s0.current := rfl
  have hcur := added.currentExists
  have hav {v : ValueId} (hh : Available s0 cert s0.current v) :
      Available (s0.addBlocks count) (cert.beyond s0.blocks.length values)
        (s0.addBlocks count).current v := by
    rw [Available, current, cert.beyond_old values certified.currentExists, Defines,
      instructions, block_addBlocks]
    exact hh
  have addedPending : (s0.addBlocks count).Pending (s0.addBlocks count).current := by
    rw [Pending, block_addBlocks]
    exact pend
  have hcl : Certified ((s0.addBlocks count).close term) (cert.beyond s0.blocks.length values)
      fun o => wt o ∨ (s0.blocks.length ≤ o ∧ o < s0.blocks.length + count) := by
    refine added.close addedPending ?_ fun v hm => hav (uses v hm)
    intro tgt hm
    obtain ⟨newTarget, targetExists⟩ := tgts tgt hm
    refine ⟨by rw [length_addBlocks]; exact targetExists, ?_, ?_⟩
    · intro dst inc hm
      rw [instructions, block_addBlocks, block_of_le newTarget] at hm
      cases hm
    · intro v hent
      rw [cert.beyond_new values newTarget] at hent
      exact hav (offered v hent)
  constructor
  case certified =>
    refine hcl.setCurrent (not_pending_close hcur final) ?_
    rw [length_blocks_close, length_addBlocks]
    exact hexi
  case frame =>
    have first : Frame s0.current s0.LoopTarget s0 cert (s0.addBlocks count)
        (cert.beyond s0.blocks.length values) := .addBlocks _ _ values count
    have x2 := first.trans (.close hcur term) certified.currentExists (.inl rfl)
      fun tgt hm old => absurd old (Nat.not_lt_of_le (tgts tgt hm).1)
    exact x2.trans (.of_blocks s0.current s0.LoopTarget rfl rfl) certified.currentExists
      (.inl rfl) fun _ loop _ => loop
  case startExists => exact certified.currentExists
  case new => exact new

section

variable (hw : Within s0 cert b cert' wt)

include hw

theorem Within.mono_waiting {oths : BlockId → Prop}
    (weaker : ∀ blk, blk < b.blocks.length → wt blk → oths blk) :
    Within s0 cert b cert' oths :=
  { hw with certified := hw.certified.mono_waiting weaker }

/-- A construct that has restored the loops is a step. -/
theorem Within.toStepped (loops : b.loops = s0.loops) : Stepped s0 cert wt b cert' where
  certified := hw.certified
  frame := hw.frame
  moved := .inr hw.new
  loops := loops

/-- A construct inside of another one. -/
theorem Within.trans {oths : BlockId → Prop} (inn : Within b cert' t cert'' oths)
    (loops : ∀ tgt, b.LoopTarget tgt → tgt < s0.blocks.length → s0.LoopTarget tgt) :
    Within s0 cert t cert'' oths where
  certified := inn.certified
  frame := hw.frame.trans inn.frame hw.startExists (.inr hw.new) loops
  startExists := hw.startExists
  new := Nat.le_trans hw.frame.blocksGrow inn.new

/-- Lower something in the current block of the construct. -/
theorem Within.stepped (hstp : Stepped b cert' wt t cert'')
    (loops : ∀ tgt, b.LoopTarget tgt → tgt < s0.blocks.length → s0.LoopTarget tgt) :
    Within s0 cert t cert'' wt where
  certified := hstp.certified
  frame := hw.frame.trans hstp.frame hw.startExists (.inr hw.new) loops
  startExists := hw.startExists
  new := by
    obtain he | beyond := hstp.moved
    · rw [he]
      exact hw.new
    · exact Nat.le_trans hw.frame.blocksGrow beyond

/-- Close the current block of the construct with edges to blocks that expect no more than it
offers. -/
theorem Within.close (pend : b.Pending b.current) {term : Terminator}
    (tgts : ∀ tgt ∈ term.targets, s0.blocks.length ≤ tgt ∧
      tgt < b.blocks.length ∧ b.NoPhi tgt ∧
      ∀ v, cert' tgt v → Available b cert' b.current v)
    (uses : ∀ v ∈ term.uses, Available b cert' b.current v) :
    Within s0 cert (b.close term) cert' wt where
  certified := hw.certified.close pend (fun tgt hm => (tgts tgt hm).2) uses
  frame := hw.frame.trans (.close hw.certified.currentExists term) hw.startExists
    (.inr hw.new) fun tgt hm old =>
      absurd old (Nat.not_lt_of_le (tgts tgt hm).1)
  startExists := hw.startExists
  new := hw.new

/-- Go on in another block of the construct. -/
theorem Within.setCurrent (hcl : ¬ b.Pending b.current) {blk : BlockId}
    (new : s0.blocks.length ≤ blk) (hexi : blk < b.blocks.length) :
    Within s0 cert (b.goTo blk) cert' fun o => wt o ∧ o ≠ blk where
  certified := hw.certified.setCurrent hcl hexi
  frame := hw.frame.trans (.of_blocks s0.current s0.LoopTarget rfl rfl)
    hw.startExists (.inl rfl) fun _ loop _ => loop
  startExists := hw.startExists
  new := new

/-- Any instruction may go into a block of the construct, also a `phi`. -/
theorem Within.append {tys : List TypeId} {ins : Instruction} (definesNew : DefinesNew b tys ins)
    (uses : ∀ v ∈ ins.uses, Available b cert' b.current v) (phiReady : PhiReady b cert' ins) :
    Within s0 cert (b.append tys ins) cert' wt := by
  have hcur := hw.certified.currentExists
  have other {blk : BlockId} (old : blk < s0.blocks.length) : blk ≠ b.current :=
    Nat.ne_of_lt (Nat.lt_of_lt_of_le old hw.new)
  constructor
  case certified => exact hw.certified.append definesNew uses phiReady
  case startExists => exact hw.startExists
  case new => exact hw.new
  case frame =>
    constructor
    case blocksGrow => simpa using hw.frame.blocksGrow
    case valuesGrow =>
      rw [length_values_append]
      exact Nat.le_add_right_of_le hw.frame.valuesGrow
    case certificateKept => exact hw.frame.certificateKept
    case kept =>
      intro blk old apart
      rw [block_append hcur, if_neg (other old)]
      exact hw.frame.kept blk old apart
    case extended =>
      obtain ⟨more, extended, noPhi⟩ := hw.frame.extended
      refine ⟨more, ?_, noPhi⟩
      rw [instructions_append hcur, if_neg (other hw.startExists)]
      exact extended
    case newEdges =>
      intro blk tgt old hm
      rw [targets_append hcur] at hm
      exact hw.frame.newEdges blk tgt old hm

end

end Within

/-! ## Running the primitives -/

section Run

variable {α : Type} (builder : FunctionBuilder)

theorem newBlock_bind_apply (next : BlockId → BuilderM α) :
    (newBlock >>= next) builder = next builder.blocks.length (builder.addBlocks 1) := rfl

theorem terminate_bind_apply (term : Terminator) (next : Unit → BuilderM α) :
    (terminate term >>= next) builder = next () (builder.close term) := rfl

theorem setCurrent_bind_apply (blk : BlockId) (next : Unit → BuilderM α) :
    (setCurrent blk >>= next) builder = next () (builder.goTo blk) := rfl

theorem get_bind_apply (next : FunctionBuilder → BuilderM α) :
    (get >>= next) builder = next builder builder := rfl

theorem currentTerminated_bind_apply (next : Bool → BuilderM α) :
    (currentTerminated >>= next) builder = next (builder.terminated builder.current) builder := rfl

theorem constValue_bind_apply (v : UInt64) (ty : TypeId) (next : ValueId → BuilderM α) :
    (constValue v ty >>= next) builder =
      next builder.values.length (builder.append [ty] (.const builder.values.length v)) := rfl

theorem setCurrent_apply (blk : BlockId) :
    setCurrent blk builder = .ok ((), builder.goTo blk) := rfl

/-- The builder after `jumpUnlessTerminated`. -/
def jumpOn (builder : FunctionBuilder) (target : BlockId) : FunctionBuilder :=
  if builder.terminated builder.current then builder else builder.close (.jump target)

theorem jumpUnlessTerminated_bind_apply (tgt : BlockId) (next : Unit → BuilderM α) :
    (jumpUnlessTerminated tgt >>= next) builder = next () (jumpOn builder tgt) := by
  rw [jumpOn]
  show ((if (!builder.terminated builder.current) = true then terminate (.jump tgt)
    else pure ()) >>= next) builder = _
  cases builder.terminated builder.current <;> rfl

end Run

/-! ## Jumping on -/

section JumpOn

variable {s0 b : FunctionBuilder} {cert cert' : Certificate}
  {wt : BlockId → Prop} {tgt : BlockId}

theorem jumpOn_closed (hcl : ¬ b.Pending b.current) : jumpOn b tgt = b := by
  rw [pending_iff_terminated, Bool.not_eq_false] at hcl
  rw [jumpOn, if_pos hcl]

theorem jumpOn_open (pend : b.Pending b.current) : jumpOn b tgt = b.close (.jump tgt) := by
  rw [pending_iff_terminated] at pend
  rw [jumpOn, pend, if_neg Bool.false_ne_true]

/-- Going on to a block that expects no more than the current one offers. -/
theorem Within.leaveTo (hw : Within s0 cert b cert' wt) (new : s0.blocks.length ≤ tgt)
    (ready : b.Pending b.current → tgt < b.blocks.length ∧ b.NoPhi tgt ∧
      ∀ v, cert' tgt v → Available b cert' b.current v) :
    Within s0 cert (jumpOn b tgt) cert' wt ∧ ¬ (jumpOn b tgt).Pending (jumpOn b tgt).current := by
  by_cases pend : b.Pending b.current
  · rw [jumpOn_open pend]
    refine ⟨hw.close pend ?_ ?_, not_pending_close hw.certified.currentExists (by simp)⟩
    · intro o hm
      cases List.mem_singleton.mp hm
      exact ⟨new, ready pend⟩
    · intro v bad
      cases bad
  · rw [jumpOn_closed pend]
    exact ⟨hw, pend⟩

section

variable (currentExists : b.current < b.blocks.length)

include currentExists

theorem instructions_jumpOn (blk : BlockId) :
    (jumpOn b tgt).instructions blk = b.instructions blk := by
  by_cases pend : b.Pending b.current
  · rw [jumpOn_open pend, instructions_close currentExists]
  · rw [jumpOn_closed pend]

theorem block_jumpOn_of_ne {blk : BlockId} (apart : blk ≠ b.current) :
    (jumpOn b tgt).block blk = b.block blk := by
  by_cases pend : b.Pending b.current
  · rw [jumpOn_open pend, block_close currentExists, if_neg apart]
  · rw [jumpOn_closed pend]

theorem mem_targets_jumpOn {blk o : BlockId} : o ∈ (jumpOn b tgt).targets blk ↔ o ∈ b.targets blk ∨
        (b.Pending b.current ∧ blk = b.current ∧ o = tgt) := by
  by_cases pend : b.Pending b.current
  · rw [jumpOn_open pend, targets_close currentExists]
    split
    · rename_i he
      rw [he, targets_of_pending pend]
      simp [Terminator.targets, pend]
    · rename_i he
      simp [he]
  · rw [jumpOn_closed pend]
    simp [pend]

end

@[simp] theorem loops_jumpOn (tgt : BlockId) : (jumpOn b tgt).loops = b.loops := by
  rw [jumpOn]
  split <;> rfl

@[simp] theorem values_jumpOn : (jumpOn b tgt).values = b.values := by
  rw [jumpOn]
  split <;> rfl

@[simp] theorem length_blocks_jumpOn : (jumpOn b tgt).blocks.length = b.blocks.length := by
  rw [jumpOn]
  split
  · rfl
  · exact length_blocks_close _

end JumpOn

end Ostadix.Ocore
