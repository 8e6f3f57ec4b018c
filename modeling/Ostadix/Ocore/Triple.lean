import Ostadix.Lib.Except
import Ostadix.Ocore.Frame
import Ostadix.Ocore.Lower

/-! # Certified lowering steps

`Lowers given m provides` says that the computation `m`, started in a certified builder whose
current block is open and has the values `given` available, ends in a certified builder again,
touching nothing but the current block and new blocks; if it leaves a block open, the values
`provides` are available at its end, and so is what was available before. -/

namespace Ostadix.Ocore

open FunctionBuilder List Nat

/-! ## Frames -/

/-- `touched` is the only old block that changes, and only by new instructions without a `phi`
and by its terminator; new edges into old blocks lead to `jumps`. -/
structure Frame (touched : BlockId) (jumps : BlockId → Prop) (before : FunctionBuilder)
    (certificate : Certificate) (after : FunctionBuilder) (certificate' : Certificate) : Prop where
  blocksGrow : before.blocks.length ≤ after.blocks.length
  valuesGrow : before.values.length ≤ after.values.length
  certificateKept : ∀ block, block < before.blocks.length → certificate' block = certificate block
  kept : ∀ block, block < before.blocks.length → block ≠ touched →
    after.block block = before.block block
  extended : ∃ more, after.instructions touched = before.instructions touched ++ more ∧
    ∀ dst incoming, .phi dst incoming ∉ more
  newEdges : ∀ block target, target < before.blocks.length → target ∈ after.targets block →
    target ∈ before.targets block ∨ jumps target

section Frame

variable {touched next : BlockId} {jumps others : BlockId → Prop}
  {a1 second third : FunctionBuilder} {cert cert' cert'' : Certificate}

theorem Frame.refl (touched : BlockId) (jumps : BlockId → Prop) (b : FunctionBuilder)
    (cert : Certificate) : Frame touched jumps b cert b cert  where
  blocksGrow := le_refl _
  valuesGrow := le_refl _
  certificateKept _ _ := rfl
  kept _ _ _ := rfl
  extended := ⟨[], (append_nil _).symm, fun _ _ => not_mem_nil⟩
  newEdges _ _ _ hm := .inl hm

theorem Frame.trans (fr : Frame touched jumps a1 cert second cert')
    (hl : Frame next others second cert' third cert'') (touchedExists : touched < a1.blocks.length)
    (moved : next = touched ∨ a1.blocks.length ≤ next)
    (hw : ∀ tgt, others tgt → tgt < a1.blocks.length → jumps tgt) :
    Frame touched jumps a1 cert third cert'' := by
  have apart {blk : BlockId} (old : blk < a1.blocks.length) (o : blk ≠ touched) : blk ≠ next := by
    obtain rfl | beyond := moved
    · exact o
    · exact Nat.ne_of_lt (Nat.lt_of_lt_of_le old beyond)
  constructor
  case blocksGrow => exact Nat.le_trans fr.blocksGrow hl.blocksGrow
  case valuesGrow => exact Nat.le_trans fr.valuesGrow hl.valuesGrow
  case certificateKept =>
    intro blk old
    rw [hl.certificateKept blk (lt_of_lt_of_le old fr.blocksGrow), fr.certificateKept blk old]
  case kept =>
    intro blk old o
    rw [hl.kept blk (lt_of_lt_of_le old fr.blocksGrow) (apart old o), fr.kept blk old o]
  case extended =>
    obtain ⟨more, extended, noPhi⟩ := fr.extended
    by_cases he : next = touched
    · obtain ⟨evenMore, further, noPhiLater⟩ := hl.extended
      rw [he] at further
      refine ⟨more ++ evenMore, by rw [further, extended, append_assoc], ?_⟩
      intro dst inc hm
      obtain early | late := mem_append.mp hm
      · exact noPhi dst inc early
      · exact noPhiLater dst inc late
    · refine ⟨more, ?_, noPhi⟩
      rw [instructions, hl.kept touched (lt_of_lt_of_le touchedExists fr.blocksGrow)
        (fun heq => he heq.symm)]
      exact extended
  case newEdges =>
    intro blk tgt old hm
    obtain mid | jump := hl.newEdges blk tgt (lt_of_lt_of_le old fr.blocksGrow) hm
    · exact fr.newEdges blk tgt old mid
    · exact .inr (hw tgt jump old)

theorem Frame.noPhi (fr : Frame touched jumps a1 cert second cert')
    {blk : BlockId} (old : blk < a1.blocks.length) (noPhi : a1.NoPhi blk) :
    second.NoPhi blk := by
  intro dst inc hm
  by_cases he : blk = touched
  · obtain ⟨_, hext, noPhiMore⟩ := fr.extended
    rw [he, hext, mem_append] at hm
    obtain early | late := hm
    · exact noPhi dst inc (he ▸ early)
    · exact noPhiMore dst inc late
  · rw [instructions, fr.kept blk old he] at hm
    exact noPhi dst inc hm

end Frame

/-! ## Frames of the primitives -/

variable {ins : Instruction}

section Primitives

variable {b : FunctionBuilder} {cert : Certificate}

theorem Frame.append (hcur : b.current < b.blocks.length)
    (jumps : BlockId → Prop) (tys : List TypeId) (noPhi : ∀ dst inc, ins ≠ .phi dst inc) :
    Frame b.current jumps b cert (b.append tys ins) cert where
  blocksGrow := by simp
  valuesGrow := by simp
  certificateKept _ _ := rfl
  kept blk _ o := by rw [block_append hcur, if_neg o]
  extended := by
    refine ⟨[ins], ?_, ?_⟩
    · rw [instructions_append hcur, if_pos rfl]
    · intro dst inc hm
      exact noPhi dst inc (mem_singleton.mp hm).symm
  newEdges blk tgt _ hm := by
    rw [targets_append hcur] at hm
    exact .inl hm

theorem Frame.close (hcur : b.current < b.blocks.length) (term : Terminator) :
    Frame b.current (· ∈ term.targets) b cert (b.close term) cert where
  blocksGrow := by simp
  valuesGrow := by simp
  certificateKept _ _ := rfl
  kept blk _ o := by rw [block_close hcur, if_neg o]
  extended := ⟨[], by rw [instructions_close hcur, append_nil], fun _ _ => not_mem_nil⟩
  newEdges blk tgt _ hm := by
    rw [targets_close hcur] at hm
    split at hm
    · exact .inr hm
    · exact .inl hm

theorem Frame.addBlocks (touched : BlockId) (jumps : BlockId → Prop) (vs : ValueId → Prop)
    (n : Nat) :
    Frame touched jumps b cert (b.addBlocks n) (cert.beyond b.blocks.length vs) where
  blocksGrow := by simp
  valuesGrow := le_refl _
  certificateKept blk old := cert.beyond_old vs old
  kept blk _ _ := block_addBlocks n blk
  extended := ⟨[], by rw [instructions, block_addBlocks, append_nil]; rfl, fun _ _ => not_mem_nil⟩
  newEdges blk tgt _ hm := by
    rw [FunctionBuilder.targets, block_addBlocks] at hm
    exact .inl hm

/-- Only the blocks and the values of a builder matter for a frame. -/
theorem Frame.of_blocks (touched : BlockId) (jumps : BlockId → Prop) {o : FunctionBuilder}
    (blocks : o.blocks = b.blocks) (vs : o.values = b.values) :
    Frame touched jumps b cert o cert := by
  have he (blk : BlockId) : o.block blk = b.block blk := by
    rw [FunctionBuilder.block, FunctionBuilder.block, blocks]
  constructor
  case blocksGrow => rw [blocks]
  case valuesGrow => rw [vs]
  case certificateKept => exact fun _ _ => rfl
  case kept => exact fun blk _ _ => he blk
  case extended =>
    refine ⟨[], ?_, fun _ _ => not_mem_nil⟩
    rw [instructions, he, append_nil]
    rfl
  case newEdges =>
    intro blk tgt _ hm
    rw [FunctionBuilder.targets, he] at hm
    exact .inl hm

end Primitives

/-! ## Lowering steps -/

/-- What a computation leaves behind: a certified builder, framed by the current block and the
loop targets it started with. -/
structure Stepped (before : FunctionBuilder) (certificate : Certificate)
    (waiting : BlockId → Prop) (after : FunctionBuilder) (certificate' : Certificate) : Prop where
  certified : Certified after certificate' waiting
  frame : Frame before.current before.LoopTarget before certificate after certificate'
  moved : after.current = before.current ∨ before.blocks.length ≤ after.current
  loops : after.loops = before.loops

/-- A step after which, if a block is open, what was available still is, and so is `provided`. -/
structure Lowered (before : FunctionBuilder) (certificate : Certificate)
    (waiting : BlockId → Prop) (after : FunctionBuilder) (certificate' : Certificate)
    (provided : List ValueId) : Prop
    extends Stepped before certificate waiting after certificate' where
  keeps : after.Pending after.current → ∀ value,
    Available before certificate before.current value →
    Available after certificate' after.current value
  provides : after.Pending after.current → ∀ value ∈ provided,
    Available after certificate' after.current value

def Lowers {α : Type} (given : List ValueId) (computation : BuilderM α)
    (provides : α → List ValueId) : Prop :=
  ∀ before certificate waiting, Certified before certificate waiting →
    before.Pending before.current →
    (∀ value ∈ given, Available before certificate before.current value) →
    ∀ result after, computation before = .ok (result, after) →
      ∃ certificate', Lowered before certificate waiting after certificate' (provides result)

section Lowered

variable {s mid t : FunctionBuilder}
  {cert cert' cert'' : Certificate} {wt : BlockId → Prop}
  {provided others : List ValueId}

theorem Stepped.trans (first : Stepped s cert wt mid cert') (hcur : s.current < s.blocks.length)
    (x2 : Stepped mid cert' wt t cert'') :
    Stepped s cert wt t cert'' where
  certified := x2.certified
  frame := by
    refine first.frame.trans x2.frame hcur first.moved ?_
    rintro tgt ⟨tgts, hm, hh⟩ _
    exact ⟨tgts, first.loops ▸ hm, hh⟩
  moved := by
    obtain he | beyond := x2.moved
    · rw [he]
      exact first.moved
    · exact .inr (le_trans first.frame.blocksGrow beyond)
  loops := x2.loops.trans first.loops

theorem Lowered.trans (first : Lowered s cert wt mid cert' provided)
    (hcur : s.current < s.blocks.length) (pend : mid.Pending mid.current)
    (x2 : Lowered mid cert' wt t cert'' others) :
    Lowered s cert wt t cert'' others where
  toStepped := first.toStepped.trans hcur x2.toStepped
  keeps open_ v hav := x2.keeps open_ v (first.keeps pend v hav)
  provides := x2.provides

/-- Steps that only look at the builder. -/
theorem Lowered.refl (certified : Certified s cert wt) (hav : s.Pending s.current →
      ∀ v ∈ provided, Available s cert s.current v) :
    Lowered s cert wt s cert provided where
  certified := certified
  frame := .refl _ _ _ _
  moved := .inl rfl
  loops := rfl
  keeps _ _ hav := hav
  provides := hav

theorem Lowered.weaken (hlw : Lowered s cert wt t cert' provided)
    (fewer : t.Pending t.current → ∀ v ∈ others, v ∈ provided ∨
      Available s cert s.current v) :
    Lowered s cert wt t cert' others :=
  { hlw with
    provides := fun open_ v hm => by
      obtain hh | hear := fewer open_ v hm
      · exact hlw.provides open_ v hh
      · exact hlw.keeps open_ v hear }

end Lowered

/-! ## Inversion of the builder monad -/

section Inversion

variable {α β : Type} {b t : FunctionBuilder}

theorem bind_ok {first : BuilderM α} {next : α → BuilderM β} {r : β} :
    (first >>= next) b = .ok (r, t) ↔ ∃ v mid, first b = .ok (v, mid) ∧
        next v mid = .ok (r, t) :=
  Lib.run_bind_eq_ok

theorem pure_ok {v r : α} : (pure v : BuilderM α) b = .ok (r, t) ↔ v = r ∧ b = t := by
  constructor
  · intro hret
    cases hret
    exact ⟨rfl, rfl⟩
  · rintro ⟨rfl, rfl⟩
    rfl

theorem orPanic_ok {v : Option α} {r : α} : orPanic v b = .ok (r, t) ↔ v = some r ∧ b = t := by
  cases v with
  | none =>
    constructor
    · intro bad
      cases bad
    · rintro ⟨bad, _⟩
      cases bad
  | some =>
    rw [orPanic, pure_ok, Option.some.injEq]

theorem currentTerminated_ok {r : Bool} : currentTerminated b = .ok (r, t) ↔
      b.terminated b.current = r ∧ b = t :=
  pure_ok

end Inversion

/-! ## Rules -/

section Rules

variable {α β : Type} {given more : List ValueId} {provides : α → List ValueId}
  {provides' : β → List ValueId} {first : BuilderM α} {next : α → BuilderM β}

/-- The computation does not change the builder. -/
def Passive (computation : BuilderM α) : Prop :=
  ∀ builder result after, computation builder = .ok (result, after) → after = builder

/-- The computation does not close the current block. -/
def StaysOpen (computation : BuilderM α) : Prop :=
  ∀ builder result after, builder.current < builder.blocks.length →
    computation builder = .ok (result, after) → builder.Pending builder.current →
    after.current < after.blocks.length ∧ after.Pending after.current

theorem Passive.pure (v : α) : Passive (pure v : BuilderM α) :=
  fun _ _ _ hret => (pure_ok.mp hret).2.symm

theorem Passive.divergedValue : Passive divergedValue := by
  intro b r t hret
  rw [Ocore.divergedValue, bind_ok] at hret
  obtain ⟨_, _, got, hret⟩ := hret
  cases got
  cases n : b.values.length with
  | zero => rw [n] at hret; cases hret
  | succ => rw [n] at hret; cases hret; rfl

theorem Passive.throw (err : LowerError) : Passive (throw err : BuilderM α) :=
  fun _ _ _ bad => nomatch bad

theorem Passive.orPanic (v : Option α) : Passive (orPanic v) :=
  fun _ _ _ hlk => (orPanic_ok.mp hlk).2.symm

theorem Passive.bind (passive : Passive first)
    (hcont : ∀ v, Passive (next v)) : Passive (first >>= next) := by
  intro b r t ran
  obtain ⟨v, mid, ranFirst, ranNext⟩ := bind_ok.mp ran
  cases passive b v mid ranFirst
  exact hcont v b r t ranNext

variable {computation : BuilderM α} {b t : FunctionBuilder}

theorem Passive.staysOpen (passive : Passive computation) : StaysOpen computation := by
  intro b r t hcur ran pend
  cases passive b r t ran
  exact ⟨hcur, pend⟩

theorem StaysOpen.bind (stays : StaysOpen first)
    (hcont : ∀ v, StaysOpen (next v)) : StaysOpen (first >>= next) := by
  intro b r t hcur ran pend
  obtain ⟨v, mid, ranFirst, ranNext⟩ := bind_ok.mp ran
  obtain ⟨middleExists, middlePending⟩ := stays b v mid hcur ranFirst pend
  exact hcont v mid r t middleExists ranNext middlePending

theorem Lowers.pure {v : α} (hav : ∀ one ∈ provides v, one ∈ given) :
    Lowers given (pure v) provides := by
  intro s cert hwt hc _ givens r t hret
  obtain ⟨rfl, rfl⟩ := pure_ok.mp hret
  exact ⟨cert, .refl hc fun _ one hm => givens one (hav one hm)⟩

theorem Lowers.throw (err : LowerError) : Lowers given (throw err : BuilderM α) provides := by
  intro s cert hwt _ _ _ r t bad
  cases bad

theorem Lowers.lookup_bind {v : Option α}
    (hlow : ∀ hf, v = some hf → Lowers given (next hf) provides') :
    Lowers given (orPanic v >>= next) provides' := by
  intro s cert hwt hc pend givens r t ran
  obtain ⟨hf, _, hlk, ran⟩ := bind_ok.mp ran
  obtain ⟨hp, rfl⟩ := orPanic_ok.mp hlk
  exact hlow hf hp s cert hwt hc pend givens r t ran

theorem Lowers.passive_bind (passive : Passive first)
    (hlow : ∀ v, Lowers given (next v) provides') :
    Lowers given (first >>= next) provides' := by
  intro s cert hwt hc pend givens r t ran
  obtain ⟨v, mid, ranFirst, ran⟩ := bind_ok.mp ran
  cases passive s v mid ranFirst
  exact hlow v s cert hwt hc pend givens r t ran

theorem Lowers.orPanic_bind {v : Option α} (hlow : ∀ hf, Lowers given (next hf) provides') :
    Lowers given (orPanic v >>= next) provides' :=
  .passive_bind (.orPanic v) hlow

theorem Lowers.weaken {provides'' : α → List ValueId} (lowers : Lowers given computation provides)
    (hen : ∀ v ∈ given, v ∈ more) (fewer : ∀ r, ∀ v ∈ provides'' r, v ∈ provides r ∨ v ∈ more) :
    Lowers more computation provides'' := by
  intro s cert hwt hc pend givens r t ran
  obtain ⟨cert', hlw⟩ := lowers s cert hwt hc pend (fun v hm => givens v (hen v hm)) r t ran
  refine ⟨cert', hlw.weaken ?_⟩
  intro _ v hm
  exact (fewer r v hm).imp_right (givens v)

/-- Sequencing after a computation that may have closed the current block. -/
theorem Lowers.bind_cases (hlow : Lowers given first provides)
    (hcl : ∀ s r mid, s.current < s.blocks.length →
      s.Pending s.current → first s = .ok (r, mid) →
      ¬ mid.Pending mid.current → ∀ v t,
      next r mid = .ok (v, t) → t = mid)
    (hop : ∀ r s cert hwt, Certified s cert hwt →
      s.Pending s.current →
      (∀ v ∈ given ++ provides r, Available s cert s.current v) →
      ∀ v t, next r s = .ok (v, t) →
        ∃ cert', Lowered s cert hwt t cert' (provides' v)) :
    Lowers given (first >>= next) provides' := by
  intro s cert hwt hc pend givens v t ran
  obtain ⟨r, mid, ranFirst, ranNext⟩ := bind_ok.mp ran
  obtain ⟨cert', hlw⟩ := hlow s cert hwt hc pend givens r mid ranFirst
  by_cases middleOpen : mid.Pending mid.current
  · have hav : ∀ one ∈ given ++ provides r,
        Available mid cert' mid.current one := by
      intro one hm
      obtain hh | new := mem_append.mp hm
      · exact hlw.keeps middleOpen one (givens one hh)
      · exact hlw.provides middleOpen one new
    obtain ⟨cert'', x2⟩ := hop r mid cert' hwt hlw.certified middleOpen hav v t ranNext
    exact ⟨cert'', hlw.trans hc.currentExists middleOpen x2⟩
  · cases hcl s r mid hc.currentExists pend ranFirst middleOpen v t ranNext
    exact ⟨cert', hlw.weaken fun open_ => absurd open_ middleOpen⟩

theorem pending_iff_terminated {b : FunctionBuilder} {blk : BlockId} :
    b.Pending blk ↔ b.terminated blk = false := by
  rw [Pending, terminated, bne_eq_false_iff_eq]

theorem Lowers.unlessDiverged {diverged : α → BuilderM β}
    (hlow : Lowers given first provides) (passive : ∀ r, Passive (diverged r))
    (hcont : ∀ r, Lowers (given ++ provides r) (next r) provides') :
    Lowers given (unlessDiverged first diverged next) provides' := by
  refine hlow.bind_cases ?_ ?_
  · intro _ r mid _ _ _ hcl v t ran
    obtain ⟨_, _, hlk, ran⟩ := bind_ok.mp ran
    obtain ⟨terminated, rfl⟩ := currentTerminated_ok.mp hlk
    rw [pending_iff_terminated, terminated, Bool.not_eq_false] at hcl
    rw [hcl, if_pos rfl] at ran
    exact passive r _ v t ran
  · intro r s cert hwt hc pend hav v t ran
    obtain ⟨_, _, hlk, ran⟩ := bind_ok.mp ran
    obtain ⟨terminated, rfl⟩ := currentTerminated_ok.mp hlk
    rw [pending_iff_terminated.mp pend] at terminated
    rw [← terminated, if_neg Bool.false_ne_true] at ran
    exact hcont r s cert hwt hc pend hav v t ran

theorem Lowers.bind (hlow : Lowers given first provides) (stays : StaysOpen first)
    (hcont : ∀ r, Lowers (given ++ provides r) (next r) provides') :
    Lowers given (first >>= next) provides' := by
  refine hlow.bind_cases ?_ hcont
  intro s r mid hcur pend ran hcl
  exact absurd (stays s r mid hcur ran pend).2 hcl

/-- The result of a computation may be turned into another one. -/
theorem Lowers.map {convert : α → β} (hlow : Lowers given first provides)
    (hav : ∀ r, ∀ v ∈ provides' (convert r), v ∈ given ++ provides r) :
    Lowers given (first >>= fun r => Pure.pure (convert r)) provides' := by
  refine hlow.bind_cases ?_ ?_
  · intro _ r mid _ _ _ _ v t ran
    exact (pure_ok.mp ran).2.symm
  · intro r
    exact Lowers.pure (hav r)

/-! ## Instructions -/

/-- An instruction that the lowering emits outside of `lowerShortCircuit`. -/
def Plain (instruction : Instruction) : Prop :=
  ∀ dst incoming, instruction ≠ .phi dst incoming

theorem Lowered.append {s : FunctionBuilder} {cert : Certificate}
    {wt : BlockId → Prop} (certified : Certified s cert wt)
    {tys : List TypeId} (definesNew : DefinesNew s tys ins) (plain : Plain ins)
    (uses : ∀ v ∈ ins.uses, Available s cert s.current v) :
    Lowered s cert wt (s.append tys ins) cert ins.dst.toList where
  certified := certified.append definesNew uses fun dst inc phi =>
    absurd phi (plain dst inc)
  frame := .append certified.currentExists _ tys plain
  moved := .inl rfl
  loops := rfl
  keeps _ _ hav := available_append certified.currentExists hav
  provides _ _ hm :=
    available_append_dst certified.currentExists (Option.mem_toList.mp hm)

theorem StaysOpen.of_append {tys : FunctionBuilder → List TypeId}
    {ins : FunctionBuilder → Instruction}
    (appends : ∀ {b result t}, computation b = .ok (result, t) →
      t = b.append (tys b) (ins b)) : StaysOpen computation := by
  intro b result t hcur ran pend
  rw [appends ran]
  refine ⟨by simpa using hcur, ?_⟩
  rw [Pending, current_append, terminator_append hcur]
  exact pend

theorem emit_ok {r : Unit} (ran : emit ins b = .ok (r, t)) : t = b.append [] ins := by
  cases ran
  simp [FunctionBuilder.append]

theorem StaysOpen.emit (ins : Instruction) : StaysOpen (emit ins) :=
  StaysOpen.of_append emit_ok

theorem Lowers.emit (noDst : ins.dst = none) (plain : Plain ins)
    (uses : ∀ v ∈ ins.uses, v ∈ given) :
    Lowers given (emit ins) fun _ => [] := by
  intro s cert hwt hc _ givens r t ran
  rw [emit_ok ran]
  refine ⟨cert, (Lowered.append hc ?_ plain ?_).weaken ?_⟩
  · rw [DefinesNew, noDst]
    rfl
  · intro v hm
    exact givens v (uses v hm)
  · intro _ v bad
    cases bad

theorem defineValue_ok {ty : TypeId} {ins : ValueId → Instruction} {r : ValueId}
    (ran : defineValue ty ins b = .ok (r, t)) :
    r = b.values.length ∧ t = b.append [ty] (ins b.values.length) := by
  cases ran
  exact ⟨rfl, rfl⟩

theorem StaysOpen.defineValue (ty : TypeId) (ins : ValueId → Instruction) :
    StaysOpen (defineValue ty ins) :=
  StaysOpen.of_append fun ran => (defineValue_ok ran).2

theorem Lowers.defineValue {ty : TypeId} {ins : ValueId → Instruction}
    (dst : ∀ v, (ins v).dst = some v) (plain : ∀ v, Plain (ins v))
    (uses : ∀ new, ∀ v ∈ (ins new).uses, v ∈ given) :
    Lowers given (defineValue ty ins) fun v => [v] := by
  intro s cert hwt hc _ givens r t ran
  obtain ⟨rfl, rfl⟩ := defineValue_ok ran
  have hdef := dst s.values.length
  refine ⟨cert, (Lowered.append hc ?_ (plain _) ?_).weaken ?_⟩
  · rw [DefinesNew, hdef]
    rfl
  · intro v hm
    exact givens v (uses _ v hm)
  · intro _ v hm
    rw [hdef]
    exact .inl hm

/-! ## Terminators -/

variable {term : Terminator}

theorem terminate_ok {r : Unit} (ran : terminate term b = .ok (r, t)) : t = b.close term := by
  cases ran
  rfl

theorem not_pending_close {b : FunctionBuilder}
    (hcur : b.current < b.blocks.length) (final : term ≠ .pending) :
    ¬ (b.close term).Pending (b.close term).current := by
  rw [Pending, terminator_close hcur, current_close, if_pos rfl]
  exact final

/-- A block may be left to the loop targets, which expect nothing, or for good. -/
theorem Lowered.close {s : FunctionBuilder} {cert : Certificate}
    {hwt : BlockId → Prop} (certified : Certified s cert hwt)
    (pend : s.Pending s.current) (final : term ≠ .pending)
    (tgts : ∀ tgt ∈ term.targets, s.LoopTarget tgt)
    (uses : ∀ v ∈ term.uses, Available s cert s.current v) (provided : List ValueId) :
    Lowered s cert hwt (s.close term) cert provided where
  certified := by
    refine certified.close pend ?_ uses
    intro tgt hm
    obtain ⟨hb, hno, noPhi⟩ := certified.loopTargets tgt (tgts tgt hm)
    exact ⟨hb, noPhi, fun v hent => absurd hent (hno v)⟩
  frame := by
    refine (Frame.refl _ _ _ _).trans (.close certified.currentExists term)
      certified.currentExists (.inl rfl) ?_
    intro tgt hm _
    exact tgts tgt hm
  moved := .inl rfl
  loops := rfl
  keeps open_ := absurd open_ (not_pending_close certified.currentExists final)
  provides open_ := absurd open_ (not_pending_close certified.currentExists final)

theorem Lowers.terminate (final : term ≠ .pending) (leaves : term.targets = [])
    (uses : ∀ v ∈ term.uses, v ∈ given) {provides : Unit → List ValueId} :
    Lowers given (terminate term) provides := by
  intro s cert hwt hc pend givens r t ran
  rw [terminate_ok ran]
  refine ⟨cert, .close hc pend final ?_ ?_ _⟩
  · intro tgt hm
    rw [leaves] at hm
    cases hm
  · intro v hm
    exact givens v (uses v hm)

end Rules

end Ostadix.Ocore
