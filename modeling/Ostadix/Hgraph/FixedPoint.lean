import Ostadix.Hgraph.Rules

/-! # The solver ends in one fixed point

The derived budget pays for every change that a graph admits, so it is never exhausted unless the
ceiling on passes lies below it. What the solver returns is closed under every edge in both phases
and does not depend on the numbers of edges. -/

namespace Ostadix.Hgraph

open Value

variable {Data : Type} [DecidableEq Data] {registry : BackendRegistry} {kinds : Losses}
  {phase : SolvePhase} {e : HEdge} {es : List HEdge} {s0 ns t top : Nodes Data}
  {chg : Bool}

/-! ## Edges as steps -/

theorem propagate_eq_ok : propagate registry phase e ns = .ok (t, chg) ↔
    ∃ updates, updatesOf registry phase ns e = .ok updates ∧
      applyUpdates updates ns = .ok (t, chg) := by
  cases phase with
  | typeAndValue =>
    constructor
    · exact fun hap => ⟨_, rfl, hap⟩
    · rintro ⟨_, ⟨⟩, hap⟩
      exact hap
  | fidelity => exact Lib.bind_eq_ok

section

variable (covers : generated ⊆ kinds)

include covers

theorem propagate_idle_iff (hj : Judged kinds ns) :
    propagate registry phase e ns = .ok (ns, false) ↔
      ∃ updates, updatesOf registry phase ns e = .ok updates ∧
        ∀ tgt ∈ updates, SettledAt ns tgt := by
  rw [propagate_eq_ok]
  constructor
  · rintro ⟨updates, hc, idle⟩
    exact ⟨updates, hc, (applyUpdates_idle_iff hj (updatesOf_sound covers hj hc)).mp idle⟩
  · rintro ⟨updates, hc, hset⟩
    exact ⟨updates, hc, (applyUpdates_idle_iff hj (updatesOf_sound covers hj hc)).mpr hset⟩

theorem propagate_descends (es : List HEdge) :
    Lib.Descends (propagate registry phase) es (Reached kinds phase s0) (rankOf kinds.card) := by
  have ps {e : HEdge} {ns t : Nodes Data} {chg : Bool} (hre : Reached kinds phase s0 ns)
      (hprop : propagate registry phase e ns = .ok (t, chg)) :
      Reached kinds phase s0 t ∧ (chg = false → t = ns) ∧
        (chg = true → rankOf kinds.card t < rankOf kinds.card ns) := by
    obtain ⟨_, hc, hap⟩ := propagate_eq_ok.mp hprop
    have hsd := updatesOf_sound covers hre.judged hc
    exact (updateValueNode_descends hsd).pass_keeps hre hap
  refine ⟨?_, ?_, ?_⟩
  · intro e _ ns t chg hre hprop
    exact (ps hre hprop).1
  · intro e _ ns t hre hprop
    exact (ps hre hprop).2.1 rfl
  · intro e _ ns t hre hprop
    exact (ps hre hprop).2.2 rfl

/-- Below a fixed point, edges succeed and stay below. -/
theorem propagate_bounded (topReached : Reached kinds phase s0 top)
    (hcl : Lib.Closed (propagate registry phase) es top) :
    Lib.Bounded (propagate registry phase) (Reached kinds phase s0) (Pointwise HNode.Below) es
      top := by
  intro e hm ns hre below
  obtain ⟨_, topComputed, hset⟩ := (propagate_idle_iff covers topReached.judged).mp (hcl e hm)
  have sameTypes (isFidelity : phase = .fidelity) : Pointwise HNode.SameTypes ns top :=
    ((hre.types isFidelity).symm (fun hh => hh.symm)).trans
      (fun first next => first.trans next) (topReached.types isFidelity)
  obtain ⟨weak, hc, less⟩ :=
    updatesOf_mono covers hre.judged topReached.judged below sameTypes topComputed
  have hsd := updatesOf_sound covers hre.judged hc
  obtain ⟨t, chg, hap, afterBelow⟩ := (updateValueNode_descends hsd).pass_below
    (updateValueNode_bounded hsd (less.settledAt hset)) hre below
  exact ⟨t, chg, propagate_eq_ok.mpr ⟨weak, hc, hap⟩, afterBelow⟩

/-- Types that are settled stay so in the fidelity phase. -/
theorem closed_types_of_sameTypes (hj : Judged kinds ns) (topJudged : Judged kinds top)
    (he : Pointwise HNode.SameTypes ns top)
    (hcl : Lib.Closed (propagate registry .typeAndValue) es ns) :
    Lib.Closed (propagate registry .typeAndValue) es top := by
  intro e hm
  obtain ⟨_, ⟨⟩, hset⟩ := (propagate_idle_iff covers hj).mp (hcl e hm)
  refine (propagate_idle_iff covers topJudged).mpr ⟨_, rfl, ?_⟩
  have less : AsksLess (typeUpdates top e) (typeUpdates ns e) :=
    typeUpdates_mono ((he.symm (fun hh => hh.symm)).mono fun hh => hh.below)
  apply less.settledAt
  intro tgt hi n hf
  have hh := he.valueNode (fun hh => hh.below.isValue) tgt.1
  rw [hf] at hh
  generalize lower : valueNode ns tgt.1 = o at hh
  cases hh with
  | @some o _ hh =>
    have otherSettled := hset tgt hi o lower
    have sound : tgt.2.Sound kinds .typeAndValue := typeUpdates_sound tgt hi
    cases update : tgt.2 with
    | domain | rep | value =>
      simp only [update, SlotUpdate.Settled, hh.domain, hh.rep, hh.value] at otherSettled ⊢
      exact otherSettled
    | fidelity inc => exact absurd update (typeUpdates_ne_fidelity hi inc)

/-! ## Renumbered edges -/

theorem closed_renumbered (hj : Judged kinds ns) {oths : List HEdge}
    (hrn : ∀ o ∈ oths, ∃ e ∈ es, ∃ id, o = { e with id })
    (hcl : Lib.Closed (propagate registry phase) es ns) :
    Lib.Closed (propagate registry phase) oths ns := by
  intro o hm
  obtain ⟨e, edgeMember, id, rfl⟩ := hrn o hm
  obtain ⟨_, hc, hset⟩ := (propagate_idle_iff covers hj).mp (hcl e edgeMember)
  obtain ⟨weak, weakComputed, less⟩ := updatesOf_renumbered id hc
  exact (propagate_idle_iff covers hj).mpr ⟨weak, weakComputed, less.settledAt hset⟩

/-- The nodes in which edges settle are below all in which they could settle. -/
theorem settle_least (hj : Judged kinds s0) (topReached : Reached kinds phase s0 top)
    (hcl : Lib.Closed (propagate registry phase) es top) {hexh : SolveError Data} {hal left : Nat}
    (hset : Lib.settle hexh (propagate registry phase) es hal s0 = .ok (t, left)) :
    Pointwise HNode.Below t top := by
  obtain hfl | ⟨_, _, again, below⟩ := (propagate_descends covers es).settle_below hexh
    (propagate_bounded covers topReached hcl) (.refl hj phase) topReached.below
  · cases hset.symm.trans hfl
  · cases hset.symm.trans again
    exact below

/-- Two orders of the same edges settle in the same nodes, unless the second is exhausted. -/
theorem settle_renumbered (hj : Judged kinds s0) {oths : List HEdge}
    (hrn : ∀ other ∈ oths, ∃ e ∈ es, ∃ id, other = { e with id })
    (orig : ∀ e ∈ es, ∃ other ∈ oths, ∃ id, e = { other with id })
    {hexh : SolveError Data} {hal left : Nat} (exhausted' : SolveError Data) (allowed' : Nat)
    (hset : Lib.settle hexh (propagate registry phase) es hal s0 = .ok (t, left)) :
    Lib.settle exhausted' (propagate registry phase) oths allowed' s0 = .error exhausted' ∨
      ∃ left', Lib.settle exhausted' (propagate registry phase) oths allowed' s0 =
        .ok (t, left') := by
  have hre := Reached.refl hj phase
  obtain ⟨afterReached, hcl, -⟩ := (propagate_descends covers es).settle_ok hre hset
  have othersClosed := closed_renumbered covers afterReached.judged hrn hcl
  rcases (propagate_descends covers oths).settle_below exhausted'
    (propagate_bounded covers afterReached othersClosed) hre afterReached.below with hfl | ran
  · exact .inl hfl
  · obtain ⟨_, left', settledOthers, resultBelow⟩ := ran
    obtain ⟨resultReached, resultClosed, -⟩ :=
      (propagate_descends covers oths).settle_ok hre settledOthers
    have edgesClosed := closed_renumbered covers resultReached.judged orig resultClosed
    -- Each of the two results is below the other.
    have below := settle_least covers hj resultReached edgesClosed hset
    have heq := resultBelow.antisymm below resultReached.judged afterReached.judged
    exact .inr ⟨left', heq ▸ settledOthers⟩

end

end Ostadix.Hgraph
