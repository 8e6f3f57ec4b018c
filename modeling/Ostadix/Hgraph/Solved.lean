import Ostadix.Hgraph.Preflight
import Ostadix.Hgraph.FixedPoint

/-! # What the solver returns -/

namespace Ostadix.Hgraph

open Value

variable {Data : Type}

/-! ## Errors other than an exhausted budget -/

/-- The computation does not end with an exhausted budget. -/
def Unbudgeted {α : Type} (computed : SolveResult Data α) : Prop :=
  ∀ diagnostics, computed ≠ .error (.budgetExhausted diagnostics)

theorem Unbudgeted.ok {α : Type} (v : α) : Unbudgeted (.ok v : SolveResult Data α) :=
  nofun

theorem Unbudgeted.bind {α β : Type} {first : SolveResult Data α} {next : α → SolveResult Data β}
    (hh : Unbudgeted first) (hl : ∀ v, first = .ok v → Unbudgeted (next v)) :
    Unbudgeted (first >>= next) := by
  intro diagnostics hfl
  cases hc : first with
  | error =>
    rw [hc] at hfl
    cases hfl
    exact hh diagnostics hc
  | ok v =>
    rw [hc] at hfl
    exact hl v hc diagnostics hfl

theorem Unbudgeted.orPanic {α : Type} (v : Option α) :
    Unbudgeted (orPanic v : SolveResult Data α) := by
  cases v <;> nofun

theorem Unbudgeted.foldlM {α β : Type} {xs : List α} {step : β → α → SolveResult Data β}
    (steps : ∀ acc x, Unbudgeted (step acc x)) (acc : β) : Unbudgeted (xs.foldlM step acc) := by
  induction xs generalizing acc with
  | nil => exact .ok acc
  | cons x xs ih =>
    rw [List.foldlM_cons]
    exact (steps acc x).bind fun v _ => ih v

theorem unbudgeted_validateFidelityAssessments (ns : Nodes Data) :
    Unbudgeted (validateFidelityAssessments ns) := by
  unfold validateFidelityAssessments
  induction ns.toList with
  | nil => exact .ok ()
  | cons e es ih =>
    refine .bind ?_ fun _ _ => ih
    simp only [validateAssessment]
    split
    · nofun
    · split
      · nofun
      · split <;> nofun

theorem unbudgeted_recordProducers (e : EdgeId) (ids : List NodeId)
    (prods : List (NodeId × EdgeId)) :
    Unbudgeted (recordProducers e ids prods : SolveResult Data _) := by
  induction ids generalizing prods with
  | nil => exact .ok prods
  | cons id ids ih =>
    rw [recordProducers]
    split
    · exact ih _
    · split
      · rintro _ ⟨⟩
      · exact ih _

theorem unbudgeted_validateDataflowConstraints (ns : Nodes Data) (es : List (EdgeId × HEdge)) :
    Unbudgeted (validateDataflowConstraints ns es) := by
  refine (Unbudgeted.foldlM ?_ []).bind fun _ _ => .ok ()
  rintro prods ⟨_, _⟩
  simp only [validateDataflowEdge]
  split
  · exact .ok prods
  · split
    · rintro _ ⟨⟩
    · split
      · rintro _ ⟨⟩
      · exact unbudgeted_recordProducers _ _ _

variable {graph other : HGraph Data}

/-! ## Other numbers for the edges -/

/-- The same nodes and edges, with other numbers for the edges. -/
def Renumbered (graph other : HGraph Data) : Prop :=
  other.nodes = graph.nodes ∧ ∃ number : EdgeId → EdgeId,
    (∀ first ∈ graph.edges, ∀ next ∈ graph.edges, number first = number next → first = next) ∧
    ∀ id edge, other.edges[id]? = some edge ↔
      ∃ old oldEdge, graph.edges[old]? = some oldEdge ∧ number old = id ∧ edge = { oldEdge with id }

def HGraph.steps (graph : HGraph Data) : List HEdge :=
  graph.edgeList.map (·.2)

theorem mem_edgeList {e : EdgeId × HEdge} : e ∈ graph.edgeList ↔ graph.edges[e.1]? = some e.2 :=
  Std.ExtTreeMap.mem_toList_iff_getElem?_eq_some

theorem mem_steps {e : HEdge} : e ∈ graph.steps ↔ ∃ id : EdgeId, graph.edges[id]? = some e := by
  simp only [HGraph.steps, List.mem_map, Prod.exists, mem_edgeList, exists_eq_right]

theorem Renumbered.steps (hrn : Renumbered graph other) :
    (∀ step ∈ other.steps, ∃ edge ∈ graph.steps, ∃ id, step = { edge with id }) ∧
      ∀ edge ∈ graph.steps, ∃ step ∈ other.steps, ∃ id, edge = { step with id } := by
  obtain ⟨-, num, -, es⟩ := hrn
  constructor
  · intro step hm
    obtain ⟨id, hf⟩ := mem_steps.mp hm
    obtain ⟨old, edge, hp, -, rfl⟩ := (es id step).mp hf
    exact ⟨edge, mem_steps.mpr ⟨old, hp⟩, id, rfl⟩
  · intro edge hm
    obtain ⟨old, hp⟩ := mem_steps.mp hm
    have hf := (es (num old) { edge with id := num old }).mpr ⟨old, edge, hp, rfl, rfl⟩
    exact ⟨_, mem_steps.mpr ⟨_, hf⟩, edge.id, rfl⟩

theorem Renumbered.consistent (hrn : Renumbered graph other)
    (hcon : Consistent graph.nodes graph.edgeList) : Consistent other.nodes other.edgeList := by
  obtain ⟨sameNodes, num, -, es⟩ := hrn
  rw [sameNodes]
  refine ⟨?_, ?_⟩
  · rintro ⟨id, step⟩ hm hisd
    obtain ⟨old, e, hp, -, rfl⟩ := (es id step).mp (mem_edgeList.mp hm)
    obtain ⟨one, someOutput, allValues, hne⟩ := hcon.shaped (old, e) (mem_edgeList.mpr hp) hisd
    exact ⟨one, someOutput, allValues, hne⟩
  · rintro ⟨id, step⟩ hm ⟨id', step'⟩ member' n hi inside'
    obtain ⟨old, e, hp, rfl, rfl⟩ := (es id step).mp (mem_edgeList.mp hm)
    obtain ⟨old', edge', present', rfl, rfl⟩ := (es id' step').mp (mem_edgeList.mp member')
    exact congrArg num (hcon.single (old, e) (mem_edgeList.mpr hp) (old', edge')
      (mem_edgeList.mpr present') n hi inside')

variable [DecidableEq Data] {registry : BackendRegistry} {solved : HGraph Data}

/-! ## Runs -/

/-- The phases of a run that succeeds. -/
structure Run (registry : BackendRegistry) (graph : HGraph Data) (allowed : Nat)
    (exhausted : SolveError Data) (typed judged : Nodes Data) (left : Nat) : Prop where
  assessments : validateFidelityAssessments graph.nodes = .ok ()
  dataflow : validateDataflowConstraints graph.nodes graph.edgeList = .ok ()
  types : Lib.settle exhausted (propagate registry .typeAndValue) graph.steps allowed
    (hydrateFidelityAssessments graph.nodes) = .ok (typed, left)
  fidelity : ∃ rest, Lib.settle exhausted (propagate registry .fidelity) graph.steps left typed =
    .ok (judged, rest)

theorem solveTypesWithLimits_eq_ok {bd cap : Nat} :
    solveTypesWithLimits registry graph bd cap = .ok solved ↔ ∃ typed hj left,
      Run registry graph cap (budgetExhausted bd cap) typed hj left ∧
      solved = { graph with nodes := hj } := by
  unfold solveTypesWithLimits
  constructor
  · intro ran
    obtain ⟨_, assessments, ran⟩ := Lib.bind_eq_ok.mp ran
    obtain ⟨_, dataflow, ran⟩ := Lib.bind_eq_ok.mp ran
    obtain ⟨⟨typed, left⟩, types, ran⟩ := Lib.bind_eq_ok.mp ran
    obtain ⟨⟨hj, tl⟩, fidelity, ⟨⟩⟩ := Lib.bind_eq_ok.mp ran
    exact ⟨typed, hj, left, ⟨assessments, dataflow, types, tl, fidelity⟩, rfl⟩
  · rintro ⟨typed, hj, left, ⟨assessments, dataflow, types, tl, fidelity⟩, rfl⟩
    refine Lib.bind_eq_ok.mpr ⟨(), assessments, Lib.bind_eq_ok.mpr ⟨(), dataflow, ?_⟩⟩
    refine Lib.bind_eq_ok.mpr ⟨(typed, left), types, Lib.bind_eq_ok.mpr ⟨(hj, tl), fidelity, rfl⟩⟩

/-! ## Facts of a run -/

section Facts

variable {cap left : Nat} {err : SolveError Data} {typed jn : Nodes Data}
  (run : Run registry graph cap err typed jn left)

include run

theorem Run.typed_reached : Reached (vocabulary graph.nodes) .typeAndValue
      (hydrateFidelityAssessments graph.nodes) typed ∧
    Lib.Closed (propagate registry .typeAndValue) graph.steps typed := by
  obtain ⟨hre, hcl, -⟩ := (propagate_descends (generated_subset graph.nodes) graph.steps).settle_ok
    (.refl (hydrate_judged run.assessments) .typeAndValue) run.types
  exact ⟨hre, hcl⟩

theorem Run.judged_reached : Reached (vocabulary graph.nodes) .fidelity typed jn ∧
    Lib.Closed (propagate registry .fidelity) graph.steps jn := by
  obtain ⟨_, fidelity⟩ := run.fidelity
  obtain ⟨hre, hcl, -⟩ := (propagate_descends (generated_subset graph.nodes) graph.steps).settle_ok
    (.refl run.typed_reached.1.judged .fidelity) fidelity
  exact ⟨hre, hcl⟩

/-- Neither phase changes the result. -/
theorem Run.closed (ph : SolvePhase) : Lib.Closed (propagate registry ph) graph.steps jn := by
  obtain ⟨typedReached, typedClosed⟩ := run.typed_reached
  obtain ⟨hre, hcl⟩ := run.judged_reached
  cases ph with
  | typeAndValue =>
    exact closed_types_of_sameTypes (generated_subset graph.nodes) typedReached.judged hre.judged
      (hre.types rfl) typedClosed
  | fidelity => exact hcl

theorem Run.below : Pointwise HNode.Below (hydrateFidelityAssessments graph.nodes) jn :=
  run.typed_reached.1.below.trans (fun first next => first.trans next) run.judged_reached.1.below

/-- The result passes the checks on assessments again. -/
theorem Run.assessments_again : validateFidelityAssessments jn = .ok () := by
  rw [validateFidelityAssessments_eq_ok]
  intro id node hp
  cases hiv : node.isValue with
  | true =>
    have hh := run.judged_reached.1.judged id node hp hiv
    refine validateAssessment_eq_ok.mpr fun asmt hf => ⟨(hh.valid asmt hf).1, ?_⟩
    rw [hh.projected, hf]
    rfl
  | false =>
    -- A node that is no value is still the one that was checked.
    have hh := run.below id
    rw [hp, getElem?_hydrate] at hh
    generalize orig : graph.nodes[id]? = hf at hh
    cases hf with
    | none => cases hh
    | some hf =>
      cases hh with
      | some hh =>
        have he := hh.inert hiv
        have noValue : hf.isValue = false := by
          rw [← hydrateNode_isValue, he]
          exact hiv
        rw [← he, hydrateNode, if_neg (by simp [noValue])]
        exact validateFidelityAssessments_eq_ok.mp run.assessments id hf orig

theorem Run.isValueId_eq : isValueId jn = isValueId graph.nodes := by
  funext id
  have hh := run.below.valueNode (fun below => below.isValue) id
  have hydrated : (valueNode (hydrateFidelityAssessments graph.nodes) id).isSome =
      (valueNode graph.nodes id).isSome := by
    unfold valueNode
    rw [getElem?_hydrate]
    cases graph.nodes[id]? with
    | none => rfl
    | some =>
      simp only [Option.map_some, Option.filter, hydrateNode_isValue]
      split <;> rfl
  rw [isValueId, isValueId, ← hydrated]
  generalize valueNode (hydrateFidelityAssessments graph.nodes) id = left, valueNode jn id = right
    at hh
  cases hh <;> rfl

end Facts

/-- Solving the result again needs one pass for each phase and changes nothing. -/
theorem Run.again {hal left : Nat} {hexh : SolveError Data} {typed hj : Nodes Data}
    (run : Run registry graph hal hexh typed hj left) :
    solveTypes registry { graph with nodes := hj } = .ok { graph with nodes := hj } := by
  have atLeast := two_le_budget { graph with nodes := hj }
  obtain ⟨more, hen⟩ : ∃ more,
      min (derivedIterationBudget { graph with nodes := hj }) maxSolvePasses = more + 2 := by
    refine ⟨min (derivedIterationBudget { graph with nodes := hj }) maxSolvePasses - 2, ?_⟩
    unfold maxSolvePasses
    omega
  rw [solveTypes, hen, solveTypesWithLimits_eq_ok]
  refine ⟨hj, hj, more + 1, ⟨run.assessments_again, ?_, ?_, more, ?_⟩, rfl⟩
  · rw [validateDataflowConstraints_eq_ok]
    exact (validateDataflowConstraints_eq_ok.mp run.dataflow).of_isValueId run.isValueId_eq
  · rw [hydrate_of_judged run.judged_reached.1.judged]
    exact (run.closed .typeAndValue).settle _ _
  · exact (run.closed .fidelity).settle _ _

/-! ## The limit on passes -/

theorem unbudgeted_applyUpdate (update : SlotUpdate Data) (id : NodeId) (n : HNode Data) :
    Unbudgeted (applyUpdate update id n) := by
  cases update with
  | domain | rep => exact .ok _
  | value =>
    simp only [applyUpdate, writeValueOnce]
    split
    · rintro _ ⟨⟩
    · split <;> rintro _ ⟨⟩
    · rintro _ ⟨⟩
  | fidelity inc =>
    have merge : Unbudgeted (mergeAssessment n.fidelityAssessment inc : SolveResult Data _) := by
      unfold mergeAssessment
      split
      · exact .orPanic _
      · rintro _ ⟨⟩
    exact merge.bind fun _ _ => (Unbudgeted.orPanic _).bind fun _ _ => .ok _

theorem unbudgeted_propagate (registry : BackendRegistry) (ph : SolvePhase) (e : HEdge)
    (ns : Nodes Data) : Unbudgeted (propagate registry ph e ns) := by
  have hap (updates : List (NodeId × SlotUpdate Data)) : Unbudgeted (applyUpdates updates ns) := by
    intro diagnostics hfl
    obtain ⟨_, -, _, updated⟩ := Lib.pass_eq_error hfl
    revert updated
    unfold updateValueNode
    split
    · nofun
    · exact (unbudgeted_applyUpdate _ _ _).bind (fun _ _ => .ok _) diagnostics
  cases ph with
  | typeAndValue => exact hap _
  | fidelity =>
    refine .bind ?_ fun updates _ => hap updates
    unfold fidelityUpdates
    split
    · refine .bind ?_ fun _ _ => .ok _
      unfold crossingFidelity
      split
      · nofun
      · refine .bind ?_ fun _ _ => .orPanic _
        unfold fidelityAssessmentFor
        split
        · nofun
        · split
          · nofun
          · split
            · nofun
            · split
              · nofun
              · split
                · nofun
                · exact .orPanic _
    · split <;> nofun
    · nofun

/-- The derived budget is enough. -/
theorem unbudgeted_solveTypes (hsm : derivedIterationBudget graph ≤ maxSolvePasses) :
    Unbudgeted (solveTypes registry graph) := by
  have budget := rank_le_budget hsm
  rw [solveTypes, Nat.min_eq_left hsm]
  refine (unbudgeted_validateFidelityAssessments _).bind fun _ assessments => ?_
  refine (unbudgeted_validateDataflowConstraints _ _).bind fun _ _ => ?_
  have st0 := Reached.refl (hydrate_judged assessments) .typeAndValue
  have descends (ph : SolvePhase) (st0 : Nodes Data) :
      Lib.Descends (propagate registry ph) graph.steps
        (Reached (vocabulary graph.nodes) ph st0) (rankOf (vocabulary graph.nodes).card) :=
    propagate_descends (generated_subset graph.nodes) graph.steps
  refine Unbudgeted.bind ?_ fun (typed, left) hset => Unbudgeted.bind ?_ fun _ _ => .ok _
  · intro diagnostics hfl
    obtain ⟨e, -, mid, hprop⟩ := (descends _ _).settle_eq_error st0 (by omega) hfl
    exact unbudgeted_propagate _ _ _ _ diagnostics hprop
  · obtain ⟨hre, -, _⟩ := (descends _ _).settle_ok st0 hset
    intro diagnostics hfl
    obtain ⟨e, -, mid, hprop⟩ := (descends _ _).settle_eq_error
      (.refl hre.judged .fidelity) (by omega) hfl
    exact unbudgeted_propagate _ _ _ _ diagnostics hprop

/-- The phases end in the same nodes, or the limit is reached in one of them. -/
theorem Run.renumbered {hal left : Nat} {hexh : SolveError Data} {typed hj : Nodes Data}
    (run : Run registry graph hal hexh typed hj left) (hrn : Renumbered graph other)
    (hb allowed' : Nat) :
    solveTypesWithLimits registry other hb allowed' = .ok { other with nodes := hj } ∨
      solveTypesWithLimits registry other hb allowed' = .error (budgetExhausted hb allowed') := by
  have covers := generated_subset graph.nodes
  have hcon := validateDataflowConstraints_eq_ok.mp run.dataflow
  have dataflow := validateDataflowConstraints_eq_ok.mpr (hrn.consistent hcon)
  have assessments : validateFidelityAssessments other.nodes = .ok () := hrn.1 ▸ run.assessments
  obtain ⟨steps, orig⟩ := hrn.steps
  obtain ⟨_, fidelity⟩ := run.fidelity
  have types := settle_renumbered covers (hydrate_judged run.assessments) steps orig
    (budgetExhausted hb allowed') allowed' run.types
  rw [← hrn.1] at types
  rcases types with hfl | ⟨left', types⟩
  · right
    simp only [solveTypesWithLimits, assessments, dataflow, Lib.ok_bind]
    exact congrArg (· >>= _) hfl
  · rcases settle_renumbered covers run.typed_reached.1.judged steps orig
      (budgetExhausted hb allowed') left' fidelity with hfl | ⟨rest', hset⟩
    · right
      simp only [solveTypesWithLimits, assessments, dataflow, Lib.ok_bind]
      rw [HGraph.steps] at types hfl
      rw [types, Lib.ok_bind]
      exact congrArg (· >>= _) hfl
    · left
      exact solveTypesWithLimits_eq_ok.mpr
        ⟨typed, hj, left', ⟨assessments, dataflow, types, rest', hset⟩, rfl⟩

/-! ## The solver -/

/-- The derived budget suffices where the ceiling admits it. What the solver returns is a fixed point
of both phases, which solving again confirms, and other numbers of the edges give the same facts
unless they need more passes than the ceiling admits. -/
theorem solveTypes_settles (registry : BackendRegistry) (graph : HGraph Data) :
    (derivedIterationBudget graph ≤ maxSolvePasses → ∀ diagnostics,
      solveTypes registry graph ≠ .error (.budgetExhausted diagnostics)) ∧
    ∀ solved, solveTypes registry graph = .ok solved →
      (∀ phase (id : EdgeId) edge, solved.edges[id]? = some edge →
        propagate registry phase edge solved.nodes = .ok (solved.nodes, false)) ∧
      solveTypes registry solved = .ok solved ∧
      ∀ other, Renumbered graph other →
        (∃ solved', solveTypes registry other = .ok solved' ∧ solved'.nodes = solved.nodes) ∨
        maxSolvePasses < derivedIterationBudget other ∧
          ∃ diagnostics, solveTypes registry other = .error (.budgetExhausted diagnostics) := by
  refine ⟨fun small => unbudgeted_solveTypes small, ?_⟩
  intro solved ran
  obtain ⟨typed, judged, left, run, rfl⟩ := solveTypesWithLimits_eq_ok.mp ran
  refine ⟨?_, run.again, ?_⟩
  · intro phase id edge present
    exact run.closed phase edge (mem_steps.mpr ⟨id, present⟩)
  · intro other renumbered
    rcases run.renumbered renumbered (derivedIterationBudget other)
      (min (derivedIterationBudget other) maxSolvePasses) with same | failed
    · exact .inl ⟨_, same, rfl⟩
    · refine .inr ⟨?_, _, failed⟩
      by_contra small
      exact unbudgeted_solveTypes (Nat.le_of_not_lt small) _ failed

/-- The solver invents nothing. Nodes above the start that no edge changes are above what the first
phase finds, and above all that is found if they have the same types. -/
theorem solveTypes_least (ran : solveTypes registry graph = .ok solved) {top : Nodes Data}
    (judged : Judged (vocabulary graph.nodes) top)
    (above : Pointwise HNode.Below (hydrateFidelityAssessments graph.nodes) top)
    (settled : ∀ phase, Lib.Closed (propagate registry phase) graph.steps top) :
    ∃ typed, Pointwise HNode.SameTypes typed solved.nodes ∧ Pointwise HNode.Below typed top ∧
      (Pointwise HNode.SameTypes typed top → Pointwise HNode.Below solved.nodes top) := by
  obtain ⟨typed, _, _, run, rfl⟩ := solveTypesWithLimits_eq_ok.mp ran
  obtain ⟨_, fidelity⟩ := run.fidelity
  have covers := generated_subset graph.nodes
  have below := settle_least covers (hydrate_judged run.assessments)
    ⟨judged, above, by rintro ⟨⟩⟩ (settled .typeAndValue) run.types
  refine ⟨typed, run.judged_reached.1.types rfl, below, fun same => ?_⟩
  exact settle_least covers run.typed_reached.1.judged ⟨judged, below, fun _ => same⟩
    (settled .fidelity) fidelity

end Ostadix.Hgraph
