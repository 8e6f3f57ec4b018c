import Ostadix.Hgraph.Rules

/-! # Checks before the first pass

What the checks on assessments and on data flow edges establish, without regard to the order in
which they look at nodes and edges, and what the derived budget pays for. -/

namespace Ostadix.Hgraph

open Value List

variable {Data : Type} {ns : Nodes Data}

/-! ## Assessments -/

variable {n : HNode Data} {prods r : List (NodeId × EdgeId)} {entry : EdgeId × HEdge}

theorem validateAssessment_eq_ok {id : NodeId} :
    validateAssessment id n = .ok () ↔ ∀ asmt, n.fidelityAssessment = some asmt →
      asmt.Valid ∧ n.fidelity = some asmt.projection := by
  unfold validateAssessment
  cases n.fidelityAssessment with
  | none => simp
  | some asmt =>
    simp only [Option.some_inj, forall_eq']
    cases hk : asmt.validate with
    | error reason =>
      have hfl : asmt.tryPossibleFidelity = .error reason := by
        unfold FidelityAssessmentV2.tryPossibleFidelity
        rw [hk]
        rfl
      simp [hfl, FidelityAssessmentV2.Valid, hk]
    | ok =>
      have hv : asmt.Valid := hk
      simp only [FidelityAssessmentV2.tryPossibleFidelity_of_valid hv]
      split
      · rename_i hdf
        exact iff_of_false (by simp) fun both => hdf both.2
      · rename_i he
        exact ⟨fun _ => ⟨hv, not_not.mp he⟩, fun _ => rfl⟩

theorem validateFidelityAssessments_eq_ok : validateFidelityAssessments ns = .ok () ↔
    ∀ (id : NodeId) (n : HNode Data), ns[id]? = some n → validateAssessment id n = .ok () := by
  rw [validateFidelityAssessments, Lib.forM_eq_ok]
  constructor
  · intro hk id n hp
    exact hk (id, n) (Std.ExtTreeMap.mem_toList_iff_getElem?_eq_some.mpr hp)
  · intro hk e hm
    exact hk e.1 e.2 (Std.ExtTreeMap.mem_toList_iff_getElem?_eq_some.mp hm)

theorem getElem?_hydrate (id : NodeId) :
    (hydrateFidelityAssessments ns)[id]? = ns[id]?.map hydrateNode :=
  Std.ExtTreeMap.getElem?_map

theorem subset_foldl_union {α : Type} (losses : α → Losses) (xs : List α) (kinds : Losses) :
    kinds ⊆ xs.foldl (fun kinds x => kinds ∪ losses x) kinds ∧
      ∀ x ∈ xs, losses x ⊆ xs.foldl (fun kinds x => kinds ∪ losses x) kinds := by
  induction xs generalizing kinds with
  | nil => exact ⟨Finset.Subset.refl _, nofun⟩
  | cons x xs ih =>
    obtain ⟨hg, covers⟩ := ih (kinds ∪ losses x)
    refine ⟨Finset.subset_union_left.trans hg, forall_mem_cons.mpr ⟨?_, covers⟩⟩
    exact Finset.subset_union_right.trans hg

/-- The losses that the graph names. -/
theorem fidelityKinds_subset {id : NodeId} (hp : ns[id]? = some n) :
    n.fidelityKinds ⊆ existingFidelityKinds ns :=
  (subset_foldl_union (fun e : NodeId × HNode Data => e.2.fidelityKinds) ns.toList ∅).2
    (id, n) (Std.ExtTreeMap.mem_toList_iff_getElem?_eq_some.mpr hp)

/-- The losses that can occur while a graph is solved. -/
def vocabulary (nodes : Nodes Data) : Losses :=
  existingFidelityKinds nodes ∪ generated

theorem generated_subset (ns : Nodes Data) : generated ⊆ vocabulary ns :=
  Finset.subset_union_right

theorem hydrateNode_judged {kinds : Losses} {id : NodeId}
    (hk : validateAssessment id n = .ok ()) (named : n.fidelityKinds ⊆ kinds)
    (hiv : n.isValue = true) : (hydrateNode n).Judged kinds := by
  have hcon := validateAssessment_eq_ok.mp hk
  unfold hydrateNode
  cases asmt : n.fidelityAssessment with
  | none =>
    rw [if_pos ⟨hiv, rfl⟩]
    refine ⟨?_, ?_⟩
    · intro hydrated hf
      obtain ⟨conc, fidelity, rfl⟩ := Option.map_eq_some_iff.mp hf
      refine ⟨(FidelityAssessmentV2.fromConcrete_means conc).1, ?_⟩
      apply FidelityAssessmentV2.fromConcrete_within
      cases conc with
      | structural =>
        rw [HNode.fidelityKinds, fidelity] at named
        exact Finset.subset_union_left.trans named
      | lossless | nativeCapsule | unsupported => trivial
    · cases n.fidelity with
      | none => rfl
      | some conc => exact congrArg some (FidelityAssessmentV2.projection_fromConcrete conc).symm
  | some existing =>
    rw [if_neg (by simp)]
    obtain ⟨hv, projected⟩ := hcon existing asmt
    refine ⟨?_, by rw [projected, asmt]; rfl⟩
    intro o hf
    cases asmt.symm.trans hf
    refine ⟨hv, ?_⟩
    cases existing with
    | structural =>
      rw [HNode.fidelityKinds, asmt] at named
      exact Finset.subset_union_left.trans (Finset.subset_union_right.trans named)
    | lossless | nativeCapsule | unsupported => trivial

theorem hydrateNode_isValue (n : HNode Data) : (hydrateNode n).isValue = n.isValue := by
  unfold hydrateNode
  split <;> rfl

theorem hydrate_judged (hk : validateFidelityAssessments ns = .ok ()) :
    Judged (vocabulary ns) (hydrateFidelityAssessments ns) := by
  intro id n hp hiv
  rw [getElem?_hydrate] at hp
  obtain ⟨orig, hf, rfl⟩ := Option.map_eq_some_iff.mp hp
  rw [hydrateNode_isValue] at hiv
  exact hydrateNode_judged (validateFidelityAssessments_eq_ok.mp hk id orig hf)
    ((fidelityKinds_subset hf).trans Finset.subset_union_left) hiv

/-- Nodes that are judged already are not hydrated. -/
theorem hydrate_of_judged {kinds : Losses} (hj : Judged kinds ns) :
    hydrateFidelityAssessments ns = ns := by
  apply Std.ExtTreeMap.ext_getElem?
  intro id
  rw [getElem?_hydrate]
  cases hp : ns[id]? with
  | none => rfl
  | some n =>
    rw [Option.map_some, hydrateNode]
    split
    · rename_i missing
      have projected := (hj id n hp missing.1).projected
      obtain ⟨_, _, _, _, _, _⟩ := n
      cases missing.2
      cases projected
      rfl
    · rfl

/-! ## The budget -/

theorem vocabulary_card (ns : Nodes Data) :
    (vocabulary ns).card ≤ (existingFidelityKinds ns).card + generatedLosses.length :=
  (Finset.card_union_le _ _).trans (Nat.add_le_add_left (toFinset_card_le _) _)

/-- A height that is not cut off. -/
theorem le_perNodeHeight (hsm : perNodeHeight ns ≤ maxSolvePasses) :
    33 + (2 * (vocabulary ns).card + 3) ≤ perNodeHeight ns := by
  have few := vocabulary_card ns
  have five : generatedLosses.length = 5 := rfl
  simp only [perNodeHeight, saturate, maxSolvePasses, five] at few hsm ⊢
  omega

/-- A budget that is not cut off pays for every change of every node. -/
theorem rank_le_budget {graph : HGraph Data} (hsm : derivedIterationBudget graph ≤ maxSolvePasses) :
    rankOf (vocabulary graph.nodes).card (hydrateFidelityAssessments graph.nodes) + 2 ≤
      derivedIterationBudget graph := by
  have rank := rankOf_le (vocabulary graph.nodes).card (hydrateFidelityAssessments graph.nodes)
  have size : (hydrateFidelityAssessments graph.nodes).size = graph.nodes.size :=
    Std.ExtTreeMap.size_map
  rw [size] at rank
  have product : graph.nodes.size * perNodeHeight graph.nodes + 2 ≤ maxSolvePasses ∧
      graph.nodes.size * perNodeHeight graph.nodes + 2 ≤ derivedIterationBudget graph := by
    simp only [derivedIterationBudget, saturate, maxSolvePasses] at hsm ⊢
    omega
  cases empty : graph.nodes.size with
  | zero =>
    rw [empty] at rank product
    omega
  | succ more =>
    rw [empty] at rank product
    have height : perNodeHeight graph.nodes ≤ maxSolvePasses := by
      have one : 0 < more + 1 := Nat.succ_pos more
      have := Nat.le_mul_of_pos_left (perNodeHeight graph.nodes) one
      omega
    have chgs := Nat.mul_le_mul_left (more + 1) (le_perNodeHeight height)
    omega

/-! ## Data flow edges -/

def isValueId (nodes : Nodes Data) (id : NodeId) : Bool :=
  (valueNode nodes id).isSome

/-- The value nodes that a data flow edge writes. -/
def destinations (nodes : Nodes Data) (edge : HEdge) : List NodeId :=
  if edge.kind = .dataFlow then edge.outputs.filter (isValueId nodes) else []

structure WellShaped (nodes : Nodes Data) (edge : HEdge) : Prop where
  oneInput : (edge.inputs.filter (isValueId nodes)).length = 1
  someOutput : edge.outputs.filter (isValueId nodes) ≠ []
  allValues : edge.ports.filter (fun port => !isValueId nodes port.node) = []
  distinct : (edge.outputs.filter (isValueId nodes)).Nodup

theorem firstDuplicate_eq_none {ids seen : List NodeId} :
    firstDuplicate ids seen = none ↔ ids.Nodup ∧ ∀ id ∈ ids, id ∉ seen := by
  induction ids generalizing seen with
  | nil => simp [firstDuplicate]
  | cons id ids ih =>
    rw [firstDuplicate]
    split
    · rename_i hm
      simp [hm]
    · rename_i fresh
      rw [ih, nodup_cons, forall_mem_cons]
      simp only [mem_cons, not_or]
      constructor
      · rintro ⟨hne, unseen⟩
        refine ⟨⟨fun hm => (unseen id hm).1 rfl, hne⟩, fresh, ?_⟩
        exact fun o hm => (unseen o hm).2
      · rintro ⟨⟨notIn, hne⟩, -, unseen⟩
        refine ⟨hne, fun o hm => ⟨?_, unseen o hm⟩⟩
        rintro rfl
        exact notIn hm

/-- A node is recorded once, or again for the same edge. -/
theorem recordProducers_eq_ok {e : EdgeId} {ids : List NodeId} :
    (recordProducers e ids prods : SolveResult Data _) = .ok r →
      (∀ id ∈ ids, ∀ first, prods.lookup id = some first → first = e) ∧
      ∀ id, r.lookup id = if id ∈ ids then some e else prods.lookup id := by
  intro hr
  induction ids generalizing prods with
  | nil =>
    cases hr
    exact ⟨nofun, fun _ => rfl⟩
  | cons id ids ih =>
    rw [recordProducers] at hr
    have free : ∀ first, prods.lookup id = some first → first = e := by
      intro first hf
      simp only [hf] at hr
      split at hr
      · cases hr
      · exact not_not.mp ‹_›
    have tl : (recordProducers e ids ((id, e) :: prods) : SolveResult Data _) = .ok r := by
      cases hf : prods.lookup id with
      | none => simpa only [hf] using hr
      | some =>
        simp only [hf] at hr
        split at hr
        · cases hr
        · exact hr
    obtain ⟨oths, hlk⟩ := ih tl
    have lookupCons (o : NodeId) : ((id, e) :: prods).lookup o =
        if o = id then some e else prods.lookup o := by
      rw [lookup_cons]
      by_cases he : o = id
      · simp [he]
      · simp [he, beq_eq_false_iff_ne.mpr he]
    refine ⟨forall_mem_cons.mpr ⟨free, ?_⟩, ?_⟩
    · intro o hm first hf
      by_cases he : o = id
      · exact free first (he ▸ hf)
      · exact oths o hm first (by rw [lookupCons, if_neg he]; exact hf)
    · intro o
      rw [hlk, lookupCons]
      by_cases he : o = id
      · simp [he]
      · simp [he]

variable {prods : List (NodeId × EdgeId)} {es : List (EdgeId × HEdge)}

theorem exists_recordProducers {e : EdgeId} {ids : List NodeId}
    (free : ∀ id ∈ ids, ∀ first, prods.lookup id = some first → first = e) :
    ∃ r, (recordProducers e ids prods : SolveResult Data _) = .ok r := by
  induction ids generalizing prods with
  | nil => exact ⟨prods, rfl⟩
  | cons id ids ih =>
    obtain ⟨hh, oths⟩ := forall_mem_cons.mp free
    have hl : ∀ o ∈ ids, ∀ first, ((id, e) :: prods).lookup o = some first → first = e := by
      intro o hm first hf
      rw [lookup_cons] at hf
      split at hf
      · exact (Option.some_inj.mp hf).symm
      · exact oths o hm first hf
    obtain ⟨r, hr⟩ := ih hl
    refine ⟨r, ?_⟩
    rw [recordProducers]
    cases hf : prods.lookup id with
    | none => exact hr
    | some first =>
      simp only [hh first hf, ne_eq, not_true_eq_false, if_false]
      exact hr

theorem validateDataflowEdge_eq {id : EdgeId} {e : HEdge} (hisd : e.kind = .dataFlow)
    (hs : WellShaped ns e) :
    validateDataflowEdge ns id e prods =
      recordProducers id ((destinations ns e).mergeSort (· ≤ ·)) prods := by
  have nonValue := hs.allValues
  have noDuplicate := firstDuplicate_eq_none.mpr ⟨hs.distinct, fun _ _ => not_mem_nil⟩
  have one := hs.oneInput
  have some := hs.someOutput
  unfold isValueId at nonValue noDuplicate one some
  unfold validateDataflowEdge destinations isValueId
  simp only [hisd, ne_eq, not_true_eq_false, if_false, if_true, one, some, nonValue, noDuplicate,
    or_self]

theorem wellShaped_of_validate {id : EdgeId} {e : HEdge} (hisd : e.kind = .dataFlow)
    (hk : validateDataflowEdge ns id e prods = .ok r) : WellShaped ns e := by
  unfold validateDataflowEdge at hk
  simp only [hisd, ne_eq, not_true_eq_false, if_false] at hk
  split at hk
  · cases hk
  · rename_i sh
    simp only [not_or, not_not] at sh
    split at hk
    · cases hk
    · rename_i noDuplicate
      exact ⟨sh.1, sh.2.1, sh.2.2, (firstDuplicate_eq_none.mp noDuplicate).1⟩

/-- The check of data flow edges in any order: their shapes are right and no two of them write the
same node. -/
structure Consistent (nodes : Nodes Data) (edges : List (EdgeId × HEdge)) : Prop where
  shaped : ∀ entry ∈ edges, entry.2.kind = .dataFlow → WellShaped nodes entry.2
  single : ∀ left ∈ edges, ∀ right ∈ edges, ∀ id ∈ destinations nodes left.2,
    id ∈ destinations nodes right.2 → left.1 = right.1

/-- No edge writes a node that is recorded for another edge. -/
def Free (nodes : Nodes Data) (edges : List (EdgeId × HEdge)) (producers : List (NodeId × EdgeId)) :
    Prop :=
  ∀ entry ∈ edges, ∀ id ∈ destinations nodes entry.2, ∀ first, producers.lookup id = some first →
    first = entry.1

theorem validateDataflowEdge_eq_ok : (∃ r, validateDataflowEdge ns entry.1 entry.2 prods = .ok r) ↔
      (entry.2.kind = .dataFlow → WellShaped ns entry.2) ∧ Free ns [entry] prods := by
  have sorted {id : NodeId} {ids : List NodeId} : id ∈ ids.mergeSort (· ≤ ·) ↔ id ∈ ids :=
    mem_mergeSort
  simp only [Free, mem_singleton, forall_eq]
  by_cases hisd : entry.2.kind = .dataFlow
  · constructor
    · rintro ⟨r, hk⟩
      have hs := wellShaped_of_validate hisd hk
      rw [validateDataflowEdge_eq hisd hs] at hk
      refine ⟨fun _ => hs, ?_⟩
      intro id hm first hf
      exact (recordProducers_eq_ok hk).1 id (sorted.mpr hm) first hf
    · rintro ⟨hs, free⟩
      rw [validateDataflowEdge_eq hisd (hs hisd)]
      exact exists_recordProducers fun id hm => free id (sorted.mp hm)
  · simp [validateDataflowEdge, destinations, hisd]

theorem lookup_of_validate
    (hk : validateDataflowEdge ns entry.1 entry.2 prods = .ok r) (id : NodeId) :
    r.lookup id = if id ∈ destinations ns entry.2 then some entry.1 else prods.lookup id := by
  by_cases hisd : entry.2.kind = .dataFlow
  · have hs := wellShaped_of_validate hisd hk
    rw [validateDataflowEdge_eq hisd hs] at hk
    simpa only [mem_mergeSort] using (recordProducers_eq_ok hk).2 id
  · rw [validateDataflowEdge, if_pos hisd] at hk
    cases hk
    simp [destinations, hisd]

theorem Consistent.tail (hcon : Consistent ns (entry :: es)) : Consistent ns es where
  shaped o hm := hcon.shaped o (mem_cons_of_mem _ hm)
  single left leftMember right rightMember := hcon.single left (mem_cons_of_mem _ leftMember)
    right (mem_cons_of_mem _ rightMember)

theorem foldlM_validate_iff : (∃ r, es.foldlM (fun prods (e : EdgeId × HEdge) =>
      validateDataflowEdge ns e.1 e.2 prods) prods = .ok r) ↔
      Consistent ns es ∧ Free ns es prods := by
  induction es generalizing prods with
  | nil => exact ⟨fun _ => ⟨⟨nofun, nofun⟩, nofun⟩, fun _ => ⟨prods, rfl⟩⟩
  | cons e es ih =>
    simp only [foldlM_cons, Lib.bind_eq_ok]
    constructor
    · rintro ⟨r, mid, checked, tl⟩
      obtain ⟨hcon, free⟩ := ih.mp ⟨r, tl⟩
      obtain ⟨hs, hh⟩ := validateDataflowEdge_eq_ok.mp ⟨mid, checked⟩
      have hlk := lookup_of_validate checked
      -- A node that the first edge writes is recorded when the later ones are checked.
      have later : ∀ o ∈ es, ∀ id ∈ destinations ns o.2, id ∈ destinations ns e.2 → e.1 = o.1 := by
        intro o hm id hi inFirst
        exact free o hm id hi e.1 (by rw [hlk, if_pos inFirst])
      refine ⟨⟨forall_mem_cons.mpr ⟨hs, hcon.shaped⟩, ?_⟩, ?_⟩
      · refine forall_mem_cons.mpr ⟨forall_mem_cons.mpr ⟨fun _ _ _ => rfl, ?_⟩, ?_⟩
        · exact fun o hm id inFirst hi => later o hm id hi inFirst
        · intro left leftMember
          refine forall_mem_cons.mpr ⟨?_, hcon.single left leftMember⟩
          exact fun id hi inFirst => (later left leftMember id hi inFirst).symm
      · refine forall_mem_cons.mpr ⟨hh e mem_cons_self, ?_⟩
        intro o hm id hi first hf
        by_cases inFirst : id ∈ destinations ns e.2
        · rw [hh e mem_cons_self id inFirst first hf]
          exact later o hm id hi inFirst
        · exact free o hm id hi first (by rw [hlk, if_neg inFirst]; exact hf)
    · rintro ⟨hcon, free⟩
      obtain ⟨freeHere, freeLater⟩ := forall_mem_cons.mp free
      obtain ⟨mid, checked⟩ := validateDataflowEdge_eq_ok.mpr
        ⟨hcon.shaped e mem_cons_self, forall_mem_singleton.mpr freeHere⟩
      have hlk := lookup_of_validate checked
      have stillFree : Free ns es mid := by
        intro o hm id hi first hf
        rw [hlk] at hf
        split at hf
        · rename_i inFirst
          cases hf
          exact hcon.single e mem_cons_self o (mem_cons_of_mem _ hm) id inFirst hi
        · exact freeLater o hm id hi first hf
      obtain ⟨r, tl⟩ := ih.mpr ⟨hcon.tail, stillFree⟩
      exact ⟨r, mid, checked, tl⟩

theorem validateDataflowConstraints_eq_ok :
    validateDataflowConstraints ns es = .ok () ↔ Consistent ns es := by
  have hno : Free ns es [] := fun _ _ _ _ _ hf => nomatch hf
  have folded : _ ↔ Consistent ns es ∧ Free ns es [] := foldlM_validate_iff
  rw [validateDataflowConstraints, Lib.bind_eq_ok]
  constructor
  · rintro ⟨r, hk, -⟩
    exact (folded.mp ⟨r, hk⟩).1
  · intro hcon
    obtain ⟨r, hk⟩ := folded.mpr ⟨hcon, hno⟩
    exact ⟨r, hk, rfl⟩

/-- The check of data flow edges reads the nodes for which of them are values. -/
theorem Consistent.of_isValueId {ns oths : Nodes Data}
    (he : isValueId oths = isValueId ns) (hcon : Consistent ns es) :
    Consistent oths es := by
  have shs (e : HEdge) (hs : WellShaped ns e) : WellShaped oths e := by
    obtain ⟨oneInput, someOutput, allValues, hne⟩ := hs
    exact ⟨he ▸ oneInput, he ▸ someOutput, he ▸ allValues, he ▸ hne⟩
  refine ⟨fun ent hm hisd => shs _ (hcon.shaped ent hm hisd), ?_⟩
  have destinationsSame (e : HEdge) : destinations oths e = destinations ns e := by
    rw [destinations, destinations, he]
  simp only [destinationsSame]
  exact hcon.single

theorem two_le_budget (graph : HGraph Data) : 2 ≤ derivedIterationBudget graph := by
  unfold derivedIterationBudget saturate
  omega

end Ostadix.Hgraph
