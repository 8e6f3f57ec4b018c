import Ostadix.Hgraph.Passes

/-! # What edges ask for

The judgments that the rules synthesize are valid and draw on a closed vocabulary, and the updates
of an edge are monotone: with more facts an edge asks for at least as much. -/

namespace Ostadix.Value

variable {asmt : FidelityAssessmentV2}

/-- All losses of the judgment are of a vocabulary. -/
def Fidelity.Within (kinds : Losses) : Fidelity → Prop
  | structural lost => lost.losses ⊆ kinds
  | lossless | nativeCapsule | unsupported => True

variable {kinds : Losses}

theorem Fidelity.within_ofLosses {lost : Losses} (hi : lost ⊆ kinds) :
    (Fidelity.ofLosses lost).Within kinds := by
  unfold ofLosses FidelityLossSet.new
  by_cases hnil : lost.Nonempty
  · rw [dif_pos hnil]
    exact hi
  · simp [hnil, Within]

theorem Fidelity.within_compose {first next : Fidelity} (firstWithin : first.Within kinds)
    (nextWithin : next.Within kinds) : (first.compose next).Within kinds := by
  cases first with
  | lossless => cases next <;> assumption
  | structural =>
    cases next with
    | structural => exact within_ofLosses (Finset.union_subset firstWithin nextWithin)
    | lossless | nativeCapsule | unsupported => assumption
  | nativeCapsule | unsupported => cases next <;> trivial

theorem FidelityAssessmentV2.fromConcrete_within {conc : Fidelity}
    (hw : conc.Within kinds) : (fromConcrete conc).Within kinds := by
  cases conc <;> exact hw

theorem FidelityAssessmentV2.ofBounds_sound {dft pos' : Losses}
    (hc : ofBounds dft pos' = .ok asmt) (hi : pos' ⊆ kinds) :
    asmt.Valid ∧ asmt.Within kinds := by
  unfold ofBounds at hc
  split at hc
  · rename_i subset
    by_cases hnil : pos'.Nonempty
    · simp only [FidelityLossSet.new, dif_pos hnil] at hc
      cases hc
      refine ⟨valid_structural.mpr ?_, hi⟩
      have he := optionalLosses_new dft
      rw [FidelityLossSet.new] at he
      rw [he]
      exact subset
    · simp only [FidelityLossSet.new, dif_neg hnil] at hc
      cases hc
      exact ⟨rfl, trivial⟩
  · cases hc

end Ostadix.Value

namespace Ostadix.Hgraph

open Value List

variable {Data : Type} {asmt : FidelityAssessmentV2} {kinds : Losses}

/-! ## The vocabulary -/

abbrev generated : Losses := generatedLosses.toFinset

theorem numericFidelity_within (exceeds : Option Bool) (richNumbers : RichNumberPreservation) :
    (numericFidelity exceeds richNumbers).Within generated := by
  cases exceeds with
  | none => trivial
  | some exceeds =>
    cases richNumbers with
    | unknown => trivial
    | preserved | collapsed =>
      apply Fidelity.within_ofLosses
      cases exceeds <;> decide

section Values

variable (capabilities : BackendValueCapabilities)

theorem fidelityForNumber_within (num : ONumber Data) :
    (fidelityForNumber num capabilities).Within generated := by
  cases num with
  | int => exact numericFidelity_within _ _
  | rich => exact numericFidelity_within (some false) _

mutual

theorem fidelityForValue_within (val : OValue Data) :
    (fidelityForValueWithCapabilities capabilities val).Within generated := by
  cases val with
  | number v => exact fidelityForNumber_within capabilities v
  | list v | seq _ v | set _ v | group _ v => exact foldItems_within .lossless trivial v
  | map v | object v => exact foldFields_within .lossless trivial v
  | entriesMap es => exact foldEntries_within .lossless trivial es
  | graph =>
    show (Fidelity.ofLosses {.identity}).Within generated
    exact Fidelity.within_ofLosses (by decide)
  | capability =>
    show (Fidelity.ofLosses {.capability}).Within generated
    exact Fidelity.within_ofLosses (by decide)
  | native | other => trivial

theorem foldItems_within (acc : Fidelity) (hw : acc.Within generated) (xs : OValues Data) :
    (foldItems capabilities acc xs).Within generated := by
  cases xs with
  | nil => exact hw
  | cons x tl =>
    exact foldItems_within _ (Fidelity.within_compose hw (fidelityForValue_within x)) tl

theorem foldFields_within (acc : Fidelity) (hw : acc.Within generated) (xs : OFields Data) :
    (foldFields capabilities acc xs).Within generated := by
  cases xs with
  | nil => exact hw
  | cons name x tl =>
    exact foldFields_within _ (Fidelity.within_compose hw (fidelityForValue_within x)) tl

theorem foldEntries_within (acc : Fidelity) (hw : acc.Within generated)
    (xs : OEntries Data) : (foldEntries capabilities acc xs).Within generated := by
  cases xs with
  | nil => exact hw
  | cons k v tl =>
    have withKey := Fidelity.within_compose hw (fidelityForValue_within k)
    exact foldEntries_within _ (Fidelity.within_compose withKey (fidelityForValue_within v)) tl

end

theorem fidelityForAbstract_within (domain : DomainFlags) (rep : RepFlags) :
    (fidelityForAbstract domain rep capabilities).Within generated := by
  have branch {cond : Prop} [Decidable cond] {first next : Fidelity}
      (left : first.Within generated) (right : next.Within generated) :
      (if cond then first else next).Within generated := by
    split <;> assumption
  have num := numericFidelity_within
  exact branch trivial (branch (branch trivial (num _ _)) (branch trivial trivial))

theorem fidelityAssessmentForAbstract_sound {domain : DomainFlags} {rep : RepFlags}
    (hc : fidelityAssessmentForAbstract domain rep capabilities = some asmt) :
    asmt.Valid ∧ asmt.Within generated := by
  have hw := fidelityForAbstract_within capabilities domain rep
  unfold fidelityAssessmentForAbstract at hc
  split at hc
  · rename_i lost hf
    rw [hf] at hw
    generalize bnds : FidelityAssessmentV2.ofBounds _ _ = hk at hc
    cases hk with
    | error => cases hc
    | ok =>
      cases hc
      exact FidelityAssessmentV2.ofBounds_sound bnds hw
  · cases hc
    exact ⟨(FidelityAssessmentV2.fromConcrete_means _).1, FidelityAssessmentV2.fromConcrete_within hw⟩

end Values

/-! ## Updates of an edge -/

section Edges

variable {registry : BackendRegistry} {kinds : Losses} {phase : SolvePhase} {e : HEdge}
  {s0 ns t top : Nodes Data} {updates : List (NodeId × SlotUpdate Data)}

def updatesOf (registry : BackendRegistry) (phase : SolvePhase) (nodes : Nodes Data) (edge : HEdge) :
    SolveResult Data (List (NodeId × SlotUpdate Data)) :=
  match phase with
  | .typeAndValue => .ok (typeUpdates nodes edge)
  | .fidelity => fidelityUpdates registry nodes edge

variable {fromLang toLang : String} {target : NodeId × SlotUpdate Data}

theorem mem_toNodes {ids : List NodeId} {update : SlotUpdate Data} :
    target ∈ toNodes ids update ↔ target.1 ∈ ids ∧ target.2 = update := by
  obtain ⟨id, _⟩ := target
  simp only [toNodes, mem_map, Prod.mk.injEq]
  constructor
  · rintro ⟨_, hm, rfl, rfl⟩
    exact ⟨hm, rfl⟩
  · rintro ⟨hm, rfl⟩
    exact ⟨id, hm, rfl, rfl⟩

/-- Type rules only touch types and values. -/
theorem typeUpdates_ne_fidelity (hm : target ∈ typeUpdates ns e)
    (inc : FidelityAssessmentV2) : target.2 ≠ .fidelity inc := by
  intro he
  unfold typeUpdates at hm
  cases kind : e.kind with
  | additive | multiplicative | bitwise | fieldAccess | dereferenceable =>
    simp only [kind] at hm
    cases he.symm.trans (mem_toNodes.mp hm).2
  | ordered | bounded =>
    simp only [kind, mem_append] at hm
    rcases hm with (hm | hm) | hm
    · cases he.symm.trans (mem_toNodes.mp hm).2
    · cases he.symm.trans (mem_toNodes.mp hm).2
    · cases he.symm.trans (mem_toNodes.mp hm).2
  | abiFixed =>
    simp only [kind, mem_flatMap, mem_cons, not_mem_nil, or_false] at hm
    obtain ⟨_, -, rfl | rfl⟩ := hm <;> cases he
  | dataFlow =>
    simp only [kind, propagateDataflowTypeValue] at hm
    split at hm
    · cases hm
    · simp only [mem_flatMap, mem_cons, not_mem_nil, or_false] at hm
      obtain ⟨_, -, rfl | rfl | rfl⟩ := hm <;> cases he
  | backendCrossing | other =>
    simp only [kind] at hm
    cases hm

theorem typeUpdates_sound : ∀ tgt ∈ typeUpdates ns e, tgt.2.Sound kinds .typeAndValue := by
  intro tgt hm
  cases update : tgt.2 with
  | fidelity inc => exact absurd update (typeUpdates_ne_fidelity hm inc)
  | domain | rep | value => rfl

theorem judged_head (hj : Judged kinds ns) {inp : HNode Data}
    (head : (inputValueNodes ns e).head? = some inp) : inp.Judged kinds := by
  obtain ⟨id, -, hf⟩ := mem_filterMap.mp (mem_of_head? head)
  obtain ⟨hp, hiv⟩ := valueNode_eq_some.mp hf
  exact hj id inp hp hiv

theorem orPanic_eq_ok {α : Type} {v : Option α} {r : α}
    (hc : (orPanic v : SolveResult Data α) = .ok r) : v = some r := by
  cases v with
  | none => cases hc
  | some =>
    cases hc
    rfl

theorem fidelityAssessmentFor_sound {n : HNode Data}
    (hc : fidelityAssessmentFor registry n fromLang toLang = .ok asmt) :
    asmt.Valid ∧ asmt.Within generated := by
  unfold fidelityAssessmentFor at hc
  split at hc
  · cases hc
    exact ⟨rfl, trivial⟩
  · split at hc
    · cases hc
      exact ⟨rfl, trivial⟩
    · split at hc
      · cases hc
        exact ⟨rfl, trivial⟩
      · split at hc
        · cases hc
          exact ⟨rfl, trivial⟩
        · split at hc
          · cases hc
            exact ⟨(FidelityAssessmentV2.fromConcrete_means _).1,
              FidelityAssessmentV2.fromConcrete_within (fidelityForValue_within _ _)⟩
          · exact fidelityAssessmentForAbstract_sound _ (orPanic_eq_ok hc)

theorem generated_within (covers : generated ⊆ kinds) (hw : asmt.Within generated) :
    asmt.Within kinds := by
  cases asmt with
  | structural => exact .trans hw covers
  | lossless | nativeCapsule | unsupported => trivial

/-- The path up to a crossing, as an assessment. -/
theorem path_sound {n : HNode Data} (hj : n.Judged kinds) :
    (n.fidelityAssessment.getD .lossless).Valid ∧
      (n.fidelityAssessment.getD .lossless).Within kinds := by
  cases asmt : n.fidelityAssessment with
  | none => exact ⟨rfl, trivial⟩
  | some assessment' => exact hj.valid assessment' asmt

theorem crossingFidelity_ok (covers : generated ⊆ kinds) {inp : HNode Data}
    (hj : inp.Judged kinds) (head : (inputValueNodes ns e).head? = some inp)
    {crossing : FidelityAssessmentV2}
    (hc : fidelityAssessmentFor registry inp fromLang toLang = .ok crossing) :
    ∃ path : FidelityAssessmentV2, crossingFidelity registry ns e fromLang toLang = .ok path ∧
      path.Valid ∧ path.Within kinds ∧
      path.severity = (inp.fidelityAssessment.getD .lossless).severity ⊔ crossing.severity := by
  obtain ⟨hv, hw⟩ := fidelityAssessmentFor_sound hc
  obtain ⟨pathValid, pathWithin⟩ := path_sound hj
  obtain ⟨path, composed, resultValid, sev⟩ := FidelityAssessmentV2.andThen_severity pathValid hv
  refine ⟨path, ?_, resultValid, ?_, sev⟩
  · simp only [crossingFidelity, head, hc, Lib.ok_bind, composed, orPanic]
  · rw [within_iff, sev]
    exact (possibleLosses_sup _ _).trans (Finset.union_subset (within_iff.mp pathWithin)
      (within_iff.mp (generated_within covers hw)))

theorem dataflowFidelity_eq (hj : Judged kinds ns) :
    dataflowFidelity ns e = (inputValueNodes ns e).head?.bind (·.fidelityAssessment) := by
  unfold dataflowFidelity
  cases head : (inputValueNodes ns e).head? with
  | none => rfl
  | some inp =>
    have projected := (judged_head hj head).projected
    show (inp.fidelityAssessment <|> inp.fidelity.map .fromConcrete) = inp.fidelityAssessment
    rw [projected]
    cases inp.fidelityAssessment <;> rfl

theorem fidelityUpdates_sound (covers : generated ⊆ kinds) (hj : Judged kinds ns)
    (hc : fidelityUpdates registry ns e = .ok updates) :
    ∀ tgt ∈ updates, tgt.2.Sound kinds .fidelity := by
  unfold fidelityUpdates at hc
  split at hc
  · rename_i fromLang toLang _
    obtain ⟨_, crossed, ⟨⟩⟩ := Lib.bind_eq_ok.mp hc
    intro tgt hm
    rw [(mem_toNodes.mp hm).2]
    cases head : (inputValueNodes ns e).head? with
    | none =>
      simp only [crossingFidelity, head] at crossed
      cases crossed
      exact ⟨rfl, trivial⟩
    | some =>
      have whole := crossed
      simp only [crossingFidelity, head] at crossed
      obtain ⟨_, assessed, -⟩ := Lib.bind_eq_ok.mp crossed
      obtain ⟨_, sameCrossing, hv, hw, -⟩ :=
        crossingFidelity_ok covers (judged_head hj head) head assessed
      cases whole.symm.trans sameCrossing
      exact ⟨hv, hw⟩
  · split at hc
    · cases hc
      nofun
    · rename_i inc hf
      cases hc
      intro tgt hm
      rw [(mem_toNodes.mp hm).2]
      rw [dataflowFidelity_eq hj] at hf
      obtain ⟨_, head, asmt⟩ := Option.bind_eq_some_iff.mp hf
      exact (judged_head hj head).valid inc asmt
  · cases hc
    nofun

theorem updatesOf_sound (covers : generated ⊆ kinds) (hj : Judged kinds ns)
    (hc : updatesOf registry phase ns e = .ok updates) :
    ∀ tgt ∈ updates, tgt.2.Sound kinds phase := by
  cases phase with
  | typeAndValue =>
    cases hc
    exact typeUpdates_sound
  | fidelity => exact fidelityUpdates_sound covers hj hc

/-! ## Monotonicity -/

/-- Where the second updates are settled, the first are. -/
def AsksLess (weak strong : List (NodeId × SlotUpdate Data)) : Prop :=
  ∀ target ∈ weak, ∃ other ∈ strong, other.1 = target.1 ∧
    ∀ node, other.2.Settled node → target.2.Settled node

theorem AsksLess.refl (updates : List (NodeId × SlotUpdate Data)) : AsksLess updates updates :=
  fun tgt hm => ⟨tgt, hm, rfl, fun _ => id⟩

theorem AsksLess.settledAt {weak strong : List (NodeId × SlotUpdate Data)}
    (less : AsksLess weak strong) (hset : ∀ tgt ∈ strong, SettledAt ns tgt) :
    ∀ tgt ∈ weak, SettledAt ns tgt := by
  intro tgt hm n hf
  obtain ⟨o, otherMember, he, himp⟩ := less tgt hm
  exact himp n (hset o otherMember n (he ▸ hf))

theorem asksLess_toNodes {ids : List NodeId} {weak strong : SlotUpdate Data}
    (himp : ∀ n, strong.Settled n → weak.Settled n) :
    AsksLess (toNodes ids weak) (toNodes ids strong) := by
  intro tgt hm
  obtain ⟨hi, he⟩ := mem_toNodes.mp hm
  refine ⟨(tgt.1, strong), mem_toNodes.mpr ⟨hi, rfl⟩, rfl, ?_⟩
  rw [he]
  exact himp

section Related

variable {rel : HNode Data → HNode Data → Prop}
  (sameKind : ∀ {left right}, rel left right → left.isValue = right.isValue)
  (pointwise : Pointwise rel ns top)

include sameKind pointwise

theorem forall₂_filterMap {α : Type} (num : α → NodeId) (xs : List α) :
    List.Forall₂ rel (xs.filterMap fun x => valueNode ns (num x))
      (xs.filterMap fun x => valueNode top (num x)) := by
  induction xs with
  | nil => exact .nil
  | cons x xs ih =>
    have hh := pointwise.valueNode sameKind (num x)
    simp only [filterMap_cons]
    generalize valueNode ns (num x) = left, valueNode top (num x) = right at hh
    cases hh with
    | none => exact ih
    | some hh => exact .cons hh ih

theorem related_head :
    Option.Rel rel (inputValueNodes ns e).head? (inputValueNodes top e).head? := by
  have inps := forall₂_filterMap sameKind pointwise id e.inputs
  simp only [id] at inps
  unfold inputValueNodes
  generalize e.inputs.filterMap (valueNode ns) = left at inps ⊢
  generalize e.inputs.filterMap (valueNode top) = right at inps ⊢
  cases inps with
  | nil => exact .none
  | cons hh => exact .some hh

end Related

section

variable (below : Pointwise HNode.TypesBelow ns top)

include below

theorem numericIntersection_mono :
    bits (numericIntersection top e) ⊆ bits (numericIntersection ns e) := by
  have ports := forall₂_filterMap (fun hh => hh.isValue) below Port.node e.ports
  unfold numericIntersection
  generalize DomainFlags.numeric = mask
  have folded {acc o : DomainFlags} (le : bits o ⊆ bits acc) {left right : List (HNode Data)}
      (hrel : List.Forall₂ HNode.TypesBelow left right) :
      bits (right.foldl (fun acc n => acc &&& n.domain &&& mask) o) ⊆
        bits (left.foldl (fun acc n => acc &&& n.domain &&& mask) acc) := by
    induction hrel generalizing acc o with
    | nil => exact le
    | cons hh _ ih =>
      apply ih
      simp only [bits_and]
      exact Finset.inter_subset_inter_right (Finset.inter_subset_inter le hh.domain)
  exact folded (Finset.Subset.refl _) ports

theorem propagateDataflow_mono :
    AsksLess (propagateDataflowTypeValue ns e) (propagateDataflowTypeValue top e) := by
  have heads : Option.Rel HNode.TypesBelow (inputValueNodes ns e).head?
      (inputValueNodes top e).head? := related_head (fun hh => hh.isValue) below
  unfold propagateDataflowTypeValue
  generalize (inputValueNodes ns e).head? = left, (inputValueNodes top e).head? = right at heads
  cases heads with
  | none => exact .refl _
  | @some inp upper hh =>
    intro tgt hm
    simp only [mem_flatMap, mem_cons, not_mem_nil, or_false] at hm ⊢
    obtain ⟨id, out, rfl | rfl | rfl⟩ := hm
    · exact ⟨_, ⟨id, out, .inl rfl⟩, rfl, fun n hset => hset.trans hh.domain⟩
    · exact ⟨_, ⟨id, out, .inr (.inl rfl)⟩, rfl, fun n hset => hset.trans hh.rep⟩
    · refine ⟨_, ⟨id, out, .inr (.inr rfl)⟩, rfl, ?_⟩
      intro n hset
      rcases hh.value with missing | he
      · exact .inl missing
      · show inp.value = none ∨ inp.value = n.value
        rw [he]
        exact hset

theorem typeUpdates_mono : AsksLess (typeUpdates ns e) (typeUpdates top e) := by
  unfold typeUpdates
  cases e.kind with
  | additive | multiplicative =>
    exact asksLess_toNodes fun n hset => hset.trans (numericIntersection_mono below)
  | dataFlow => exact propagateDataflow_mono below
  -- The other rules do not read the nodes.
  | bitwise | ordered | bounded | abiFixed | fieldAccess | dereferenceable | backendCrossing | other =>
    exact .refl _

end

variable {strong : List (NodeId × SlotUpdate Data)}

/-- The number of an edge only shows in errors. -/
theorem updatesOf_renumbered (id : EdgeId) (hc : updatesOf registry phase ns e = .ok strong) :
    ∃ weak, updatesOf registry phase ns { e with id } = .ok weak ∧ AsksLess weak strong := by
  cases phase with
  | fidelity => exact ⟨strong, hc, .refl strong⟩
  | typeAndValue =>
    cases hc
    refine ⟨_, rfl, ?_⟩
    obtain ⟨num, kind, ports⟩ := e
    cases kind with
    | bounded v =>
      intro tgt hm
      simp only [typeUpdates, mem_append] at hm ⊢
      rcases hm with (hm | hm) | hm
      · exact ⟨tgt, .inl (.inl hm), rfl, fun _ hset => hset⟩
      · exact ⟨tgt, .inl (.inr hm), rfl, fun _ hset => hset⟩
      · obtain ⟨hi, he⟩ := mem_toNodes.mp hm
        refine ⟨(tgt.1, .value num (some (.bigInt v))), .inr (mem_toNodes.mpr ⟨hi, rfl⟩), rfl, ?_⟩
        rw [he]
        exact fun _ hset => hset
    | dataFlow =>
      intro tgt hm
      simp only [typeUpdates, propagateDataflowTypeValue] at hm ⊢
      have head : (inputValueNodes ns ⟨id, .dataFlow, ports⟩).head? =
        (inputValueNodes ns ⟨num, .dataFlow, ports⟩).head? := rfl
      rw [head] at hm
      cases hf : (inputValueNodes ns ⟨num, .dataFlow, ports⟩).head? with
      | none =>
        rw [hf] at hm
        cases hm
      | some =>
        simp only [hf, mem_flatMap, mem_cons, not_mem_nil, or_false] at hm ⊢
        obtain ⟨out, hi, rfl | rfl | rfl⟩ := hm
        · exact ⟨_, ⟨out, hi, .inl rfl⟩, rfl, fun _ hset => hset⟩
        · exact ⟨_, ⟨out, hi, .inr (.inl rfl)⟩, rfl, fun _ hset => hset⟩
        · exact ⟨_, ⟨out, hi, .inr (.inr rfl)⟩, rfl, fun _ hset => hset⟩
    | additive | multiplicative | bitwise | ordered | abiFixed | fieldAccess | dereferenceable
    | backendCrossing | other => exact .refl _

theorem fidelityAssessmentFor_congr {inp upper : HNode Data} (he : inp.SameTypes upper)
    (fromLang toLang : String) : (fidelityAssessmentFor registry inp fromLang toLang) =
      fidelityAssessmentFor registry upper fromLang toLang := by
  unfold fidelityAssessmentFor HNode.isValue
  rw [he.kind, he.value, he.domain, he.rep]

theorem lossless_severity_le (asmt : FidelityAssessmentV2) :
    FidelityAssessmentV2.lossless.severity ≤ asmt.severity := by
  cases asmt with
  | lossless => exact le_refl _
  | structural =>
    exact lossSeverity_le.mpr ⟨Finset.empty_subset _, Finset.empty_subset _⟩
  | nativeCapsule => exact lossSeverity_le_native _ _
  | unsupported => exact le_top

/-- The path up to a crossing gets more severe with the input. -/
theorem path_severity_mono {inp upper : HNode Data} (below : inp.Below upper) :
    (inp.fidelityAssessment.getD .lossless).severity ≤
      (upper.fidelityAssessment.getD .lossless).severity := by
  have le := below.assessment
  cases asmt : inp.fidelityAssessment with
  | none => exact lossless_severity_le _
  | some =>
    rw [asmt] at le
    cases upperAssessment : upper.fidelityAssessment with
    | none =>
      rw [upperAssessment] at le
      exact absurd le (WithBot.not_coe_le_bot _)
    | some =>
      rw [upperAssessment] at le
      exact WithBot.coe_le_coe.mp le

variable (covers : generated ⊆ kinds) (hj : Judged kinds ns) (topJudged : Judged kinds top)
  (below : Pointwise HNode.Below ns top)

include hj topJudged below

theorem dataflowFidelity_mono (hisd : e.kind = .dataFlow)
    (hc : fidelityUpdates registry top e = .ok strong) :
    ∃ weak, fidelityUpdates registry ns e = .ok weak ∧ AsksLess weak strong := by
  have heads : Option.Rel HNode.Below (inputValueNodes ns e).head? (inputValueNodes top e).head? :=
    related_head (fun hh => hh.isValue) below
  simp only [fidelityUpdates, hisd, dataflowFidelity_eq hj, dataflowFidelity_eq topJudged] at hc ⊢
  generalize (inputValueNodes ns e).head? = left, (inputValueNodes top e).head? = right at heads hc
  cases heads with
  | none => exact ⟨[], rfl, nofun⟩
  | @some inp upper hh =>
    have le := hh.assessment
    simp only [Option.bind_some] at hc ⊢
    cases asmt : inp.fidelityAssessment with
    | none => exact ⟨[], rfl, nofun⟩
    | some =>
      cases upperAssessment : upper.fidelityAssessment with
      | none =>
        rw [asmt, upperAssessment] at le
        exact absurd le (WithBot.not_coe_le_bot _)
      | some =>
        rw [asmt, upperAssessment] at le
        simp only [upperAssessment] at hc
        cases hc
        exact ⟨_, rfl, asksLess_toNodes fun n hset => le.trans hset⟩

include covers

theorem crossingFidelity_mono (sameTypes : Pointwise HNode.SameTypes ns top)
    {strong : FidelityAssessmentV2}
    (hc : crossingFidelity registry top e fromLang toLang = .ok strong) :
    ∃ weak : FidelityAssessmentV2, crossingFidelity registry ns e fromLang toLang = .ok weak ∧
      weak.severity ≤ strong.severity := by
  have heads : Option.Rel HNode.Below (inputValueNodes ns e).head? (inputValueNodes top e).head? :=
    related_head (fun hh => hh.isValue) below
  have he : Option.Rel HNode.SameTypes (inputValueNodes ns e).head?
      (inputValueNodes top e).head? := related_head (fun hh => hh.below.isValue) sameTypes
  cases head : (inputValueNodes ns e).head? with
  | none =>
    cases topHead : (inputValueNodes top e).head? with
    | none =>
      simp only [crossingFidelity, topHead] at hc
      simp only [crossingFidelity, head]
      cases hc
      exact ⟨_, rfl, le_refl _⟩
    | some =>
      rw [head, topHead] at heads
      cases heads
  | some =>
    cases topHead : (inputValueNodes top e).head? with
    | none =>
      rw [head, topHead] at heads
      cases heads
    | some =>
      rw [head, topHead] at heads he
      cases heads with
      | some heads =>
        cases he with
        | some he =>
          have whole := hc
          simp only [crossingFidelity, topHead] at hc
          obtain ⟨_, assessed, -⟩ := Lib.bind_eq_ok.mp hc
          obtain ⟨_, sameCrossing, -, -, sev⟩ :=
            crossingFidelity_ok covers (judged_head topJudged topHead) topHead assessed
          cases whole.symm.trans sameCrossing
          rw [← fidelityAssessmentFor_congr he] at assessed
          obtain ⟨weak, crossed, -, -, weakSeverity⟩ :=
            crossingFidelity_ok covers (judged_head hj head) head assessed
          refine ⟨weak, crossed, ?_⟩
          rw [weakSeverity, sev]
          exact sup_le_sup_right (path_severity_mono heads) _

theorem updatesOf_mono (sameTypes : phase = .fidelity → Pointwise HNode.SameTypes ns top)
    (hc : updatesOf registry phase top e = .ok strong) :
    ∃ weak, updatesOf registry phase ns e = .ok weak ∧ AsksLess weak strong := by
  cases phase with
  | typeAndValue =>
    cases hc
    exact ⟨_, rfl, typeUpdates_mono (below.mono fun hh => hh.toTypesBelow)⟩
  | fidelity =>
    cases kind : e.kind with
    | dataFlow => exact dataflowFidelity_mono hj topJudged below kind hc
    | backendCrossing =>
      simp only [updatesOf, fidelityUpdates, kind] at hc ⊢
      obtain ⟨_, crossed, ⟨⟩⟩ := Lib.bind_eq_ok.mp hc
      obtain ⟨weak, weakCrossed, le⟩ :=
        crossingFidelity_mono covers hj topJudged below (sameTypes rfl) crossed
      refine ⟨_, by rw [weakCrossed]; rfl, asksLess_toNodes fun n hset => ?_⟩
      exact (WithBot.coe_le_coe.mpr le).trans hset
    | additive | multiplicative | bitwise | ordered | bounded | abiFixed | dereferenceable
    | fieldAccess | other =>
      simp only [updatesOf, fidelityUpdates, kind] at hc ⊢
      cases hc
      exact ⟨[], rfl, .refl _⟩

end Edges

end Ostadix.Hgraph
