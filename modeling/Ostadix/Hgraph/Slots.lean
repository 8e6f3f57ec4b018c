import Ostadix.Hgraph.Solve
import Mathlib.Data.Fintype.Card

/-! # Slots of a node as orders

Every slot of a value node moves in one direction: flags lose bits, the value is written once, and
the assessment only gets more severe. Composition of assessments is the join of severities, so that
what an edge asks of a node is a bound on the node's facts. -/

namespace Ostadix.Hgraph

open Value Finset

/-! ## Flags -/

/-- The flags as a set of bit positions. -/
def bits (flags : BitVec 16) : Finset (Fin 16) :=
  univ.filter fun position => flags.getLsbD position

@[simp]
theorem mem_bits {flags : BitVec 16} {pos : Fin 16} :
    pos ∈ bits flags ↔ flags.getLsbD pos = true := by
  simp [bits]

theorem bits_and (flags mask : BitVec 16) : bits (flags &&& mask) = bits flags ∩ bits mask := by
  ext pos
  simp

theorem bits_injective : Function.Injective bits := by
  intro flags o he
  apply BitVec.eq_of_getLsbD_eq
  intro pos hsm
  rw [Bool.eq_iff_iff]
  simpa using Finset.ext_iff.mp he ⟨pos, hsm⟩

theorem bits_card_le (flags : BitVec 16) : (bits flags).card ≤ 16 :=
  card_le_univ (bits flags)

theorem bits_subset_iff {flags mask : BitVec 16} : bits flags ⊆ bits mask ↔ flags &&& mask = flags := by
  rw [← bits_injective.eq_iff, bits_and, inter_eq_left]

/-! ## Severity -/

/-- Loss bounds, below native capsules, below unsupported values. -/
abbrev Severity := WithTop (WithTop (Losses × Losses))

def nativeSeverity : Severity := ((⊤ : WithTop (Losses × Losses)) : Severity)

def lossSeverity (definite possible : Losses) : Severity :=
  (((definite, possible) : WithTop (Losses × Losses)) : Severity)

theorem lossSeverity_le {dft pos' definite' poss' : Losses} :
    lossSeverity dft pos' ≤ lossSeverity definite' poss' ↔ dft ⊆ definite' ∧ pos' ⊆ poss' := by
  rw [lossSeverity, lossSeverity, WithTop.coe_le_coe, WithTop.coe_le_coe, Prod.mk_le_mk]

theorem lossSeverity_sup (dft pos' definite' poss' : Losses) :
    lossSeverity dft pos' ⊔ lossSeverity definite' poss' =
      lossSeverity (dft ∪ definite') (pos' ∪ poss') :=
  rfl

theorem lossSeverity_le_native (dft pos' : Losses) : lossSeverity dft pos' ≤ nativeSeverity :=
  WithTop.coe_le_coe.mpr le_top

end Ostadix.Hgraph

namespace Ostadix.Value

variable {assessment : FidelityAssessmentV2} {kinds : Losses}

open Hgraph

def Meaning.severity : Meaning → Severity
  | .inl bounds => lossSeverity bounds.fst bounds.snd
  | .inr .nativeCapsule => nativeSeverity
  | .inr .unsupported => ⊤

theorem Meaning.severity_andThen (first next : Meaning) :
    (first.andThen next).severity = first.severity ⊔ next.severity := by
  have native (bnds : NonemptyInterval Losses) := lossSeverity_le_native bnds.fst bnds.snd
  rcases first with first | _ | _
  · rcases next with next | _ | _
    · exact (lossSeverity_sup _ _ _ _).symm
    · exact (sup_eq_right.mpr (native first)).symm
    · exact (sup_top_eq _).symm
  · rcases next with next | _ | _
    · exact (sup_eq_left.mpr (native next)).symm
    · exact (sup_idem _).symm
    · exact (sup_top_eq _).symm
  · rcases next with next | _ | _ <;> exact (top_sup_eq _).symm

theorem optionalLosses_injective : Function.Injective optionalLosses := by
  intro losses o he
  cases losses with
  | none =>
    cases o with
    | none => rfl
    | some o => exact absurd he.symm o.nonempty.ne_empty
  | some losses =>
    cases o with
    | none => exact absurd he losses.nonempty.ne_empty
    | some =>
      obtain ⟨losses, _⟩ := losses
      cases he
      rfl

namespace FidelityAssessmentV2

def severity : FidelityAssessmentV2 → Severity
  | lossless => lossSeverity ∅ ∅
  | structural definite possible => lossSeverity (optionalLosses definite) possible.losses
  | nativeCapsule => nativeSeverity
  | unsupported => ⊤

theorem severity_injective : Function.Injective severity := by
  intro first next he
  have loss {dft pos' definite' poss' : Losses}
      (he : lossSeverity dft pos' = lossSeverity definite' poss') :
      dft = definite' ∧ pos' = poss' := by
    cases he
    exact ⟨rfl, rfl⟩
  cases first with
  | lossless =>
    cases next with
    | lossless => rfl
    | structural dft pos' => exact absurd (loss he).2.symm pos'.nonempty.ne_empty
    | nativeCapsule | unsupported => cases he
  | structural dft pos' =>
    cases next with
    | structural =>
      obtain ⟨sameDefinite, samePossible⟩ := loss he
      cases optionalLosses_injective sameDefinite
      obtain ⟨pos', _⟩ := pos'
      cases samePossible
      rfl
    | lossless => exact absurd (loss he).2 pos'.nonempty.ne_empty
    | nativeCapsule | unsupported => cases he
  | nativeCapsule | unsupported =>
    cases next with
    | lossless | structural => cases he
    | nativeCapsule | unsupported => first | rfl | cases he

theorem Means.severity {meant : Meaning} (means : assessment.Means meant) :
    assessment.severity = meant.severity := by
  obtain ⟨_, rfl⟩ := means
  cases assessment <;> rfl

/-- Composition is the join of severities. -/
theorem andThen_severity {first next : FidelityAssessmentV2} (hfv : first.Valid)
    (hnv : next.Valid) : ∃ path, first.andThen next = some path ∧ path.Valid ∧
      path.severity = first.severity ⊔ next.severity := by
  obtain ⟨path, hc, means⟩ := andThen_means hfv.means hnv.means
  refine ⟨path, hc, means.1, ?_⟩
  rw [means.severity, Meaning.severity_andThen, hfv.means.severity, hnv.means.severity]

/-- The judgment that `possibleFidelity` projects from a valid assessment. -/
def projection : FidelityAssessmentV2 → Fidelity
  | lossless => .lossless
  | structural _ possible => .structural possible
  | nativeCapsule => .nativeCapsule
  | unsupported => .unsupported


theorem tryPossibleFidelity_of_valid (hv : assessment.Valid) :
    assessment.tryPossibleFidelity = .ok assessment.projection := by
  unfold tryPossibleFidelity
  rw [hv]
  cases assessment with
  | structural dft pos' =>
    show Except.ok (Fidelity.ofLosses pos'.losses) = _
    rw [Fidelity.ofLosses, FidelityLossSet.new, dif_pos pos'.nonempty]
    rfl
  | lossless | nativeCapsule | unsupported => rfl

theorem possibleFidelity_of_valid (hv : assessment.Valid) :
    assessment.possibleFidelity = some assessment.projection :=
  congrArg Except.toOption (tryPossibleFidelity_of_valid hv)

theorem projection_fromConcrete (conc : Fidelity) : (fromConcrete conc).projection = conc := by
  cases conc <;> rfl

variable {lower upper : FidelityAssessmentV2}

/-- The projection follows the assessment upwards. -/
theorem projection_compose (le : lower.severity ≤ upper.severity) :
    lower.projection.compose upper.projection = upper.projection := by
  cases lower with
  | lossless => cases upper <;> rfl
  | structural dft pos' =>
    cases upper with
    | lossless =>
      have hi := (lossSeverity_le.mp le).2
      exact absurd (Finset.subset_empty.mp hi) pos'.nonempty.ne_empty
    | structural definite' poss' =>
      have union : pos'.losses ∪ poss'.losses = poss'.losses :=
        Finset.union_eq_right.mpr (lossSeverity_le.mp le).2
      show Fidelity.ofLosses (pos'.losses ∪ poss'.losses) = .structural poss'
      rw [union, Fidelity.ofLosses, FidelityLossSet.new, dif_pos poss'.nonempty]
    | nativeCapsule | unsupported => rfl
  | nativeCapsule =>
    cases upper with
    | lossless | structural => exact absurd (WithTop.coe_le_coe.mp le) (WithTop.not_top_le_coe _)
    | nativeCapsule | unsupported => rfl
  | unsupported =>
    cases upper with
    | lossless | structural | nativeCapsule => exact absurd le (WithTop.not_top_le_coe _)
    | unsupported => rfl

/-- All losses are of a vocabulary. -/
def Within (kinds : Losses) : FidelityAssessmentV2 → Prop
  | structural _ possible => possible.losses ⊆ kinds
  | lossless | nativeCapsule | unsupported => True

/-- The height of an assessment over a vocabulary of `size` losses. -/
def height (size : Nat) : FidelityAssessmentV2 → Nat
  | lossless => 1
  | structural definite possible => 1 + (optionalLosses definite).card + possible.losses.card
  | nativeCapsule => 2 * size + 2
  | unsupported => 2 * size + 3

theorem height_structural_lt {dft : Option FidelityLossSet} {pos' : FidelityLossSet}
    (hv : (structural dft pos').Valid) (hw : (structural dft pos').Within kinds) :
    (structural dft pos').height kinds.card < 2 * kinds.card + 2 := by
  have fewDefinite := Finset.card_le_card ((valid_structural.mp hv).trans hw)
  have fewPossible := Finset.card_le_card (show pos'.losses ⊆ kinds from hw)
  simp only [height]
  omega

theorem height_le (hv : assessment.Valid) (hw : assessment.Within kinds) :
    assessment.height kinds.card ≤ 2 * kinds.card + 3 := by
  cases assessment with
  | structural => have := height_structural_lt hv hw; omega
  | lossless | nativeCapsule | unsupported => simp only [height]; omega

theorem height_lt (lowerValid : lower.Valid) (lowerWithin : lower.Within kinds)
    (lt : lower.severity < upper.severity) :
    lower.height kinds.card < upper.height kinds.card := by
  have le := lt.le
  cases lower with
  | lossless =>
    cases upper with
    | lossless => exact absurd lt (lt_irrefl _)
    | structural dft pos' =>
      have := pos'.nonempty.card_pos
      simp only [height]
      omega
    | nativeCapsule | unsupported => simp only [height]; omega
  | structural dft pos' =>
    have hsm := height_structural_lt lowerValid lowerWithin
    cases upper with
    | lossless =>
      have hi := (lossSeverity_le.mp le).2
      exact absurd (Finset.subset_empty.mp hi) pos'.nonempty.ne_empty
    | structural definite' poss' =>
      obtain ⟨definiteLe, possibleLe⟩ := lossSeverity_le.mp le
      have fewDefinite := Finset.card_le_card definiteLe
      have fewPossible := Finset.card_le_card possibleLe
      -- If neither set grew, the severities would be the same.
      have grew : ¬((optionalLosses definite').card ≤ (optionalLosses dft).card ∧
          poss'.losses.card ≤ pos'.losses.card) := by
        rintro ⟨noDefinite, noPossible⟩
        have sameDefinite := Finset.eq_of_subset_of_card_le definiteLe noDefinite
        have samePossible := Finset.eq_of_subset_of_card_le possibleLe noPossible
        rw [severity, severity, sameDefinite, samePossible] at lt
        exact lt_irrefl _ lt
      simp only [height]
      omega
    | nativeCapsule | unsupported => simp only [height] at hsm ⊢; omega
  | nativeCapsule =>
    cases upper with
    | lossless | structural => exact absurd (WithTop.coe_le_coe.mp le) (WithTop.not_top_le_coe _)
    | nativeCapsule => exact absurd lt (lt_irrefl _)
    | unsupported => simp only [height]; omega
  | unsupported => exact absurd lt not_top_lt

end FidelityAssessmentV2

end Ostadix.Value

namespace Ostadix.Hgraph

open Value

variable {Data : Type} {assessment : FidelityAssessmentV2} {kinds : Losses}

/-! ## Facts of a node -/

def severityOf : Option FidelityAssessmentV2 → WithBot Severity
  | none => ⊥
  | some assessment => (assessment.severity : WithBot Severity)

theorem severityOf_injective : Function.Injective severityOf := by
  intro first next he
  cases first with
  | none =>
    cases next with
    | none => rfl
    | some => cases he
  | some =>
    cases next with
    | none => cases he
    | some =>
      rw [FidelityAssessmentV2.severity_injective (WithBot.coe_injective he)]

/-- What the solver relies on for a value node: a valid assessment over a vocabulary, with the
judgment that it projects to. -/
structure HNode.Judged (kinds : Losses) (node : HNode Data) : Prop where
  valid : ∀ assessment, node.fidelityAssessment = some assessment →
    assessment.Valid ∧ assessment.Within kinds
  projected : node.fidelity = node.fidelityAssessment.map (·.projection)

/-- The second node has the types and the value of the first and perhaps more. -/
structure HNode.TypesBelow (start node : HNode Data) : Prop where
  kind : start.kind = node.kind
  domain : bits node.domain ⊆ bits start.domain
  rep : bits node.rep ⊆ bits start.rep
  value : start.value = none ∨ start.value = node.value

/-- The second node has all facts of the first and perhaps more. Nodes that are no values are never
touched. -/
structure HNode.Below (start node : HNode Data) : Prop extends start.TypesBelow node where
  assessment : severityOf start.fidelityAssessment ≤ severityOf node.fidelityAssessment
  inert : node.isValue = false → start = node

theorem HNode.Below.refl (n : HNode Data) : n.Below n  where
  kind := rfl
  domain := Finset.Subset.refl _
  rep := Finset.Subset.refl _
  value := .inr rfl
  assessment := le_refl _
  inert _ := rfl

variable {s0 n : HNode Data} {inc : FidelityAssessmentV2}

theorem HNode.TypesBelow.isValue (below : s0.TypesBelow n) : s0.isValue = n.isValue := by
  rw [HNode.isValue, HNode.isValue, below.kind]

theorem HNode.Below.trans {s0 mid n : HNode Data} (first : s0.Below mid)
    (next : mid.Below n) : s0.Below n  where
  kind := first.kind.trans next.kind
  domain := next.domain.trans first.domain
  rep := next.rep.trans first.rep
  value := by
    rcases first.value with missing | he
    · exact .inl missing
    · rw [he]
      exact next.value
  assessment := first.assessment.trans next.assessment
  inert noValue := (first.inert (next.isValue.trans noValue)).trans (next.inert noValue)

theorem HNode.Below.antisymm {left right : HNode Data} (below : left.Below right)
    (above : right.Below left) (leftJudged : left.isValue = true → left.Judged kinds)
    (rightJudged : right.isValue = true → right.Judged kinds) : left = right := by
  cases hiv : right.isValue with
  | false => exact below.inert hiv
  | true =>
    have domain := bits_injective (Finset.Subset.antisymm above.domain below.domain)
    have rep := bits_injective (Finset.Subset.antisymm above.rep below.rep)
    have value : left.value = right.value := by
      rcases below.value with missing | he
      · rcases above.value with otherMissing | he
        · rw [missing, otherMissing]
        · exact he.symm
      · exact he
    have asmt := severityOf_injective (le_antisymm below.assessment above.assessment)
    have fidelity : left.fidelity = right.fidelity := by
      rw [(leftJudged (below.isValue.trans hiv)).projected, (rightJudged hiv).projected, asmt]
    cases left
    cases right
    cases below.kind
    cases domain
    cases rep
    cases value
    cases asmt
    cases fidelity
    rfl

/-- Types and value are the same. -/
structure HNode.SameTypes (start node : HNode Data) : Prop where
  kind : start.kind = node.kind
  domain : start.domain = node.domain
  rep : start.rep = node.rep
  value : start.value = node.value

theorem HNode.SameTypes.refl (n : HNode Data) : n.SameTypes n :=
  ⟨rfl, rfl, rfl, rfl⟩

theorem HNode.SameTypes.symm (he : s0.SameTypes n) : n.SameTypes s0 :=
  ⟨he.kind.symm, he.domain.symm, he.rep.symm, he.value.symm⟩

theorem HNode.SameTypes.trans {s0 mid n : HNode Data} (first : s0.SameTypes mid)
    (next : mid.SameTypes n) : s0.SameTypes n :=
  ⟨first.kind.trans next.kind, first.domain.trans next.domain, first.rep.trans next.rep,
    first.value.trans next.value⟩

theorem HNode.SameTypes.below (he : s0.SameTypes n) : s0.TypesBelow n  where
  kind := he.kind
  domain := he.domain ▸ Finset.Subset.refl _
  rep := he.rep ▸ Finset.Subset.refl _
  value := .inr he.value

/-! ## The rank of a node -/

def heightOf (size : Nat) : Option FidelityAssessmentV2 → Nat
  | none => 0
  | some assessment => assessment.height size

/-- The changes that a node still admits over a vocabulary of `size` losses. -/
def HNode.rank (size : Nat) (node : HNode Data) : Nat :=
  (bits node.domain).card + (bits node.rep).card + (if node.value.isNone then 1 else 0) +
    (2 * size + 3 - heightOf size node.fidelityAssessment)

theorem HNode.rank_le (size : Nat) (n : HNode Data) : n.rank size ≤ 33 + (2 * size + 3) := by
  have domain := bits_card_le n.domain
  have rep := bits_card_le n.rep
  rw [HNode.rank]
  split <;> omega

theorem heightOf_lt {n : HNode Data} (hj : n.Judged kinds) {mg : FidelityAssessmentV2}
    (le : severityOf n.fidelityAssessment ≤ severityOf (some mg))
    (hdf : n.fidelityAssessment ≠ some mg) :
    heightOf kinds.card n.fidelityAssessment < heightOf kinds.card (some mg) := by
  have lt : severityOf n.fidelityAssessment < severityOf (some mg) :=
    lt_of_le_of_ne le (severityOf_injective.ne hdf)
  cases asmt : n.fidelityAssessment with
  | none =>
    cases mg <;> simp only [heightOf, FidelityAssessmentV2.height] <;> omega
  | some assessment' =>
    obtain ⟨hv, hw⟩ := hj.valid assessment' asmt
    rw [asmt] at lt
    exact FidelityAssessmentV2.height_lt hv hw (WithBot.coe_lt_coe.mp lt)

/-! ## Updates -/

namespace SlotUpdate

/-- Judgments that edges bring in are valid and of the vocabulary; the fidelity phase brings in
nothing else. -/
def Sound (kinds : Losses) (phase : SolvePhase) : SlotUpdate Data → Prop
  | fidelity incoming => incoming.Valid ∧ incoming.Within kinds
  | domain _ | rep _ | value .. => phase = .typeAndValue

/-- The node already has what the update asks for. -/
def Settled : SlotUpdate Data → HNode Data → Prop
  | domain mask, node => bits node.domain ⊆ bits mask
  | rep mask, node => bits node.rep ⊆ bits mask
  | value _ incoming, node => incoming = none ∨ incoming = node.value
  | fidelity incoming, node => severityOf (some incoming) ≤ severityOf node.fidelityAssessment

end SlotUpdate

variable {kinds : Losses} {n t top : HNode Data} {id : NodeId}
  {update : SlotUpdate Data} {phase : SolvePhase} {chg : Bool}

theorem updateSlot_eq {α : Type} [DecidableEq α] (slot next : α) :
    updateSlot slot next = (next, decide (slot ≠ next)) := by
  rw [updateSlot]
  split <;> simp_all

/-- The losses that a severity names. -/
def possibleLosses : Severity → Losses
  | some (some (_, possible)) => possible
  | _ => ∅

theorem possibleLosses_sup (first next : Severity) :
    possibleLosses (first ⊔ next) ⊆ possibleLosses first ∪ possibleLosses next := by
  rcases first with _ | _ | first
  · exact Finset.empty_subset _
  · rcases next with _ | _ | next <;> exact Finset.empty_subset _
  · rcases next with _ | _ | next
    · exact Finset.empty_subset _
    · exact Finset.empty_subset _
    · exact Finset.Subset.refl _

theorem within_iff : assessment.Within kinds ↔ possibleLosses assessment.severity ⊆ kinds := by
  cases assessment with
  | structural => exact .rfl
  | lossless | nativeCapsule | unsupported => exact ⟨fun _ => Finset.empty_subset _, fun _ => trivial⟩

/-- The assessment that a node has after an incoming one. -/
theorem mergeAssessment_ok (hj : n.Judged kinds) (hv : inc.Valid) (hw : inc.Within kinds) :
    ∃ hmg, (mergeAssessment n.fidelityAssessment inc : SolveResult Data _) = .ok hmg ∧
      hmg.Valid ∧ hmg.Within kinds ∧
      severityOf (some hmg) = severityOf n.fidelityAssessment ⊔ severityOf (some inc) := by
  cases asmt : n.fidelityAssessment with
  | none => exact ⟨inc, rfl, hv, hw, (bot_sup_eq _).symm⟩
  | some existing =>
    obtain ⟨existingValid, existingWithin⟩ := hj.valid existing asmt
    obtain ⟨hmg, hc, hmv, sev⟩ := FidelityAssessmentV2.andThen_severity existingValid hv
    refine ⟨hmg, ?_, hmv, ?_, ?_⟩
    · simp only [mergeAssessment, hc, orPanic]
    · rw [within_iff, sev]
      exact (possibleLosses_sup _ _).trans
        (Finset.union_subset (within_iff.mp existingWithin) (within_iff.mp hw))
    · simp only [severityOf, sev, WithBot.coe_sup]

theorem applyFidelityToNode_ok (hj : n.Judged kinds) (hv : inc.Valid) (hw : inc.Within kinds) :
    ∃ merged : FidelityAssessmentV2, merged.Valid ∧ merged.Within kinds ∧
      severityOf (some merged) = severityOf n.fidelityAssessment ⊔ severityOf (some inc) ∧
      applyFidelityToNode n inc = .ok
        ({ n with fidelityAssessment := some merged, fidelity := some merged.projection },
          decide (n.fidelityAssessment ≠ some merged)) := by
  obtain ⟨merged, hc, hmv, hmw, sev⟩ := mergeAssessment_ok hj hv hw
  refine ⟨merged, hmv, hmw, sev, ?_⟩
  have le : severityOf n.fidelityAssessment ≤ severityOf (some merged) := sev ▸ le_sup_left
  have projected : mergeFidelity n.fidelity (some merged.projection) = some merged.projection := by
    rw [hj.projected]
    cases assessment : n.fidelityAssessment with
    | none => rfl
    | some =>
      rw [assessment] at le
      exact congrArg some (FidelityAssessmentV2.projection_compose (WithBot.coe_le_coe.mp le))
  -- A node whose assessment stays also keeps its judgment.
  have follows : n.fidelity ≠ some merged.projection → n.fidelityAssessment ≠ some merged := by
    intro hdf he
    rw [hj.projected, he] at hdf
    exact hdf rfl
  simp only [applyFidelityToNode, hc, Lib.ok_bind, updateSlot_eq,
    FidelityAssessmentV2.possibleFidelity_of_valid hmv, orPanic, projected]
  congr 2
  by_cases he : n.fidelityAssessment = some merged
  · have keeps := fun hdf => follows hdf he
    simp [he, not_not.mp keeps]
  · simp [he]

/-- What an update that succeeds does to a value node. -/
structure Updated (kinds : Losses) (update : SlotUpdate Data) (node after : HNode Data)
    (changed : Bool) : Prop where
  judged : after.Judged kinds
  below : node.Below after
  idle : changed = false → after = node ∧ update.Settled node
  lowers : changed = true → after.rank kinds.card < node.rank kinds.card

theorem inert_of_isValue {post : Prop} (hiv : n.isValue = true)
    (noValue : n.isValue = false) : post :=
  absurd (hiv.symm.trans noValue) nofun

/-- Fewer bits are a lower count, unless nothing changed. -/
theorem bits_card_lt {flags mask : BitVec 16} (hdf : flags ≠ flags &&& mask) :
    (bits (flags &&& mask)).card < (bits flags).card := by
  apply Finset.card_lt_card
  rw [bits_and, Finset.ssubset_iff_subset_ne]
  refine ⟨Finset.inter_subset_left, ?_⟩
  intro he
  rw [← bits_and] at he
  exact hdf (bits_injective he).symm

theorem updated_domain (hiv : n.isValue = true) (judged : n.Judged kinds)
    (mask : DomainFlags) : Updated kinds (.domain mask) n
      { n with domain := n.domain &&& mask } (decide (n.domain ≠ n.domain &&& mask)) where
  judged := ⟨judged.valid, judged.projected⟩
  below :=
    { HNode.Below.refl n with
      domain := bits_and n.domain mask ▸ Finset.inter_subset_left
      inert := inert_of_isValue hiv }
  idle := by
    intro hun
    have he : n.domain = n.domain &&& mask := by simpa using hun
    exact ⟨by rw [← he], bits_subset_iff.mpr he.symm⟩
  lowers := by
    intro hsc
    have fewer := bits_card_lt (show n.domain ≠ n.domain &&& mask by simpa using hsc)
    simp only [HNode.rank]
    omega

theorem updated_rep (hiv : n.isValue = true) (judged : n.Judged kinds) (mask : RepFlags) :
    Updated kinds (.rep mask) n
      { n with rep := n.rep &&& mask } (decide (n.rep ≠ n.rep &&& mask)) where
  judged := ⟨judged.valid, judged.projected⟩
  below :=
    { HNode.Below.refl n with
      rep := bits_and n.rep mask ▸ Finset.inter_subset_left
      inert := inert_of_isValue hiv }
  idle := by
    intro hun
    have he : n.rep = n.rep &&& mask := by simpa using hun
    exact ⟨by rw [← he], bits_subset_iff.mpr he.symm⟩
  lowers := by
    intro hsc
    have fewer := bits_card_lt (show n.rep ≠ n.rep &&& mask by simpa using hsc)
    simp only [HNode.rank]
    omega

theorem updated_fidelity (hiv : n.isValue = true) (hj : n.Judged kinds)
    (hv : inc.Valid) (hw : inc.Within kinds) (hap : applyFidelityToNode n inc = .ok (t, chg)) :
    Updated kinds (.fidelity inc) n t chg := by
  obtain ⟨hmg, hmv, hmw, sev, hc⟩ := applyFidelityToNode_ok hj hv hw
  rw [hc] at hap
  cases hap
  have le : severityOf n.fidelityAssessment ≤ severityOf (some hmg) := sev ▸ le_sup_left
  refine ⟨⟨?_, rfl⟩, ?_, ?_, ?_⟩
  · rintro _ ⟨⟩
    exact ⟨hmv, hmw⟩
  · exact { HNode.Below.refl n with assessment := le, inert := inert_of_isValue hiv }
  · intro hun
    have he : n.fidelityAssessment = some hmg := by simpa using hun
    have projected := hj.projected
    rw [he] at projected
    refine ⟨?_, ?_⟩
    · rw [← he, show some hmg.projection = n.fidelity from projected.symm]
    · show severityOf (some inc) ≤ severityOf n.fidelityAssessment
      rw [he, sev]
      exact le_sup_right
  · intro hsc
    have hdf : n.fidelityAssessment ≠ some hmg := by simpa using hsc
    have higher := heightOf_lt hj le hdf
    have bound := FidelityAssessmentV2.height_le hmv hmw
    simp only [HNode.rank, heightOf] at higher ⊢
    omega

variable [DecidableEq Data]

section

variable (isValue : n.isValue = true)

include isValue

theorem updated_value (hj : n.Judged kinds) {e : EdgeId} {inc : Option (OValue Data)}
    (hap : writeValueOnce n e id inc = .ok (t, chg)) :
    Updated kinds (.value e inc) n t chg := by
  have hun (hset : (SlotUpdate.value e inc).Settled n) : Updated kinds (.value e inc) n n false :=
    ⟨hj, .refl n, fun _ => ⟨rfl, hset⟩, nofun⟩
  unfold writeValueOnce at hap
  cases inc with
  | none =>
    cases hap
    exact hun (.inl rfl)
  | some =>
    cases existing : n.value with
    | some =>
      simp only [existing] at hap
      split at hap
      · cases hap
      · cases hap
        exact hun (.inr (by simp_all))
    | none =>
      simp only [existing, updateSlot_eq] at hap
      cases hap
      refine ⟨⟨hj.valid, hj.projected⟩, ?_, nofun, ?_⟩
      · exact { HNode.Below.refl n with value := .inl existing, inert := inert_of_isValue isValue }
      · intro _
        simp [HNode.rank, existing]

theorem applyUpdate_updated (hj : n.Judged kinds) (hsd : update.Sound kinds phase)
    (hap : applyUpdate update id n = .ok (t, chg)) :
    Updated kinds update n t chg := by
  cases update with
  | domain mask =>
    simp only [applyUpdate, updateSlot_eq] at hap
    cases hap
    exact updated_domain isValue hj mask
  | rep mask =>
    simp only [applyUpdate, updateSlot_eq] at hap
    cases hap
    exact updated_rep isValue hj mask
  | value => exact updated_value isValue hj hap
  | fidelity => exact updated_fidelity isValue hj hsd.1 hsd.2 hap

/-- Below a node that is settled, an update succeeds and stays below. -/
theorem applyUpdate_below (hj : n.Judged kinds) (hsd : update.Sound kinds phase)
    (settled : update.Settled top) (below : n.Below top) :
    ∃ t chg, applyUpdate update id n = .ok (t, chg) ∧ t.Below top := by
  have topValue : top.isValue = true := below.isValue.symm.trans isValue
  have inert {s0 : HNode Data} : top.isValue = false → s0 = top := inert_of_isValue topValue
  cases update with
  | domain =>
    simp only [applyUpdate, updateSlot_eq]
    refine ⟨_, _, rfl, { below with domain := ?_, inert := inert }⟩
    rw [bits_and]
    exact Finset.subset_inter below.domain settled
  | rep =>
    simp only [applyUpdate, updateSlot_eq]
    refine ⟨_, _, rfl, { below with rep := ?_, inert := inert }⟩
    rw [bits_and]
    exact Finset.subset_inter below.rep settled
  | value e inc =>
    simp only [applyUpdate, writeValueOnce]
    cases inc with
    | none => exact ⟨n, false, rfl, below⟩
    | some inc =>
      have topHas : some inc = top.value := settled.resolve_left nofun
      cases existing : n.value with
      | some value =>
        -- The value that the node has is the one of the settled node.
        have he : some value = top.value := existing ▸ below.value.resolve_left (by simp [existing])
        have heq : value = inc := Option.some_inj.mp (he.trans topHas.symm)
        exact ⟨n, false, by simp [heq], below⟩
      | none =>
        simp only [updateSlot_eq]
        exact ⟨_, _, rfl, { below with value := .inr topHas, inert := inert }⟩
  | fidelity =>
    obtain ⟨hmg, -, -, sev, hc⟩ := applyFidelityToNode_ok hj hsd.1 hsd.2
    refine ⟨_, _, hc, { below with assessment := ?_, inert := inert }⟩
    show severityOf (some hmg) ≤ _
    rw [sev]
    exact sup_le below.assessment settled

/-- A settled node is not changed. -/
theorem applyUpdate_of_settled (hj : n.Judged kinds) (hsd : update.Sound kinds phase)
    (hset : update.Settled n) : applyUpdate update id n = .ok (n, false) := by
  obtain ⟨t, chg, hap, below⟩ : ∃ t chg, applyUpdate update id n = .ok (t, chg) ∧ t.Below n :=
    applyUpdate_below isValue hj hsd hset (.refl n)
  have updated := applyUpdate_updated isValue hj hsd hap
  have he : t = n := below.antisymm updated.below (fun _ => updated.judged) (fun _ => hj)
  cases chg with
  | false => rw [hap, he]
  | true =>
    have lower := updated.lowers rfl
    rw [he] at lower
    exact absurd lower (lt_irrefl _)

end

/-- The fidelity phase keeps types and values. -/
theorem applyUpdate_sameTypes (hj : n.Judged kinds) (hsd : update.Sound kinds .fidelity)
    (hap : applyUpdate update id n = .ok (t, chg)) : n.SameTypes t := by
  cases update with
  | domain | rep | value => cases hsd
  | fidelity =>
    obtain ⟨_, -, -, -, hc⟩ := applyFidelityToNode_ok hj hsd.1 hsd.2
    rw [applyUpdate, hc] at hap
    cases hap
    exact ⟨rfl, rfl, rfl, rfl⟩

end Ostadix.Hgraph
