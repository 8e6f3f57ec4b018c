import Mathlib.Data.Finset.Basic
import Mathlib.Order.Interval.Basic
import Mathlib.Data.Sum.Order

/-! # Fidelity judgments of value crossings

The concrete judgments (V1) and the assessments (V2), which bound the losses of a crossing from
below and from above. A Rust function that may panic returns an `Option` here, with `none` for the
panic. The meaning of an assessment is an interval of loss sets or one of two isolated points;
`precisionLeq` is the order of these meanings. -/

namespace Ostadix.Value

open Finset

/-! ## Losses -/

inductive AnnotationKind where
  | typeTag
  | numericPrecision
  | numericExactness
  | encoding
  | ordering
  | identity
  | constraint
  | capability
  | presentation
  | backendSpecific (lang label : String)
deriving DecidableEq

/-- A set of losses that is not empty. -/
structure FidelityLossSet where
  losses : Finset AnnotationKind
  nonempty : losses.Nonempty
deriving DecidableEq

def FidelityLossSet.new (lost : Finset AnnotationKind) : Option FidelityLossSet :=
  if nonempty : lost.Nonempty then some ⟨lost, nonempty⟩ else none

/-! ## Concrete judgments -/

inductive Fidelity where
  | lossless
  | structural (lost : FidelityLossSet)
  | nativeCapsule
  | unsupported
deriving DecidableEq

namespace Fidelity

/-- `Fidelity::structural`, which makes the empty set lossless. -/
def ofLosses (lost : Finset AnnotationKind) : Fidelity :=
  match FidelityLossSet.new lost with
  | some lost => structural lost
  | none => lossless

def compose : Fidelity → Fidelity → Fidelity
  | unsupported, _ | _, unsupported => unsupported
  | nativeCapsule, _ | _, nativeCapsule => nativeCapsule
  | lossless, other | other, lossless => other
  | structural lost, structural more => ofLosses (lost.losses ∪ more.losses)

end Fidelity

/-! ## Assessments -/

inductive FidelityBoundsError where
  | definiteOutsidePossible
deriving DecidableEq

inductive FidelityAssessmentV2 where
  | lossless
  | structural (definite : Option FidelityLossSet) (possible : FidelityLossSet)
  | nativeCapsule
  | unsupported
deriving DecidableEq

/-- The losses of an optional set, none if it is missing. -/
def optionalLosses (losses : Option FidelityLossSet) : Finset AnnotationKind :=
  (losses.map FidelityLossSet.losses).getD ∅

namespace FidelityAssessmentV2

def validate : FidelityAssessmentV2 → Except FidelityBoundsError Unit
  | structural (some definite) possible =>
      if definite.losses ⊆ possible.losses then .ok () else .error .definiteOutsidePossible
  | _ => .ok ()

/-- `FidelityAssessmentV2::structural`. -/
def ofBounds (definite possible : Finset AnnotationKind) :
    Except FidelityBoundsError FidelityAssessmentV2 :=
  if definite ⊆ possible then
    match FidelityLossSet.new possible with
    | none => .ok lossless
    | some possible => .ok (structural (FidelityLossSet.new definite) possible)
  else .error .definiteOutsidePossible

def fromConcrete : Fidelity → FidelityAssessmentV2
  | .lossless => lossless
  | .structural lost => structural (some lost) lost
  | .nativeCapsule => nativeCapsule
  | .unsupported => unsupported

def concretizationContains (assessment : FidelityAssessmentV2) (concrete : Fidelity) : Bool :=
  match assessment.validate with
  | .error _ => false
  | .ok () =>
      match assessment, concrete with
      | lossless, .lossless | nativeCapsule, .nativeCapsule | unsupported, .unsupported => true
      | structural definite _, .lossless => definite.isNone
      | structural definite possible, .structural lost =>
          definite.all (·.losses ⊆ lost.losses) && decide (lost.losses ⊆ possible.losses)
      | _, _ => false

/-- The losses that are definite and those that are possible; `none` is the unreachable case. -/
def lossBounds : FidelityAssessmentV2 → Option (Finset AnnotationKind × Finset AnnotationKind)
  | lossless => some (∅, ∅)
  | structural definite possible => some (optionalLosses definite, possible.losses)
  | nativeCapsule | unsupported => none

/-- A checked function on assessments, which may also panic. -/
abbrev Checked := ExceptT FidelityBoundsError Option

/-- `expect`: an error is a panic. -/
def expect {α : Type} (checked : Checked α) : Option α := do
  let .ok value ← checked.run | none
  return value

def tryPrecisionLeq (left right : FidelityAssessmentV2) : Checked Bool := do
  left.validate
  right.validate
  match left, right with
  | nativeCapsule, nativeCapsule | unsupported, unsupported => return true
  | nativeCapsule, _ | unsupported, _ | _, nativeCapsule | _, unsupported => return false
  | left, right =>
      let (leftDefinite, leftPossible) ← (left.lossBounds : Option _)
      let (rightDefinite, rightPossible) ← (right.lossBounds : Option _)
      return decide (rightDefinite ⊆ leftDefinite ∧ leftPossible ⊆ rightPossible)

def precisionLeq (left right : FidelityAssessmentV2) : Option Bool :=
  expect (tryPrecisionLeq left right)

/-- Composition of two crossings on one path. -/
def thenValid : FidelityAssessmentV2 → FidelityAssessmentV2 → Option FidelityAssessmentV2
  | unsupported, _ | _, unsupported => some unsupported
  | nativeCapsule, _ | _, nativeCapsule => some nativeCapsule
  | lossless, other | other, lossless => some other
  | structural definite possible, structural moreDefinite morePossible =>
      (ofBounds (optionalLosses definite ∪ optionalLosses moreDefinite)
        (possible.losses ∪ morePossible.losses)).toOption

def tryThen (first next : FidelityAssessmentV2) : Checked FidelityAssessmentV2 := do
  first.validate
  next.validate
  thenValid first next

/-- `then`. -/
def andThen (first next : FidelityAssessmentV2) : Option FidelityAssessmentV2 :=
  expect (tryThen first next)

/-- Merge of two paths: only common losses stay definite. -/
def joinPathsValid : FidelityAssessmentV2 → FidelityAssessmentV2 → Option FidelityAssessmentV2
  | unsupported, _ | _, unsupported => some unsupported
  | nativeCapsule, _ | _, nativeCapsule => some nativeCapsule
  | left, right => do
      let (leftDefinite, leftPossible) ← left.lossBounds
      let (rightDefinite, rightPossible) ← right.lossBounds
      (ofBounds (leftDefinite ∩ rightDefinite) (leftPossible ∪ rightPossible)).toOption

def tryJoinPaths (left right : FidelityAssessmentV2) : Checked FidelityAssessmentV2 := do
  left.validate
  right.validate
  joinPathsValid left right

def joinPaths (left right : FidelityAssessmentV2) : Option FidelityAssessmentV2 :=
  expect (tryJoinPaths left right)

def tryPossibleFidelity (assessment : FidelityAssessmentV2) : Except FidelityBoundsError Fidelity := do
  assessment.validate
  match assessment with
  | lossless => return .lossless
  | structural _ possible => return .ofLosses possible.losses
  | nativeCapsule => return .nativeCapsule
  | unsupported => return .unsupported

def possibleFidelity (assessment : FidelityAssessmentV2) : Option Fidelity :=
  assessment.tryPossibleFidelity.toOption

end FidelityAssessmentV2

/-! ## Meanings -/

/-- The judgments that are not about losses. -/
inductive Sentinel where
  | nativeCapsule
  | unsupported
deriving DecidableEq

/-- A sentinel is comparable with itself only. -/
instance : PartialOrder Sentinel where
  le := Eq
  le_refl := Eq.refl
  le_trans _ _ _ := Eq.trans
  le_antisymm _ _ same _ := same

abbrev Losses := Finset AnnotationKind

/-- An interval of loss sets, or a sentinel. -/
abbrev Meaning := NonemptyInterval Losses ⊕ Sentinel

/-- The union of one set from each interval. -/
def unionBounds (first next : NonemptyInterval Losses) : NonemptyInterval Losses :=
  ⟨(first.fst ∪ next.fst, first.snd ∪ next.snd),
    union_subset_union first.fst_le_snd next.fst_le_snd⟩

/-- Where no sentinel is involved losses add up, otherwise the worst sentinel wins. -/
def Meaning.andThen : Meaning → Meaning → Meaning
  | .inr .unsupported, _ | _, .inr .unsupported => .inr .unsupported
  | .inr .nativeCapsule, _ | _, .inr .nativeCapsule => .inr .nativeCapsule
  | .inl first, .inl next => .inl (unionBounds first next)

def Fidelity.meaning : Fidelity → Losses ⊕ Sentinel
  | lossless => .inl ∅
  | structural lost => .inl lost.losses
  | nativeCapsule => .inr .nativeCapsule
  | unsupported => .inr .unsupported

/-- The meaning that contains one judgment. -/
def Meaning.point : Losses ⊕ Sentinel → Meaning :=
  Sum.map NonemptyInterval.pure id

theorem Meaning.andThen_mono {first first' next next' : Meaning} (firstLe : first ≤ first')
    (nextLe : next ≤ next') : first.andThen next ≤ first'.andThen next' := by
  cases firstLe with
  | inl firstLe =>
    cases nextLe with
    | inl nextLe =>
      obtain ⟨firstFst, firstSnd⟩ := NonemptyInterval.le_def.mp firstLe
      obtain ⟨nextFst, nextSnd⟩ := NonemptyInterval.le_def.mp nextLe
      refine Sum.inl_le_inl_iff.mpr (NonemptyInterval.le_def.mpr ⟨?_, ?_⟩)
      · exact union_subset_union firstFst nextFst
      · exact union_subset_union firstSnd nextSnd
    | inr he =>
      cases he
      cases ‹Sentinel› <;> exact le_refl _
  | inr he =>
    cases he
    cases nextLe with
    | inl => cases ‹Sentinel› <;> exact le_refl _
    | inr he =>
      cases he
      exact le_refl _

/-- Composition of concrete judgments is composition of the points. -/
theorem Fidelity.point_compose (first next : Fidelity) :
    Meaning.point (first.compose next).meaning =
      (Meaning.point first.meaning).andThen (Meaning.point next.meaning) := by
  have empty (lost : Losses) : Meaning.point (.inl lost) = .inl (unionBounds (.pure ∅) (.pure lost)) ∧
      Meaning.point (.inl lost) = .inl (unionBounds (.pure lost) (.pure ∅)) := by
    simp [Meaning.point, unionBounds, NonemptyInterval.ext_iff, Prod.ext_iff]
  cases first with
  | lossless =>
    cases next with
    | lossless => exact (empty ∅).1
    | structural lost => exact (empty lost.losses).1
    | nativeCapsule | unsupported => rfl
  | structural lost =>
    cases next with
    | lossless => exact (empty lost.losses).2
    | structural more =>
      have both : (lost.losses ∪ more.losses).Nonempty := lost.nonempty.mono subset_union_left
      rw [compose, ofLosses, FidelityLossSet.new, dif_pos both]
      rfl
    | nativeCapsule | unsupported => rfl
  | nativeCapsule | unsupported => cases next <;> rfl

theorem optionalLosses_new (lost : Losses) : optionalLosses (FidelityLossSet.new lost) = lost := by
  by_cases hnil : lost.Nonempty
  · simp [FidelityLossSet.new, optionalLosses, hnil]
  · simp [FidelityLossSet.new, optionalLosses, not_nonempty_iff_eq_empty.mp hnil]

namespace FidelityAssessmentV2

def Valid (assessment : FidelityAssessmentV2) : Prop :=
  assessment.validate = .ok ()

theorem valid_structural {dft : Option FidelityLossSet} {pos' : FidelityLossSet} :
    (structural dft pos').Valid ↔ optionalLosses dft ⊆ pos'.losses := by
  cases dft with
  | none => simp [Valid, validate, optionalLosses]
  | some dft =>
    by_cases hi : dft.losses ⊆ pos'.losses
    · simp [Valid, validate, optionalLosses, hi]
    · simp [Valid, validate, optionalLosses, hi]

def meaning : (assessment : FidelityAssessmentV2) → assessment.Valid → Meaning
  | lossless, _ => .inl (.pure ∅)
  | structural definite possible, valid =>
      .inl ⟨(optionalLosses definite, possible.losses), valid_structural.mp valid⟩
  | nativeCapsule, _ => .inr .nativeCapsule
  | unsupported, _ => .inr .unsupported

/-- An assessment that means something. -/
def Means (assessment : FidelityAssessmentV2) (meant : Meaning) : Prop :=
  ∃ valid : assessment.Valid, assessment.meaning valid = meant

theorem Valid.means {asmt : FidelityAssessmentV2} (hv : asmt.Valid) :
    asmt.Means (asmt.meaning hv) :=
  ⟨hv, rfl⟩

theorem ofBounds_means (bnds : NonemptyInterval Losses) :
    ∃ asmt, ofBounds bnds.fst bnds.snd = .ok asmt ∧ asmt.Means (.inl bnds) := by
  obtain ⟨⟨dft, pos'⟩, hi⟩ := bnds
  rw [ofBounds, if_pos hi]
  by_cases hnil : pos'.Nonempty
  · refine ⟨structural (FidelityLossSet.new dft) ⟨pos', hnil⟩, ?_, ?_, ?_⟩
    · rw [FidelityLossSet.new, dif_pos hnil]
    · exact valid_structural.mpr ((optionalLosses_new dft).symm ▸ hi)
    · simp [meaning, optionalLosses_new]
  · obtain rfl := not_nonempty_iff_eq_empty.mp hnil
    obtain rfl := subset_empty.mp hi
    refine ⟨lossless, ?_, rfl, rfl⟩
    rw [FidelityLossSet.new, dif_neg hnil]

theorem fromConcrete_means (conc : Fidelity) : (fromConcrete conc).Means (.point conc.meaning) := by
  cases conc with
  | structural => exact ⟨valid_structural.mpr (Finset.Subset.refl _), rfl⟩
  | lossless | nativeCapsule | unsupported => exact ⟨rfl, rfl⟩

section Operations

variable {a1 next : FidelityAssessmentV2} {firstMeant nextMeant : Meaning}

theorem andThen_of_valid (hfv : a1.Valid) (hnv : next.Valid) :
    a1.andThen next = thenValid a1 next := by
  rw [andThen, tryThen, hfv, hnv]
  cases thenValid a1 next <;> rfl

theorem joinPaths_of_valid (hfv : a1.Valid) (hnv : next.Valid) :
    a1.joinPaths next = joinPathsValid a1 next := by
  rw [joinPaths, tryJoinPaths, hfv, hnv]
  cases joinPathsValid a1 next <;> rfl

theorem andThen_means (firstMeans : a1.Means firstMeant) (nextMeans : next.Means nextMeant) :
    ∃ r, a1.andThen next = some r ∧ r.Means (firstMeant.andThen nextMeant) := by
  obtain ⟨hfv, rfl⟩ := firstMeans
  obtain ⟨hnv, rfl⟩ := nextMeans
  rw [andThen_of_valid hfv hnv]
  have left (bnds : NonemptyInterval Losses) : unionBounds (.pure ∅) bnds = bnds := by
    simp [unionBounds, NonemptyInterval.ext_iff, Prod.ext_iff]
  have right (bnds : NonemptyInterval Losses) : unionBounds bnds (.pure ∅) = bnds := by
    simp [unionBounds, NonemptyInterval.ext_iff, Prod.ext_iff]
  cases a1 with
  | lossless =>
    cases next with
    | lossless => exact ⟨_, rfl, rfl, congrArg Sum.inl (left _).symm⟩
    | structural => exact ⟨_, rfl, hnv, congrArg Sum.inl (left _).symm⟩
    | nativeCapsule | unsupported => exact ⟨_, rfl, rfl, rfl⟩
  | structural dft pos' =>
    cases next with
    | lossless => exact ⟨_, rfl, hfv, congrArg Sum.inl (right _).symm⟩
    | structural moreDefinite morePossible =>
      obtain ⟨r, hc, means⟩ := ofBounds_means (unionBounds
        ⟨(optionalLosses dft, pos'.losses), valid_structural.mp hfv⟩
        ⟨(optionalLosses moreDefinite, morePossible.losses), valid_structural.mp hnv⟩)
      exact ⟨r, congrArg Except.toOption hc, means⟩
    | nativeCapsule | unsupported => exact ⟨_, rfl, rfl, rfl⟩
  | nativeCapsule | unsupported => cases next <;> exact ⟨_, rfl, rfl, rfl⟩

/-- Paths without a sentinel are merged to the smallest interval around both. -/
theorem joinPaths_means {firstBounds nextBounds : NonemptyInterval Losses}
    (firstMeans : a1.Means (.inl firstBounds)) (nextMeans : next.Means (.inl nextBounds)) :
    ∃ r, a1.joinPaths next = some r ∧ r.Means (.inl (firstBounds ⊔ nextBounds)) := by
  obtain ⟨hfv, firstSame⟩ := firstMeans
  obtain ⟨hnv, nextSame⟩ := nextMeans
  rw [joinPaths_of_valid hfv hnv]
  obtain ⟨r, hc, means⟩ := ofBounds_means (firstBounds ⊔ nextBounds)
  refine ⟨r, ?_, means⟩
  have joined : (ofBounds (firstBounds.fst ∩ nextBounds.fst)
      (firstBounds.snd ∪ nextBounds.snd)).toOption = some r := congrArg Except.toOption hc
  cases a1 with
  | nativeCapsule | unsupported => cases firstSame
  | lossless | structural =>
    cases next with
    | nativeCapsule | unsupported => cases nextSame
    | lossless | structural =>
      cases firstSame
      cases nextSame
      exact joined

theorem precisionLeq_means (firstMeans : a1.Means firstMeant) (nextMeans : next.Means nextMeant) :
    ∃ ans, a1.precisionLeq next = some ans ∧ (ans = true ↔ firstMeant ≤ nextMeant) := by
  obtain ⟨hfv, rfl⟩ := firstMeans
  obtain ⟨hnv, rfl⟩ := nextMeans
  unfold precisionLeq tryPrecisionLeq
  rw [hfv, hnv]
  cases a1 with
  | lossless | structural =>
    cases next with
    | lossless | structural =>
      refine ⟨_, rfl, ?_⟩
      simp [meaning, NonemptyInterval.le_def]
    | nativeCapsule | unsupported => exact ⟨false, rfl, nofun, nofun⟩
  | nativeCapsule =>
    cases next with
    | nativeCapsule => exact ⟨true, rfl, fun _ => le_refl _, fun _ => rfl⟩
    | lossless | structural => exact ⟨false, rfl, nofun, nofun⟩
    | unsupported => exact ⟨false, rfl, nofun, fun less => nomatch Sum.inr_le_inr_iff.mp less⟩
  | unsupported =>
    cases next with
    | unsupported => exact ⟨true, rfl, fun _ => le_refl _, fun _ => rfl⟩
    | lossless | structural => exact ⟨false, rfl, nofun, nofun⟩
    | nativeCapsule => exact ⟨false, rfl, nofun, fun less => nomatch Sum.inr_le_inr_iff.mp less⟩

theorem precisionLeq_iff (firstMeans : a1.Means firstMeant) (nextMeans : next.Means nextMeant) :
    a1.precisionLeq next = some true ↔ firstMeant ≤ nextMeant := by
  obtain ⟨ans, hc, iff⟩ := precisionLeq_means firstMeans nextMeans
  rw [hc, Option.some_inj, iff]

theorem contains_iff (means : a1.Means firstMeant) (conc : Fidelity) :
    a1.concretizationContains conc = true ↔ .point conc.meaning ≤ firstMeant := by
  obtain ⟨hv, rfl⟩ := means
  unfold concretizationContains
  rw [hv]
  cases a1 with
  | lossless =>
    cases conc with
    | lossless | nativeCapsule | unsupported => simp [meaning, Fidelity.meaning, Meaning.point]
    | structural lost =>
      simp [meaning, Fidelity.meaning, Meaning.point, NonemptyInterval.le_def, lost.nonempty.ne_empty]
  | structural dft =>
    cases conc with
    | lossless =>
      cases dft with
      | none => simp [meaning, Fidelity.meaning, Meaning.point, NonemptyInterval.le_def, optionalLosses]
      | some dft =>
        simp [meaning, Fidelity.meaning, Meaning.point, NonemptyInterval.le_def, optionalLosses,
          dft.nonempty.ne_empty]
    | structural =>
      cases dft <;>
        simp [meaning, Fidelity.meaning, Meaning.point, NonemptyInterval.le_def, optionalLosses]
    | nativeCapsule | unsupported => simp [meaning, Fidelity.meaning, Meaning.point]
  | nativeCapsule =>
    cases conc with
    | nativeCapsule | lossless | structural => simp [meaning, Fidelity.meaning, Meaning.point]
    | unsupported => exact ⟨nofun, fun less => nomatch Sum.inr_le_inr_iff.mp less⟩
  | unsupported =>
    cases conc with
    | unsupported | lossless | structural => simp [meaning, Fidelity.meaning, Meaning.point]
    | nativeCapsule => exact ⟨nofun, fun less => nomatch Sum.inr_le_inr_iff.mp less⟩

end Operations

/-! ## The laws -/

/-- Structural or lossless. -/
def IsInterval (assessment : FidelityAssessmentV2) : Prop :=
  assessment ≠ nativeCapsule ∧ assessment ≠ unsupported

theorem IsInterval.means {asmt : FidelityAssessmentV2} (isInterval : asmt.IsInterval)
    (hv : asmt.Valid) : ∃ bnds, asmt.Means (.inl bnds) := by
  cases asmt with
  | lossless | structural => exact ⟨_, hv, rfl⟩
  | nativeCapsule => exact absurd rfl isInterval.1
  | unsupported => exact absurd rfl isInterval.2

/-- The points of outcomes, joined from left to right. -/
def joinPoints (first : Fidelity) (rest : List Fidelity) : Option FidelityAssessmentV2 :=
  rest.foldlM (fun joined outcome => joined.joinPaths (fromConcrete outcome)) (fromConcrete first)

theorem joinPoints_means {tl : List Fidelity} {joined : FidelityAssessmentV2}
    {bnds : NonemptyInterval Losses} (means : joined.Means (.inl bnds))
    (intervals : ∀ oc ∈ tl, (fromConcrete oc).IsInterval) :
    ∃ r resultBounds,
      tl.foldlM (fun joined oc => joined.joinPaths (fromConcrete oc)) joined = some r ∧
      r.Means (.inl resultBounds) ∧ ∀ meant : Meaning, .inl resultBounds ≤ meant ↔
        .inl bnds ≤ meant ∧ ∀ oc ∈ tl, .point oc.meaning ≤ meant := by
  induction tl generalizing joined bnds with
  | nil => exact ⟨joined, bnds, rfl, means, by simp⟩
  | cons oc tl ih =>
    obtain ⟨hh, hl⟩ := List.forall_mem_cons.mp intervals
    obtain ⟨hv, meaningSame⟩ := fromConcrete_means oc
    obtain ⟨outcomeBounds, outcomeValid, outcomeSame⟩ := hh.means hv
    have point : Meaning.point oc.meaning = .inl outcomeBounds := meaningSame.symm.trans outcomeSame
    obtain ⟨next, hc, nextMeans⟩ := joinPaths_means means ⟨outcomeValid, outcomeSame⟩
    obtain ⟨r, resultBounds, tl, resultMeans, hle⟩ := ih nextMeans hl
    refine ⟨r, resultBounds, ?_, resultMeans, ?_⟩
    · rw [List.foldlM_cons, hc]
      exact tl
    · intro meant
      rw [hle meant, List.forall_mem_cons, point]
      cases meant with
      | inl => simp [and_assoc]
      | inr => simp

/-- The assessments are the best descriptions of sets of outcomes, as far as they go: a point is
below an assessment exactly if the assessment contains it, composition is sound and monotone, and
without sentinels the merge of paths is the least upper bound. -/
theorem assessments_describe_outcomes {a b : FidelityAssessmentV2} (aValid : a.Valid)
    (bValid : b.Valid) :
    (∀ c, (fromConcrete c).precisionLeq a = some (a.concretizationContains c)) ∧
    (∃ path, a.andThen b = some path ∧ path.Valid ∧
      (∀ c d, a.concretizationContains c = true → b.concretizationContains d = true →
        path.concretizationContains (c.compose d) = true) ∧
      ∀ a' b', a'.Valid → b'.Valid → a.precisionLeq a' = some true →
        b.precisionLeq b' = some true → ∃ path', a'.andThen b' = some path' ∧
          path.precisionLeq path' = some true) ∧
    (a.IsInterval → b.IsInterval → ∃ joined, a.joinPaths b = some joined ∧ joined.Valid ∧
      a.precisionLeq joined = some true ∧ b.precisionLeq joined = some true ∧
      ∀ upper, upper.Valid → a.precisionLeq upper = some true → b.precisionLeq upper = some true →
        joined.precisionLeq upper = some true) ∧
    ∀ first rest, (∀ outcome ∈ first :: rest, (fromConcrete outcome).IsInterval) →
      ∃ best, joinPoints first rest = some best ∧ best.Valid ∧
        (∀ outcome ∈ first :: rest, best.concretizationContains outcome = true) ∧
        ∀ other, other.Valid →
          (∀ outcome ∈ first :: rest, other.concretizationContains outcome = true) →
          best.precisionLeq other = some true := by
  refine ⟨fun c => ?_, ?_, fun aInterval bInterval => ?_, fun first rest intervals => ?_⟩
  · obtain ⟨answer, computed, iff⟩ := precisionLeq_means (fromConcrete_means c) aValid.means
    rw [computed, Option.some_inj, Bool.eq_iff_iff, iff, contains_iff aValid.means]
  · obtain ⟨path, computed, pathMeans⟩ := andThen_means aValid.means bValid.means
    refine ⟨path, computed, pathMeans.1, ?_, ?_⟩
    · intro c d inA inB
      rw [contains_iff pathMeans, Fidelity.point_compose]
      exact Meaning.andThen_mono ((contains_iff aValid.means c).mp inA)
        ((contains_iff bValid.means d).mp inB)
    · intro a' b' aValid' bValid' aLe bLe
      obtain ⟨path', computed', pathMeans'⟩ := andThen_means aValid'.means bValid'.means
      refine ⟨path', computed', (precisionLeq_iff pathMeans pathMeans').mpr ?_⟩
      exact Meaning.andThen_mono ((precisionLeq_iff aValid.means aValid'.means).mp aLe)
        ((precisionLeq_iff bValid.means bValid'.means).mp bLe)
  · obtain ⟨aBounds, aMeans⟩ := aInterval.means aValid
    obtain ⟨bBounds, bMeans⟩ := bInterval.means bValid
    obtain ⟨joined, computed, joinedMeans⟩ := joinPaths_means aMeans bMeans
    refine ⟨joined, computed, joinedMeans.1, ?_, ?_, ?_⟩
    · exact (precisionLeq_iff aMeans joinedMeans).mpr (Sum.inl_le_inl_iff.mpr le_sup_left)
    · exact (precisionLeq_iff bMeans joinedMeans).mpr (Sum.inl_le_inl_iff.mpr le_sup_right)
    · intro upper valid aLe bLe
      have aBelow := (precisionLeq_iff aMeans valid.means).mp aLe
      have bBelow := (precisionLeq_iff bMeans valid.means).mp bLe
      rw [precisionLeq_iff joinedMeans valid.means]
      cases meant : upper.meaning valid with
      | inl bounds =>
        rw [meant, Sum.inl_le_inl_iff] at aBelow bBelow
        exact Sum.inl_le_inl_iff.mpr (sup_le aBelow bBelow)
      | inr sentinel =>
        rw [meant] at aBelow
        exact absurd aBelow Sum.not_inl_le_inr
  · obtain ⟨firstInterval, restIntervals⟩ := List.forall_mem_cons.mp intervals
    obtain ⟨valid, same⟩ := fromConcrete_means first
    obtain ⟨bounds, means⟩ := firstInterval.means valid
    obtain ⟨best, bestBounds, computed, bestMeans, least⟩ := joinPoints_means means restIntervals
    have point : Meaning.point first.meaning = .inl bounds := same.symm.trans means.2
    have least (meant : Meaning) : .inl bestBounds ≤ meant ↔
        ∀ outcome ∈ first :: rest, .point outcome.meaning ≤ meant := by
      rw [least meant, List.forall_mem_cons, point]
    refine ⟨best, computed, bestMeans.1, ?_, ?_⟩
    · intro outcome member
      exact (contains_iff bestMeans outcome).mpr ((least _).mp (le_refl _) outcome member)
    · intro other otherValid contains
      refine (precisionLeq_iff bestMeans otherValid.means).mpr ((least _).mpr fun outcome member => ?_)
      exact (contains_iff otherValid.means outcome).mp (contains outcome member)

/-- A loss of precision that is only possible, followed by a definite loss of the type tag. -/
theorem possible_then_definite_loss :
    let precision : FidelityLossSet := ⟨{.numericPrecision}, singleton_nonempty _⟩
    let tag : FidelityLossSet := ⟨{.typeTag}, singleton_nonempty _⟩
    (structural none precision).Valid ∧ (structural (some tag) tag).Valid ∧
      ∃ path, (structural none precision).andThen (structural (some tag) tag) = some path ∧
        path.concretizationContains (.structural tag) = true := by
  intro precision tag
  have tagValid : (structural (some tag) tag).Valid := valid_structural.mpr (Finset.Subset.refl _)
  obtain ⟨-, ⟨path, computed, -, contains, -⟩, -⟩ :=
    assessments_describe_outcomes (a := structural none precision) rfl tagValid
  refine ⟨rfl, tagValid, path, computed, contains .lossless (.structural tag) rfl ?_⟩
  exact (contains_iff tagValid.means _).mpr (le_refl _)

end FidelityAssessmentV2

end Ostadix.Value
