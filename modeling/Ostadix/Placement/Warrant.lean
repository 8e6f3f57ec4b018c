import Ostadix.Fabric.Binding

/-! # Discharging a footprint with warrants

`WarrantDischargeV1::validate` accepts a placement when every atom of the footprint is matched with
one static and one target warrant and no applicable warrant rejects it. -/

namespace Ostadix.Placement

open Ostadix.Lib Ostadix.Fabric List

/-! ## Requirements -/

structure CapabilityKeyV1 where
  namespaceName : String
  name : String
deriving DecidableEq

structure CapabilityAtomV1 where
  key : CapabilityKeyV1
  level : UInt32
  nonzero : level ≠ 0
deriving DecidableEq

inductive EndiannessV1
  | little
  | big
deriving DecidableEq

inductive EnvironmentRequirementV1
  | stateless
  | ephemeral
  | sameLogicalEnvironment (identity : SemanticDigestV1)
  | sameActorGeneration (identity : SemanticDigestV1)
deriving DecidableEq

inductive EffectRequirementV1
  | compilerVerifiedPure
  | compilerVerifiedIdempotent
  | autonomousUnknownEffects
deriving DecidableEq

inductive ResourceKindV1
  | cpuSlots
  | memoryBytes
  | scratchBytes
deriving DecidableEq

inductive RequirementAtomV1
  | capability (atom : CapabilityAtomV1)
  | backendSpecification (value : SemanticDigestV1)
  | backendImplementation (value : SemanticDigestV1)
  | operatingSystem (value : String)
  | architecture (value : String)
  | abi (value : String)
  | endianness (value : EndiannessV1)
  | minimumPointerWidth (value : UInt16)
  | portableValueKind (value : String)
  | preservation (value : String)
  | environment (value : EnvironmentRequirementV1)
  | effect (value : EffectRequirementV1)
  | resourceMinimum (resource : ResourceKindV1) (amount : UInt64)
deriving DecidableEq

def EndiannessV1.debug : EndiannessV1 → String
  | little => "Little"
  | big => "Big"

def EnvironmentRequirementV1.debug : EnvironmentRequirementV1 → String
  | stateless => "Stateless"
  | ephemeral => "Ephemeral"
  | sameLogicalEnvironment identity =>
      "SameLogicalEnvironment \x7b identity: SemanticDigestV1(\"" ++ identity.text ++ "\") \x7d"
  | sameActorGeneration identity =>
      "SameActorGeneration \x7b identity: SemanticDigestV1(\"" ++ identity.text ++ "\") \x7d"

def EffectRequirementV1.debug : EffectRequirementV1 → String
  | compilerVerifiedPure => "CompilerVerifiedPure"
  | compilerVerifiedIdempotent => "CompilerVerifiedIdempotent"
  | autonomousUnknownEffects => "AutonomousUnknownEffects"

def ResourceKindV1.debug : ResourceKindV1 → String
  | cpuSlots => "CpuSlots"
  | memoryBytes => "MemoryBytes"
  | scratchBytes => "ScratchBytes"

def RequirementAtomV1.label : RequirementAtomV1 → String
  | capability atom => s!"capability:{atom.key.namespaceName}/{atom.key.name}@{atom.level}"
  | backendSpecification value => s!"backend-spec:{value.text}"
  | backendImplementation value => s!"backend-implementation:{value.text}"
  | operatingSystem value => s!"os:{value}"
  | architecture value => s!"arch:{value}"
  | abi value => s!"abi:{value}"
  | endianness value => s!"endian:{value.debug}"
  | minimumPointerWidth value => s!"pointer-width>={value}"
  | portableValueKind value => s!"portable-value:{value}"
  | preservation value => s!"preserves:{value}"
  | environment value => s!"environment:{value.debug}"
  | effect value => s!"effect:{value.debug}"
  | resourceMinimum resource amount => s!"resource:{resource.debug}>={amount}"

/-- What `validate` can answer. `panicked` is the message of its `expect`. -/
inductive PlacementValidationError
  | notYetValid (record : String)
  | expired (record : String)
  | unauthenticated (record : String)
  | scopeMismatch (field expected got : String)
  | conservativeUnknown (reasons : List String)
  | unsatisfiable (reasons : List String)
  | missingWarrant (id : String)
  | missingDischarge (requirement : String)
  | extraneousDischarge (requirement : String)
  | warrantAssertionMismatch (requirement : String)
  | warrantTierNotAllowed (tier : String)
  | negativeVeto (requirement : String)
  | canonicalSerialization (message : String)
  | duplicate (kind value : String)
  | panicked (message : String)
deriving DecidableEq

/-- The sets are listed in their own order. -/
inductive RequirementFootprintV1
  | complete (atoms : List RequirementAtomV1)
  | conservativeUnknown (knownAtoms : List RequirementAtomV1) (reasons : List String)
  | unsatisfiable (knownAtoms : List RequirementAtomV1) (reasons : List String)

def RequirementFootprintV1.knownAtoms : RequirementFootprintV1 → List RequirementAtomV1
  | complete atoms => atoms
  | conservativeUnknown knownAtoms _ => knownAtoms
  | unsatisfiable knownAtoms _ => knownAtoms

def RequirementFootprintV1.requireComplete :
    RequirementFootprintV1 → Except PlacementValidationError (List RequirementAtomV1)
  | complete atoms => .ok atoms
  | conservativeUnknown _ reasons => .error (.conservativeUnknown reasons)
  | unsatisfiable _ reasons => .error (.unsatisfiable reasons)

/-! ## Warrants -/

inductive WarrantTierV1
  | staticFootprint
  | runtimeDiscovered
  | providerDeclared
  | historicalObservation
deriving DecidableEq

def WarrantTierV1.text : WarrantTierV1 → String
  | staticFootprint => "StaticFootprint"
  | runtimeDiscovered => "RuntimeDiscovered"
  | providerDeclared => "ProviderDeclared"
  | historicalObservation => "HistoricalObservation"

structure PlacementTrustPolicyV1 where
  allowProviderDeclaredPositive : Bool
  allowHistoricalPositive : Bool

def PlacementTrustPolicyV1.allowsPositive (policy : PlacementTrustPolicyV1) : WarrantTierV1 → Bool
  | .runtimeDiscovered => true
  | .providerDeclared => policy.allowProviderDeclaredPositive
  | .historicalObservation => policy.allowHistoricalPositive
  | .staticFootprint => false

@[ext]
structure ArtifactId where
  sha256 : String
  valid : isLowerHex 32 sha256 = true

instance : DecidableEq ArtifactId := fun _ _ =>
  decidable_of_iff' _ ArtifactId.ext_iff

structure WarrantScopeV1 where
  operationOir : Option ArtifactId
  targetDescriptor : Option SemanticDigestV1
  backendImplementation : Option SemanticDigestV1
  realizationPipeline : Option SemanticDigestV1
  inputEquivalenceClass : Option SemanticDigestV1
deriving DecidableEq

/-- `compare_optional` and `compare_optional_artifact`, which differ in the digest they render. -/
def compareOptional {δ : Type} [DecidableEq δ] (render : δ → String) (field : String) :
    Option δ → Option δ → Except PlacementValidationError Unit
  | none, _ => .ok ()
  | some asserted, some exact =>
      bailIf (asserted != exact) (.scopeMismatch field (render exact) (render asserted))
  | some _, none => .error (.scopeMismatch field "present" "missing")

def WarrantScopeV1.covers (scope exact : WarrantScopeV1) : Except PlacementValidationError Unit := do
  compareOptional ArtifactId.sha256 "warrant operation" scope.operationOir exact.operationOir
  compareOptional SemanticDigestV1.text "warrant target descriptor"
    scope.targetDescriptor exact.targetDescriptor
  compareOptional SemanticDigestV1.text "warrant backend implementation"
    scope.backendImplementation exact.backendImplementation
  compareOptional SemanticDigestV1.text "warrant realization pipeline"
    scope.realizationPipeline exact.realizationPipeline
  compareOptional SemanticDigestV1.text "warrant input equivalence class"
    scope.inputEquivalenceClass exact.inputEquivalenceClass

def WarrantScopeV1.isExact (scope : WarrantScopeV1) : Bool :=
  scope.operationOir.isSome && scope.targetDescriptor.isSome &&
    scope.backendImplementation.isSome && scope.realizationPipeline.isSome &&
    scope.inputEquivalenceClass.isSome

inductive WarrantAssertionV1
  | operationRequires (requirement : RequirementAtomV1)
  | targetSupports (requirement : RequirementAtomV1)
  | targetRejects (requirement : RequirementAtomV1)
deriving DecidableEq

def WarrantAssertionV1.isOperationRequires : WarrantAssertionV1 → Bool
  | operationRequires _ => true
  | _ => false

/-- The window that `validate_target_warrant_shape` and `validate_window` ask for. -/
def shortLived (issuedAt maximumMs : UInt64) : Option UInt64 → Bool
  | none => false
  | some expiresAt => issuedAt < expiresAt && expiresAt - issuedAt ≤ maximumMs

/-- The checks of `PlacementWarrantV1::new`. -/
def wellShaped (scope : WarrantScopeV1) (assertion : WarrantAssertionV1)
    (observationCount : Option UInt32) (issuedAt : UInt64) (expiresAt : Option UInt64) :
    WarrantTierV1 → Bool
  | .staticFootprint =>
      assertion.isOperationRequires && scope.operationOir.isSome && expiresAt.isNone &&
        observationCount.isNone
  | .runtimeDiscovered =>
      scope.targetDescriptor.isSome && !assertion.isOperationRequires && observationCount.isNone &&
        shortLived issuedAt 60000 expiresAt
  | .providerDeclared =>
      scope.targetDescriptor.isSome && !assertion.isOperationRequires && observationCount.isNone &&
        shortLived issuedAt (5 * 60000) expiresAt
  | .historicalObservation =>
      scope.targetDescriptor.isSome && !assertion.isOperationRequires &&
        shortLived issuedAt (24 * 60 * 60000) expiresAt && scope.isExact &&
        3 ≤ observationCount.getD 0

structure PlacementWarrantV1 where
  issuerKey : SemanticDigestV1
  tier : WarrantTierV1
  scope : WarrantScopeV1
  assertion : WarrantAssertionV1
  observationCount : Option UInt32
  issuedAt : UInt64
  expiresAt : Option UInt64
  shaped : wellShaped scope assertion observationCount issuedAt expiresAt tier = true

structure RecordAuthenticationV1 where
  recordKind : String
  issuerKey : SemanticDigestV1
  recordDigest : SemanticDigestV1

structure DischargedRequirementV1 where
  staticWarrant : SemanticDigestV1
  targetWarrant : SemanticDigestV1

/-- The map is listed in the order of its keys. -/
structure WarrantDischargeV1 where
  exactScope : WarrantScopeV1
  entries : List (RequirementAtomV1 × DischargedRequirementV1)
  exact : exactScope.isExact = true
  distinct : (entries.map Prod.fst).Nodup

def validateFresh (record : String) (issuedAt expiresAt now : UInt64) :
    Except PlacementValidationError Unit := do
  bailIf (now < issuedAt) (.notYetValid record)
  bailIf (expiresAt ≤ now) (.expired record)

section Validate

-- `semantic_digest`: SHA-256 of the serialized warrant
variable (digest : PlacementWarrantV1 → Except PlacementValidationError SemanticDigestV1)

def PlacementWarrantV1.validateAt (warrant : PlacementWarrantV1) (now : UInt64)
    (authenticate : RecordAuthenticationV1 → Bool) : Except PlacementValidationError Unit := do
  bailIf (now < warrant.issuedAt) (.notYetValid "placement warrant")
  if let some expiresAt := warrant.expiresAt then
    validateFresh "placement warrant" warrant.issuedAt expiresAt now
  let id ← digest warrant
  bailIf (!authenticate ⟨"placement warrant", warrant.issuerKey, id⟩)
    (.unauthenticated "placement warrant")

def PlacementWarrantV1.isCurrentAndAuthenticated (warrant : PlacementWarrantV1) (now : UInt64)
    (authenticate : RecordAuthenticationV1 → Bool) : Bool :=
  (warrant.validateAt digest now authenticate).isOk

/-- The loop that fills `by_id`. -/
def indexWarrants : List PlacementWarrantV1 → List (SemanticDigestV1 × PlacementWarrantV1) →
    Except PlacementValidationError (List (SemanticDigestV1 × PlacementWarrantV1))
  | [], byId => .ok byId
  | warrant :: warrants, byId => do
      let id ← digest warrant
      bailIf (byId.lookup id).isSome (.duplicate "placement warrant" id.text)
      indexWarrants warrants ((id, warrant) :: byId)

namespace WarrantDischargeV1

variable (discharge : WarrantDischargeV1) (footprint : RequirementFootprintV1)
  (warrants : List PlacementWarrantV1) (policy : PlacementTrustPolicyV1) (now : UInt64)
  (authenticate : RecordAuthenticationV1 → Bool)

/-- One turn of the last loop of `validate`. -/
def validateRequirement (byId : List (SemanticDigestV1 × PlacementWarrantV1))
    (requirement : RequirementAtomV1) : Except PlacementValidationError Unit := do
  bailIf (warrants.any fun warrant =>
      warrant.assertion == .targetRejects requirement &&
        (warrant.scope.covers discharge.exactScope).isOk &&
        warrant.isCurrentAndAuthenticated digest now authenticate)
    (.negativeVeto requirement.label)
  let entry ← okOr (discharge.entries.lookup requirement) (.panicked "exact key checked")
  let staticWarrant ← okOr (byId.lookup entry.staticWarrant)
    (.missingWarrant entry.staticWarrant.text)
  staticWarrant.validateAt digest now authenticate
  staticWarrant.scope.covers discharge.exactScope
  bailIf (staticWarrant.tier != .staticFootprint ||
      staticWarrant.assertion != .operationRequires requirement)
    (.warrantAssertionMismatch requirement.label)
  let targetWarrant ← okOr (byId.lookup entry.targetWarrant)
    (.missingWarrant entry.targetWarrant.text)
  targetWarrant.validateAt digest now authenticate
  targetWarrant.scope.covers discharge.exactScope
  bailIf (!policy.allowsPositive targetWarrant.tier)
    (.warrantTierNotAllowed targetWarrant.tier.text)
  bailIf (targetWarrant.assertion != .targetSupports requirement)
    (.warrantAssertionMismatch requirement.label)

def validate : Except PlacementValidationError Unit := do
  let requirements ← footprint.requireComplete
  requirements.forM fun requirement =>
    bailIf (!(discharge.entries.map Prod.fst).contains requirement)
      (.missingDischarge requirement.label)
  (discharge.entries.map Prod.fst).forM fun requirement =>
    bailIf (!requirements.contains requirement) (.extraneousDischarge requirement.label)
  let byId ← indexWarrants digest warrants []
  requirements.forM (discharge.validateRequirement digest warrants policy now authenticate byId)

/-! ## What is accepted -/

/-- The scope of the warrant covers the exact scope, and it is current and authenticated. -/
def Applies (warrant : PlacementWarrantV1) : Prop :=
  warrant.scope.covers discharge.exactScope = .ok () ∧
    warrant.validateAt digest now authenticate = .ok ()

/-- An applicable warrant rejects the capability at this level. -/
def RejectedAt (atom : CapabilityAtomV1) : Prop :=
  ∃ warrant ∈ warrants, discharge.Applies digest now authenticate warrant ∧
    warrant.assertion = .targetRejects (.capability atom)

/-- Each atom has its two warrants in the list, and none that rejects exactly it. -/
structure Discharged : Prop where
  complete : ∃ atoms, footprint = .complete atoms
  covered : ∀ atom, atom ∈ footprint.knownAtoms ↔ atom ∈ discharge.entries.map Prod.fst
  identified : ∀ warrant ∈ warrants, ∃ id, digest warrant = .ok id
  distinct : warrants.Pairwise fun first second => digest first ≠ digest second
  free : ∀ atom ∈ footprint.knownAtoms, ∀ warrant ∈ warrants,
    discharge.Applies digest now authenticate warrant → warrant.assertion ≠ .targetRejects atom
  required : ∀ atom ∈ footprint.knownAtoms, ∀ entry, discharge.entries.lookup atom = some entry →
    ∃ warrant ∈ warrants, digest warrant = .ok entry.staticWarrant ∧
      discharge.Applies digest now authenticate warrant ∧ warrant.tier = .staticFootprint ∧
      warrant.assertion = .operationRequires atom
  supported : ∀ atom ∈ footprint.knownAtoms, ∀ entry, discharge.entries.lookup atom = some entry →
    ∃ warrant ∈ warrants, digest warrant = .ok entry.targetWarrant ∧
      discharge.Applies digest now authenticate warrant ∧
      policy.allowsPositive warrant.tier = true ∧ warrant.assertion = .targetSupports atom

end WarrantDischargeV1

end Validate

variable {digest : PlacementWarrantV1 → Except PlacementValidationError SemanticDigestV1}
  {ws : List PlacementWarrantV1} {acc m : List (SemanticDigestV1 × PlacementWarrantV1)}

theorem isOk_eq_true {ε : Type} {r : Except ε Unit} : r.isOk = true ↔ r = .ok () := by
  cases r <;> simp [Except.isOk, Except.toBool]

theorem indexWarrants_ok (h : indexWarrants digest ws acc = .ok m) :
    (∀ w ∈ ws, ∃ id, digest w = .ok id ∧ acc.lookup id = none) ∧
      (ws.Pairwise fun first x2 => digest first ≠ digest x2) ∧
      ∀ id w, m.lookup id = some w ↔ acc.lookup id = some w ∨ w ∈ ws ∧ digest w = .ok id := by
  induction ws generalizing acc with
  | nil =>
    cases h
    simp
  | cons w ws ih =>
    simp only [indexWarrants, bind_eq_ok, bailIf_eq_ok, exists_unit] at h
    obtain ⟨id, hid, hnew, h⟩ := h
    obtain ⟨hids, hp, hm⟩ := ih h
    have hne (v : PlacementWarrantV1) (hv : v ∈ ws) : digest w ≠ digest v := by
      obtain ⟨o, ho, hl⟩ := hids v hv
      rw [hid, ho]
      rintro ⟨⟩
      simp at hl
    refine ⟨?_, pairwise_cons.mpr ⟨hne, hp⟩, fun k v => ?_⟩
    · simp only [forall_mem_cons]
      refine ⟨⟨id, hid, by simpa using hnew⟩, fun v hv => ?_⟩
      obtain ⟨o, ho, hl⟩ := hids v hv
      refine ⟨o, ho, ?_⟩
      rw [lookup_cons] at hl
      split at hl
      · cases hl
      · exact hl
    · rw [hm, lookup_cons, mem_cons]
      by_cases hk : k = id
      · simp only [Option.isSome_eq_false_iff, Option.isNone_iff_eq_none] at hnew
        subst hk
        grind
      · have : digest w ≠ .ok k := by
          rw [hid]
          rintro ⟨⟩
          exact hk rfl
        grind

theorem exists_indexWarrants (hids : ∀ w ∈ ws, ∃ id, digest w = .ok id ∧ acc.lookup id = none)
    (hp : ws.Pairwise fun first x2 => digest first ≠ digest x2) :
    ∃ m, indexWarrants digest ws acc = .ok m := by
  induction ws generalizing acc with
  | nil => exact ⟨acc, rfl⟩
  | cons w ws ih =>
    obtain ⟨⟨id, hid, hl⟩, hids⟩ := forall_mem_cons.mp hids
    obtain ⟨hne, hp⟩ := pairwise_cons.mp hp
    have hids' (v : PlacementWarrantV1) (hv : v ∈ ws) :
        ∃ o, digest v = .ok o ∧ ((id, w) :: acc).lookup o = none := by
      obtain ⟨o, ho, hl⟩ := hids v hv
      have : o ≠ id := by
        rintro rfl
        exact hne v hv (hid.trans ho.symm)
      exact ⟨o, ho, by rw [lookup_cons, beq_false_of_ne this, hl]⟩
    obtain ⟨m, hm⟩ := ih hids' hp
    exact ⟨m, by simpa [indexWarrants, hid, hl, bailIf] using hm⟩

namespace WarrantDischargeV1

variable {discharge : WarrantDischargeV1} {footprint : RequirementFootprintV1}
  {policy : PlacementTrustPolicyV1} {now : UInt64} {authenticate : RecordAuthenticationV1 → Bool}

theorem validateRequirement_eq_ok {atom : RequirementAtomV1}
    (hm : ∀ id w, m.lookup id = some w ↔ w ∈ ws ∧ digest w = .ok id) :
    discharge.validateRequirement digest ws policy now authenticate m atom = .ok () ↔
      (∀ w ∈ ws, discharge.Applies digest now authenticate w → w.assertion ≠ .targetRejects atom) ∧
      ∃ e, discharge.entries.lookup atom = some e ∧
        (∃ w ∈ ws, digest w = .ok e.staticWarrant ∧ discharge.Applies digest now authenticate w ∧
          w.tier = .staticFootprint ∧ w.assertion = .operationRequires atom) ∧
        ∃ w ∈ ws, digest w = .ok e.targetWarrant ∧ discharge.Applies digest now authenticate w ∧
          policy.allowsPositive w.tier = true ∧ w.assertion = .targetSupports atom := by
  simp only [validateRequirement, bind_eq_ok, bailIf_eq_ok, exists_unit, okOr_eq_ok, hm,
    any_eq_false, Bool.and_eq_true, isOk_eq_true, PlacementWarrantV1.isCurrentAndAuthenticated,
    Applies, beq_iff_eq, Bool.or_eq_false_iff, bne_eq_false_iff_eq, Bool.not_eq_false']
  refine and_congr ⟨fun h w hw ha he => h w hw ⟨⟨he, ha.1⟩, ha.2⟩,
    fun h w hw ha => h w hw ⟨ha.1.2, ha.2⟩ ha.1.1⟩ (exists_congr fun e => and_congr_right fun _ => ?_)
  constructor
  · rintro ⟨w, ⟨hw, hid⟩, hv, hc, ⟨ht, ha⟩, u, ⟨hu, huid⟩, huv, huc, hut, hua⟩
    exact ⟨⟨w, hw, hid, ⟨hc, hv⟩, ht, ha⟩, u, hu, huid, ⟨huc, huv⟩, hut, hua⟩
  · rintro ⟨⟨w, hw, hid, ⟨hc, hv⟩, ht, ha⟩, u, hu, huid, ⟨huc, huv⟩, hut, hua⟩
    exact ⟨w, ⟨hw, hid⟩, hv, hc, ⟨ht, ha⟩, u, ⟨hu, huid⟩, huv, huc, hut, hua⟩

theorem validate_eq_ok : discharge.validate digest footprint ws policy now authenticate = .ok () ↔
    discharge.Discharged digest footprint ws policy now authenticate := by
  constructor
  · intro h
    simp only [validate, bind_eq_ok, forM_eq_ok, exists_unit, bailIf_eq_ok, Bool.not_eq_false',
      contains_iff_mem] at h
    obtain ⟨atoms, hf, hin, hout, m, hm, h⟩ := h
    obtain rfl : footprint = .complete atoms := by
      cases footprint <;> cases hf
      rfl
    obtain ⟨hids, hp, hm⟩ := indexWarrants_ok hm
    simp only [lookup_nil, reduceCtorEq, false_or] at hm
    have hreq (atom : RequirementAtomV1) (ha : atom ∈ atoms) :=
      (validateRequirement_eq_ok hm).mp (h atom ha)
    refine ⟨⟨atoms, rfl⟩, fun atom => ⟨hin atom, hout atom⟩, ?_, hp, fun atom ha => (hreq atom ha).1,
      ?_, ?_⟩
    · exact fun w hw => (hids w hw).imp fun _ hid => hid.1
    · intro atom ha ent he
      obtain ⟨-, _, he', hs, -⟩ := hreq atom ha
      cases he.symm.trans he'
      exact hs
    · intro atom ha ent he
      obtain ⟨-, _, he', -, ht⟩ := hreq atom ha
      cases he.symm.trans he'
      exact ht
  · rintro ⟨⟨atoms, rfl⟩, hc, hids, hp, hfree, hs, ht⟩
    obtain ⟨m, hm⟩ := exists_indexWarrants
      (fun w hw => (hids w hw).imp fun _ hid => ⟨hid, lookup_nil⟩) hp
    have hl := (indexWarrants_ok hm).2.2
    simp only [lookup_nil, reduceCtorEq, false_or] at hl
    simp only [validate, bind_eq_ok, forM_eq_ok, exists_unit, bailIf_eq_ok, Bool.not_eq_false',
      contains_iff_mem]
    refine ⟨atoms, rfl, fun atom => (hc atom).mp, fun atom => (hc atom).mpr, m, hm, fun atom ha => ?_⟩
    obtain ⟨e, he, hk⟩ := mem_map.mp ((hc atom).mp ha)
    obtain ⟨ent, hentry⟩ := Option.ne_none_iff_exists'.mp fun hn : discharge.entries.lookup atom = none =>
      by simpa [hk] using lookup_eq_none_iff.mp hn e he
    refine (validateRequirement_eq_ok hl).mpr ⟨hfree atom ha, ent, hentry, ?_, ?_⟩
    · exact hs atom ha ent hentry
    · exact ht atom ha ent hentry

theorem Discharged.of_perm {us : List PlacementWarrantV1} (hp : ws.Perm us)
    (h : discharge.Discharged digest footprint ws policy now authenticate) :
    discharge.Discharged digest footprint us policy now authenticate := by
  have hmem (w : PlacementWarrantV1) : w ∈ us ↔ w ∈ ws := hp.mem_iff.symm
  refine ⟨h.complete, h.covered, ?_, (hp.pairwise_iff fun hne => hne.symm).mp h.distinct, ?_, ?_, ?_⟩
  · simpa only [hmem] using h.identified
  · simpa only [hmem] using h.free
  · simpa only [hmem] using h.required
  · simpa only [hmem] using h.supported

/-- Whether the list is accepted does not depend on its order. An applicable rejection is a veto
exactly if there is none below a level that is required, or the discharge fails anyway. -/
theorem validate_veto_iff
    (digest : PlacementWarrantV1 → Except PlacementValidationError SemanticDigestV1)
    (discharge : WarrantDischargeV1) (footprint : RequirementFootprintV1)
    (warrants : List PlacementWarrantV1) (policy : PlacementTrustPolicyV1) (now : UInt64)
    (authenticate : RecordAuthenticationV1 → Bool) :
    (∀ listed, listed.Perm warrants →
      ((discharge.validate digest footprint listed policy now authenticate).isOk =
        (discharge.validate digest footprint warrants policy now authenticate).isOk)) ∧
    ((∀ rejected required, discharge.RejectedAt digest warrants now authenticate rejected →
        .capability required ∈ footprint.knownAtoms → rejected.key = required.key →
        rejected.level ≤ required.level →
        (discharge.validate digest footprint warrants policy now authenticate).isOk = false) ↔
      (discharge.Discharged digest footprint warrants policy now authenticate →
        ¬∃ rejected required, discharge.RejectedAt digest warrants now authenticate rejected ∧
          .capability required ∈ footprint.knownAtoms ∧ rejected.key = required.key ∧
          rejected.level < required.level)) := by
  have hok : (discharge.validate digest footprint warrants policy now authenticate).isOk = false ↔
      ¬discharge.Discharged digest footprint warrants policy now authenticate := by
    rw [← Bool.not_eq_true, isOk_eq_true, validate_eq_ok]
  refine ⟨fun listed hp => ?_, ?_⟩
  · rw [Bool.eq_iff_iff, isOk_eq_true, isOk_eq_true, validate_eq_ok, validate_eq_ok]
    exact ⟨.of_perm hp, .of_perm hp.symm⟩
  · simp only [hok]
    constructor
    · rintro h hd ⟨rejected, required, hr, hm, hk, hlt⟩
      exact h rejected required hr hm hk (UInt32.le_of_lt hlt) hd
    · intro h rejected required hr hm hk hle hd
      obtain heq | hlt := UInt32.le_iff_lt_or_eq.mp hle |>.symm
      · -- the same level: the rejection is of the atom itself
        obtain ⟨w, hw, ha, hassert⟩ := hr
        obtain rfl : rejected = required := by
          cases rejected
          cases required
          cases hk
          cases heq
          rfl
        exact hd.free _ hm w hw ha hassert
      · exact h hd ⟨rejected, required, hr, hm, hk, hlt⟩

/-! ## A rejected level below the required one -/

section Sample

def hexDigest (digit : Char) (h : isLowerHex 32 (String.ofList (replicate 64 digit)) = true) :
    SemanticDigestV1 :=
  ⟨String.ofList (replicate 64 digit), h⟩

def zeros : SemanticDigestV1 := hexDigest '0' (by decide)

def sampleScope : WarrantScopeV1 :=
  ⟨some ⟨zeros.text, zeros.valid⟩, some zeros, some zeros, some zeros, some zeros⟩

def vectorAt (level : UInt32) (nonzero : level ≠ 0) : CapabilityAtomV1 :=
  ⟨⟨"vector", "reduce-width-agnostic"⟩, level, nonzero⟩

def needed : CapabilityAtomV1 := vectorAt 2 (by decide)

def requires : PlacementWarrantV1 :=
  ⟨zeros, .staticFootprint, sampleScope, .operationRequires (.capability needed), none, 0, none,
    by decide⟩

def declares : PlacementWarrantV1 :=
  ⟨zeros, .providerDeclared, sampleScope, .targetSupports (.capability needed), none, 0, some 9,
    by decide⟩

def discovers : PlacementWarrantV1 :=
  ⟨zeros, .runtimeDiscovered, sampleScope, .targetRejects (.capability (vectorAt 1 (by decide))),
    none, 0, some 9, by decide⟩

def digestOfTier (warrant : PlacementWarrantV1) :
    Except PlacementValidationError SemanticDigestV1 :=
  match warrant.tier with
  | .staticFootprint => .ok zeros
  | .providerDeclared => .ok (hexDigest '1' (by decide))
  | _ => .ok (hexDigest '2' (by decide))

def sampleDischarge : WarrantDischargeV1 :=
  ⟨sampleScope, [(.capability needed, ⟨zeros, hexDigest '1' (by decide)⟩)], by decide, by decide⟩

/-- The target was found not to have level one, and level two is accepted on a declaration. -/
theorem validate_above_rejected :
    sampleDischarge.RejectedAt digestOfTier [requires, declares, discovers] 5 (fun _ => true)
      (vectorAt 1 (by decide)) ∧ (vectorAt 1 (by decide)).level < needed.level ∧
    sampleDischarge.validate digestOfTier (.complete [.capability needed])
      [requires, declares, discovers] ⟨true, false⟩ 5 (fun _ => true) = .ok () :=
  ⟨⟨discovers, by simp, ⟨rfl, rfl⟩, rfl⟩, by decide, rfl⟩

end Sample

end WarrantDischargeV1

end Ostadix.Placement
