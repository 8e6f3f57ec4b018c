import Mathlib.Data.String.Basic
import Ostadix.Fabric.Entry

/-! # Mesh actors

The records a mesh node exchanges and stores: actor coordinates and specs, statuses, the errors of
the protocol, and the checks each of them passes. -/

namespace Ostadix.Mesh

open Ostadix.Lib Ostadix.Fabric

/-! ## Errors -/

def maxHostedIdBytes : Nat := 128

def maxHostedErrorBytes : Nat := 8 * 1024

/-- The longest prefix of whole characters within `room` bytes. -/
def charsWithin : Nat → List Char → List Char
  | _, [] => []
  | room, character :: rest =>
      if character.utf8Size ≤ room then character :: charsWithin (room - character.utf8Size) rest
      else []

def truncateHostedErrorMessage (message : String) : String :=
  if maxHostedErrorBytes < message.utf8ByteSize then
    String.ofList (charsWithin maxHostedErrorBytes message.toList) ++ " [truncated]"
  else message

inductive MeshRejectionStageV1
  | preAdmission
  | postAdmissionOrUnknown
deriving DecidableEq

structure MeshProtocolErrorV1 where
  code : String
  message : String
  retryable : Bool
  stage : MeshRejectionStageV1
deriving DecidableEq

abbrev MeshNodeResult := Except MeshProtocolErrorV1

def meshError (code message : String) (retryable : Bool) : MeshProtocolErrorV1 :=
  ⟨code, truncateHostedErrorMessage message, retryable, .postAdmissionOrUnknown⟩

def meshPreAdmissionError (code message : String) (retryable : Bool) : MeshProtocolErrorV1 :=
  ⟨code, truncateHostedErrorMessage message, retryable, .preAdmission⟩

/-! ## Field checks -/

def validateIdentifier (field value : String) : Result Unit := do
  bailIf ((utf8Bytes value).isEmpty || maxHostedIdBytes < (utf8Bytes value).length)
    s!"{field} length must be between 1 and {maxHostedIdBytes} bytes"
  bailIf (value.toList.any isControl) s!"{field} contains a control character"

def validateSha256 (field value : String) : Result Unit :=
  bailIf (!isLowerHex 32 value) s!"{field} must be 64 lowercase hexadecimal characters"

/-- `windows(2)` in strictly ascending order. -/
def strictlySorted (values : List String) : Bool :=
  decide (values.Pairwise (· < ·))

def validateSortedLabels (field : String) (values : List String) : Result Unit := do
  values.forM (validateIdentifier field)
  bailIf (!strictlySorted values) s!"{field} values must be strictly sorted and unique"

/-! ## Coordinates and specs -/

structure MeshArtifactIdV1 where
  sha256 : String
  bytes : Nat
deriving DecidableEq

def MeshArtifactIdV1.validate (artifact : MeshArtifactIdV1) : Result Unit :=
  validateSha256 "artifact sha256" artifact.sha256

structure MeshChunkIdV1 where
  sha256 : String
  bytes : Nat
deriving DecidableEq

def maxMeshChunkBytes : Nat := 1024 * 1024

def maxMeshArtifactChunks : Nat := 32768

def MeshChunkIdV1.validate (chunk : MeshChunkIdV1) : Result Unit := do
  validateSha256 "chunk sha256" chunk.sha256
  bailIf (chunk.bytes == 0 || maxMeshChunkBytes < chunk.bytes)
    s!"chunk length {chunk.bytes} must be between 1 and {maxMeshChunkBytes}"

def validateArtifactManifest (artifact : MeshArtifactIdV1) (chunks : List MeshChunkIdV1) :
    Result Unit := do
  artifact.validate
  bailIf (maxMeshArtifactChunks < chunks.length)
    s!"artifact has {chunks.length} chunks; maximum is {maxMeshArtifactChunks}"
  chunks.forM MeshChunkIdV1.validate
  let total := (chunks.map MeshChunkIdV1.bytes).sum
  bailIf (total != artifact.bytes)
    s!"artifact declares {artifact.bytes} bytes but its chunks declare {total}"

structure MeshActorIdV1 where
  actorId : String
  generation : Nat
deriving DecidableEq

def MeshActorIdV1.validate (actor : MeshActorIdV1) : Result Unit := do
  validateIdentifier "actor id" actor.actorId
  bailIf (actor.generation == 0) "mesh actor generation must be greater than zero"

structure MeshActorRefV1 where
  actor : MeshActorIdV1
  specSha256 : String
deriving DecidableEq

def MeshActorRefV1.validate (actorRef : MeshActorRefV1) : Result Unit := do
  actorRef.actor.validate
  validateSha256 "mesh actor-reference spec sha256" actorRef.specSha256

inductive MeshEnvironmentPolicyV1
  | inheritAll
  | clear
  | allowList (names : List String)
deriving DecidableEq

inductive MeshProcessTreePolicyV1
  | ownedProcessGroup
  | leaderOnly
deriving DecidableEq

inductive MeshGuardBehaviorV1
  | enforce
  | skip
deriving DecidableEq

structure MeshExecutionLimitsV1 where
  wallClockTimeoutMs : Nat
  terminationGracePeriodMs : Nat
  maxRetainedStdoutBytes : Nat
  maxRetainedStderrBytes : Nat
  maxRoutesPerSelection : Nat
  maxSelectionRetainedOutputBytes : Nat
  maxArtifactCount : Nat
  maxArtifactScanEntries : Nat
  maxAggregateArtifactBytes : Nat
  maxSingleArtifactBytes : Nat
  environmentPolicy : MeshEnvironmentPolicyV1
  processTreePolicy : MeshProcessTreePolicyV1
  guardBehavior : MeshGuardBehaviorV1
deriving DecidableEq

namespace MeshExecutionLimitsV1

/-- On a 64-bit Unix node, where every length fits `usize`. -/
def validate (limits : MeshExecutionLimitsV1) : Result Unit := do
  bailIf (limits.wallClockTimeoutMs == 0 || limits.terminationGracePeriodMs == 0)
    "mesh execution timeouts must be nonzero"
  bailIf (limits.maxRoutesPerSelection == 0 ||
      limits.maxArtifactScanEntries < limits.maxArtifactCount ||
      limits.maxAggregateArtifactBytes < limits.maxSingleArtifactBytes)
    "mesh execution limits are internally inconsistent"
  match limits.environmentPolicy with
  | .allowList names => do
      bailIf (!strictlySorted names)
        "mesh environment allow-list must be strictly sorted and unique"
      names.forM (validateIdentifier "environment allow-list name")
  | .inheritAll | .clear => .ok ()

end MeshExecutionLimitsV1

def meshEnvironmentPolicyFits : MeshEnvironmentPolicyV1 → MeshEnvironmentPolicyV1 → Bool
  | .clear, _ => true
  | .inheritAll, .inheritAll => true
  | .allowList _, .inheritAll => true
  | .allowList requested, .allowList ceiling => requested.all ceiling.contains
  | _, _ => false

def MeshExecutionLimitsV1.fitsWithin (limits ceiling : MeshExecutionLimitsV1) : Bool :=
  limits.validate.toBool && ceiling.validate.toBool &&
    limits.wallClockTimeoutMs ≤ ceiling.wallClockTimeoutMs &&
    limits.terminationGracePeriodMs ≤ ceiling.terminationGracePeriodMs &&
    limits.maxRetainedStdoutBytes ≤ ceiling.maxRetainedStdoutBytes &&
    limits.maxRetainedStderrBytes ≤ ceiling.maxRetainedStderrBytes &&
    limits.maxRoutesPerSelection ≤ ceiling.maxRoutesPerSelection &&
    limits.maxSelectionRetainedOutputBytes ≤ ceiling.maxSelectionRetainedOutputBytes &&
    limits.maxArtifactCount ≤ ceiling.maxArtifactCount &&
    limits.maxArtifactScanEntries ≤ ceiling.maxArtifactScanEntries &&
    limits.maxAggregateArtifactBytes ≤ ceiling.maxAggregateArtifactBytes &&
    limits.maxSingleArtifactBytes ≤ ceiling.maxSingleArtifactBytes &&
    meshEnvironmentPolicyFits limits.environmentPolicy ceiling.environmentPolicy &&
    limits.processTreePolicy == ceiling.processTreePolicy &&
    limits.guardBehavior == ceiling.guardBehavior

structure MeshResourceFootprintV1 where
  actorSlots : Nat
  minMemoryBytes : Nat
  minGpuDevices : Nat
  requiredBackends : List String
  projectIrBytes : Nat
  bundleStorageBytes : Nat
deriving DecidableEq

def MeshResourceFootprintV1.validate (resources : MeshResourceFootprintV1)
    (bundle : MeshArtifactIdV1) : Result Unit := do
  bailIf (resources.actorSlots != 1 || resources.bundleStorageBytes < bundle.bytes)
    "mesh resource footprint has invalid actor-slot/CAS bounds"
  validateSortedLabels "required mesh backend" resources.requiredBackends

structure MeshRouteRequirementsV1 where
  bundle : MeshArtifactIdV1
  routeId : String
  logicalGraphSha256 : String
  routeContractSha256 : String
  resources : MeshResourceFootprintV1
  executionLimits : MeshExecutionLimitsV1
deriving DecidableEq

def MeshRouteRequirementsV1.validate (requirements : MeshRouteRequirementsV1) : Result Unit := do
  requirements.bundle.validate
  validateIdentifier "route id" requirements.routeId
  validateSha256 "logical graph sha256" requirements.logicalGraphSha256
  validateSha256 "route contract sha256" requirements.routeContractSha256
  requirements.resources.validate requirements.bundle
  requirements.executionLimits.validate

structure MeshActorSpecV1 where
  actor : MeshActorIdV1
  targetNodeId : String
  bundle : MeshArtifactIdV1
  routeId : String
  logicalGraphSha256 : String
  routeContractSha256 : String
  resources : MeshResourceFootprintV1
  executionLimits : MeshExecutionLimitsV1
deriving DecidableEq

namespace MeshActorSpecV1

def requirements (spec : MeshActorSpecV1) : MeshRouteRequirementsV1 :=
  ⟨spec.bundle, spec.routeId, spec.logicalGraphSha256, spec.routeContractSha256, spec.resources,
    spec.executionLimits⟩

def validate (spec : MeshActorSpecV1) : Result Unit := do
  spec.actor.validate
  validateIdentifier "target node id" spec.targetNodeId
  spec.requirements.validate
  spec.executionLimits.validate

end MeshActorSpecV1

/-! ## Statuses and records -/

structure MeshActorResultV1 where
  artifact : MeshArtifactIdV1
  chunks : List MeshChunkIdV1
  routeSucceeded : Bool
  exitCode : Option Int
deriving DecidableEq

inductive MeshActorPhaseV1
  | running
  | indeterminate
  | succeeded (result : MeshActorResultV1)
  | failed (code message : String) (retryable : Bool)
deriving DecidableEq

def MeshActorPhaseV1.isTerminal : MeshActorPhaseV1 → Bool
  | .succeeded _ | .failed .. => true
  | .running | .indeterminate => false

/-- The schema of a status is a constant of the protocol and is not kept. -/
structure MeshActorStatusV1 where
  actor : MeshActorIdV1
  specSha256 : String
  phase : MeshActorPhaseV1
  updatedAt : Nat
deriving DecidableEq

namespace MeshActorStatusV1

def actorRef (status : MeshActorStatusV1) : MeshActorRefV1 :=
  ⟨status.actor, status.specSha256⟩

def validate (status : MeshActorStatusV1) : Result Unit := do
  bailIf (status.updatedAt == 0) "mesh actor status has an unsupported schema or timestamp"
  status.actor.validate
  validateSha256 "mesh actor spec sha256" status.specSha256
  match status.phase with
  | .succeeded result => validateArtifactManifest result.artifact result.chunks
  | .failed code message _ => do
      validateIdentifier "mesh actor failure code" code
      bailIf (maxHostedErrorBytes < message.utf8ByteSize)
        "mesh actor failure message exceeds protocol maximum"
  | .running | .indeterminate => .ok ()

end MeshActorStatusV1

structure MeshActorCancellationV1 where
  status : MeshActorStatusV1
  cancellationRequested : Bool
deriving DecidableEq

inductive MeshActorFenceV1
  | existing (status : MeshActorStatusV1)
  | fencedAbsent (actorRef : MeshActorRefV1)
deriving DecidableEq

structure MeshActorRecordV1 where
  spec : MeshActorSpecV1
  status : MeshActorStatusV1
deriving DecidableEq

structure MeshActorFenceRecordV1 where
  actorRef : MeshActorRefV1
  fencedAt : Nat
deriving DecidableEq

def validateActorFenceRecord (record : MeshActorFenceRecordV1) : Result Unit := do
  bailIf (record.fencedAt == 0) "actor fence has an unsupported schema or timestamp"
  record.actorRef.validate

end Ostadix.Mesh
