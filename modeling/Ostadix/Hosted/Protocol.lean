import Ostadix.Fabric.Binding

/-! # The hosted session protocol

The records of a session journal. A digest is its hexadecimal text, a result value its canonical
bytes; times and byte counts are natural numbers, and the checked additions of the source are
explicit where a sum could leave 64 bits. -/

namespace Ostadix.Hosted

open Ostadix.Lib Ostadix.Fabric

/-! ## Actor generations -/

structure ActorGenerationIdV1 where
  logicalEnvironment : SemanticDigestV1
  backendImplementation : SemanticDigestV1
  targetDescriptor : SemanticDigestV1
  sandboxPolicy : SemanticDigestV1
  launchContext : SemanticDigestV1
  generation : GenerationV1
deriving DecidableEq

/-! ## Sessions and reservations -/

structure TaskAttemptIdV1 where
  task : SemanticDigestV1
  attempt : GenerationV1
deriving DecidableEq

structure StateSessionIdV2 where
  nodeId : String
  nodeGeneration : GenerationV1
  sessionNonce : SemanticDigestV1
deriving DecidableEq

structure StateQuotaLimitsV2 where
  maxOpenSessions : UInt32
  maxActorsPerSession : UInt32
  maxSnapshotBytesPerActor : Nat
  maxStateBytesPerSession : Nat
  maxStateBytesTotal : Nat
deriving DecidableEq

structure StateReservationV2 where
  actorCount : UInt32
  snapshotBytesPerActor : Nat
  stateBytes : Nat
deriving DecidableEq

structure PlacementReservationV1 where
  cpuSlots : UInt32
  memoryBytes : Nat
  scratchBytes : Nat
deriving DecidableEq

structure HostedPlacementIdentityV2 where
  targetDescriptor : SemanticDigestV1
  requirementFootprint : SemanticDigestV1
  backendImplementation : SemanticDigestV1
  realizationPipeline : SemanticDigestV1
  trustPolicy : SemanticDigestV1
  reservation : PlacementReservationV1
deriving DecidableEq

inductive SessionStateTierV2 where
  | stateless
  | checkpointRestore
  | replayReconstructible
  | liveActorOnly
deriving DecidableEq

/-! ## Operations -/

inductive OperationStatusV2 where
  | accepted
  | running
  | succeeded
  | failed
  | notStarted
  | ambiguous
deriving DecidableEq

inductive OperationFailureStageV2 where
  | admission
  | parse
  | evaluate
  | output
  | deadline
  | infrastructure
deriving DecidableEq

inductive OperationOutcomeV2 where
  | succeeded (value : Bytes)
  | failed (stage : OperationFailureStageV2) (code message : String)
deriving DecidableEq

/-! ## Recovery -/

inductive ReplayClassV2 where
  | pure
  | idempotent
deriving DecidableEq

inductive RecoveryTriggerV2 where
  | ambiguousOperation (operationId operationSha256 : String) (replayClass : ReplayClassV2)
      (stablePublicationId : Option String)
  | actorLost (previousActorGeneration : ActorGenerationIdV1) (checkpointSha256 : String)
      (checkpointBytes : Nat) (recoveryRequiredHeadSha256 : String)
deriving DecidableEq

/-! ## Migration -/

structure MigrationEndpointV2 where
  stateSession : StateSessionIdV2
  nodePublicKey : String
  principalSha256 : String
  actorGeneration : ActorGenerationIdV1
  journalHeadSha256 : String
deriving DecidableEq

structure MigrationPlanV2 where
  transactionId : String
  source : MigrationEndpointV2
  destination : MigrationEndpointV2
  checkpointSha256 : String
deriving DecidableEq

inductive MigrationPhaseV2 where
  | prepared
  | installing
  | installed
  | fenced
  | activating
  | activated
  | installFailed
  | activationFailed
  | aborted
  | cancelled
deriving DecidableEq

structure HostedProtocolErrorV2 where
  code : String
  message : String
  retryable : Bool
deriving DecidableEq

structure MigrationCheckpointV2 where
  actorGeneration : ActorGenerationIdV1
  snapshotSha256 : String
  snapshotBytes : Nat
deriving DecidableEq

structure MigrationStateV2 where
  plan : MigrationPlanV2
  phase : MigrationPhaseV2
  checkpointBytes : Nat
  actorGeneration : ActorGenerationIdV1
  peerReceiptSha256 : Option String
  actorId : Option String
  failure : Option HostedProtocolErrorV2
  previousCheckpoint : Option MigrationCheckpointV2
deriving DecidableEq

structure MigrationTransitionV2 where
  state : MigrationStateV2
  clientSequence : Nat
  clientRequestId : String
  requestSha256 : String
  warrantSha256 : String
  placementLeaseSha256 : String
  placementLeaseNonce : String
  terminal : Bool
deriving DecidableEq

/-! ## Journal events -/

inductive JournalEventV2 where
  | migrationTransition (transition : MigrationTransitionV2)
  | sessionOpened (requestSha256 principalSha256 bearerSalt bearerHash : String)
      (capabilityCommitment : SemanticDigestV1) (stateTier : SessionStateTierV2)
      (stateSession : StateSessionIdV2) (stateQuotaGeneration : GenerationV1)
      (stateQuotaLimits : StateQuotaLimitsV2) (stateReservation : StateReservationV2)
      (placementIdentity : HostedPlacementIdentityV2)
      (placementLeaseSha256 placementLeaseNonce clientRequestId : String)
  | operationAccepted (clientSequence : Nat)
      (clientRequestId requestSha256 operationId : String) (taskAttempt : TaskAttemptIdV1)
      (operationSha256 sourceSha256 : String) (actorId : Option String)
      (actorGeneration : Option ActorGenerationIdV1)
      (placementLeaseSha256 placementLeaseNonce : String)
  | operationStarted (operationId operationSha256 : String)
      (actorGeneration : Option ActorGenerationIdV1) (startedUnixMs : Nat)
  | actorCheckpointed (actorGeneration : ActorGenerationIdV1) (snapshotSha256 : String)
      (snapshotBytes : Nat)
  | actorCheckpointFailed (actorGeneration : ActorGenerationIdV1) (code message : String)
  | operationTerminal (operationId operationSha256 : String) (finishedUnixMs : Nat)
      (outcome : OperationOutcomeV2) (stateDurable actorStateTouched : Bool)
  | operationInterrupted (operationId operationSha256 : String)
      (classification : OperationStatusV2) (reason : String)
  | actorStateLost (previousActorGeneration : ActorGenerationIdV1)
      (nextActorGeneration : GenerationV1) (reason : String)
  | actorGenerationRetired (previousActorGeneration : ActorGenerationIdV1)
      (nextActorGeneration : GenerationV1) (reason : String)
  | actorRestored (previousActorGeneration actorGeneration : ActorGenerationIdV1)
      (actorId snapshotSha256 : String) (snapshotBytes : Nat)
  | sessionReset (clientSequence : Nat) (clientRequestId requestSha256 : String)
      (previousActorGeneration : Option ActorGenerationIdV1) (nextActorGeneration : GenerationV1)
  | recoveryAttemptStarted (clientSequence : Nat)
      (clientRequestId requestSha256 warrantSha256 : String)
      (placementLeaseSha256 placementLeaseNonce : String) (trigger : RecoveryTriggerV2)
      (previousActorGeneration attemptedActorGeneration : ActorGenerationIdV1)
      (checkpointSha256 : String) (checkpointBytes : Nat)
  | recoveryCommitted (clientSequence : Nat) (clientRequestId requestSha256 warrantSha256 : String)
      (placementLeaseSha256 placementLeaseNonce recoveryAttemptSha256 : String)
      (trigger : RecoveryTriggerV2)
      (previousActorGeneration actorGeneration : ActorGenerationIdV1) (actorId : String)
      (checkpointSha256 : Option String) (checkpointBytes : Option Nat)
  | recoveryRefused (clientSequence : Nat) (clientRequestId requestSha256 warrantSha256 : String)
      (placementLeaseSha256 placementLeaseNonce : String) (recoveryAttemptSha256 : Option String)
      (attemptedActorGeneration : Option ActorGenerationIdV1) (code message : String)
  | placementLeaseRefused (stateSessionSha256 placementLeaseSha256 placementLeaseNonce : String)
      (hostedCommandSha256 code message : String)
  | closedSessionGcAuthorized (sessionId terminalJournalHeadSha256 : String)
      (expectedReclaimedBytes : Nat) (retainedJournalSha256 : String) (retainedJournalBytes : Nat)
  | closedSessionGcCompleted (sessionId terminalJournalHeadSha256 : String) (reclaimedBytes : Nat)
  | journalTailRepaired (journalId : String) (oldBytes newBytes : Nat)
      (recoveredHeadSha256 : Option String)
  | sessionClosed (clientSequence : Nat) (clientRequestId requestSha256 : String)
      (actorGeneration : Option ActorGenerationIdV1)
deriving DecidableEq

structure JournalEntryV2 where
  schema : String
  sessionId : String
  sequence : Nat
  previousEntrySha256 : Option String
  recordedUnixMs : Nat
  event : JournalEventV2
deriving DecidableEq

structure SignedJournalEntryV2 where
  schema : String
  entry : JournalEntryV2
  signerPublicKey : String
  signerKeyId : String
  entrySha256 : String
  signature : String
deriving DecidableEq

/-! ## Field checks -/

def validateSha256V2 (field value : String) : Result Unit :=
  bailIf (!isLowerHex 32 value) s!"{field} must be a lowercase 64-character SHA-256 digest"

end Ostadix.Hosted
