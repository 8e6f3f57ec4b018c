import Ostadix.Fabric.Operations
import Ostadix.Lib.Machine

/-! # The durable ledger

The world of a ledger root is the snapshot file and at most one live ledger: the root lock is
exclusive and held for the ledger's life, and all clones of a ledger share one state behind a
mutex, so their operations form one sequence. What the file system does during an operation is
an input of that operation. -/

namespace Ostadix.Fabric

open Ostadix.Lib Ostadix.CanonicalCbor

/-! ## State -/

structure LedgerMemoryV1 where
  body : FabricLedgerBodyV1
  snapshotFileSha256 : Sha256DigestV1
deriving DecidableEq

structure FabricAttemptLedgerV1 where
  memory : LedgerMemoryV1
  poisoned : Bool
deriving DecidableEq

/-- `snapshot` is the content of the snapshot file, `none` while it is absent. -/
structure LedgerRootV1 where
  snapshot : Option Bytes
  ledger : Option FabricAttemptLedgerV1
deriving DecidableEq

/-! ## What the file system does -/

/-- How the publication of a staged snapshot ends. A failure before the rename leaves the old
file, a failure after it (directory sync, read back, anchor check) leaves the new one. -/
inductive PublicationV1 where
  | refused (detail : String)
  | notRenamed (detail : String)
  | renamed (detail : String)
  | published
deriving DecidableEq

/-- The file-system results of one operation: the check of the anchors and of the lock before
and after it, the access to the snapshot file, and the publication. -/
structure LedgerIoV1 where
  anchors : Result Unit
  access : Result Unit
  publication : PublicationV1
  anchorsAfter : Result Unit

def readSnapshotFile (host : FabricHost) (io : LedgerIoV1) (snapshot : Option Bytes) :
    Result (FabricLedgerBodyV1 × Sha256DigestV1) := do
  io.access
  let bytes ← okOr snapshot "Fabric ledger snapshot is absent"
  readSnapshot host bytes

/-- The snapshot file afterwards, and the digest of the published bytes. -/
def persistSnapshot (host : FabricHost) (io : LedgerIoV1) (snapshot : Option Bytes)
    (body : FabricLedgerBodyV1) : Option Bytes × Result Sha256DigestV1 :=
  match io.publication, persistedBytes host body with
  | .refused detail, _ => (snapshot, .error detail)
  | _, .error detail => (snapshot, .error detail)
  | .notRenamed detail, .ok _ => (snapshot, .error detail)
  | .renamed detail, .ok bytes => (some bytes, .error detail)
  | .published, .ok bytes => (some bytes, .ok (host.sha256 bytes))

/-! ## Access to a live ledger -/

namespace FabricAttemptLedgerV1

def poison (ledger : FabricAttemptLedgerV1) : FabricAttemptLedgerV1 :=
  { ledger with poisoned := true }

def requireHealthy (ledger : FabricAttemptLedgerV1) : Result Unit :=
  bailIf ledger.poisoned "Fabric attempt ledger is poisoned and must be reopened"

/-- The file is still the one the memory was validated against. -/
def verifyCachedSnapshot (host : FabricHost) (io : LedgerIoV1) (snapshot : Option Bytes)
    (cached : LedgerMemoryV1) : Result Unit := do
  let (body, digest) ← readSnapshotFile host io snapshot
  bailIf (body != cached.body || digest != cached.snapshotFileSha256)
    "Fabric attempt-ledger snapshot differs from its validated in-memory image"

def lockVerified (host : FabricHost) (io : LedgerIoV1) (snapshot : Option Bytes)
    (ledger : FabricAttemptLedgerV1) : FabricAttemptLedgerV1 × Result LedgerMemoryV1 :=
  match ledger.requireHealthy with
  | .error detail => (ledger, .error detail)
  | .ok () =>
      match (do io.anchors; verifyCachedSnapshot host io snapshot ledger.memory : Result Unit) with
      | .error error =>
          (ledger.poison, .error s!"Fabric attempt ledger changed or became corrupt: {error}")
      | .ok () => (ledger, .ok ledger.memory)

end FabricAttemptLedgerV1

/-! ## Changing a live ledger -/

namespace LedgerRootV1

/-- Run `access` on the memory of a live ledger, after the ledger was verified. -/
def withVerified {α : Type} (host : FabricHost) (io : LedgerIoV1) (root : LedgerRootV1)
    (ledger : FabricAttemptLedgerV1) (access : LedgerMemoryV1 → LedgerRootV1 × Result α) :
    LedgerRootV1 × Result α :=
  match ledger.lockVerified host io root.snapshot with
  | (ledger, .error error) => ({ root with ledger := some ledger }, .error error)
  | (_, .ok memory) => access memory

/-- Publish `next` and, once it is durable, make it the memory of the ledger. -/
def publish {α : Type} (host : FabricHost) (io : LedgerIoV1) (root : LedgerRootV1)
    (ledger : FabricAttemptLedgerV1) (next : FabricLedgerBodyV1) (value : α) :
    LedgerRootV1 × Result α :=
  match validateBody host next with
  | .error error => (root, .error error)
  | .ok () =>
      match persistSnapshot host io root.snapshot next with
      | (snapshot, .error error) => (⟨snapshot, some ledger.poison⟩,
          .error s!"Fabric attempt-ledger durability became ambiguous: {error}")
      | (snapshot, .ok digest) =>
          match io.anchorsAfter with
          | .error error => (⟨snapshot, some ledger.poison⟩,
              .error s!"Fabric attempt-ledger path identity became ambiguous: {error}")
          | .ok () => (⟨snapshot, some { ledger with memory := ⟨next, digest⟩ }⟩, .ok value)

def withMutation {α : Type} (host : FabricHost) (io : LedgerIoV1) (root : LedgerRootV1)
    (ledger : FabricAttemptLedgerV1) (mutation : FabricLedgerBodyV1 → Result (MutationV1 α)) :
    LedgerRootV1 × Result α :=
  root.withVerified host io ledger fun memory =>
    match mutation memory.body with
    | .error error => (root, .error error)
    | .ok (.unchanged value) => (root, .ok value)
    | .ok (.changed next value) => root.publish host io ledger next value

/-! ## Opening and closing -/

/-- The body `open` publishes: an empty one for a new root, otherwise the stored body under the
next incarnation. -/
def openedBody (host : FabricHost) (io : LedgerIoV1) :
    Option Bytes → Result FabricLedgerBodyV1
  | none => .ok firstBody
  | some bytes => do
      let (body, _) ← readSnapshotFile host io (some bytes)
      nextIncarnation body

def openLedger (host : FabricHost) (io : LedgerIoV1) (root : LedgerRootV1) :
    LedgerRootV1 × Result ExecutionCellIncarnationV1 :=
  match root.ledger with
  | some _ => (root, .error "Fabric attempt-ledger root is already locked")
  | none =>
      match (do io.anchors; openedBody host io root.snapshot : Result FabricLedgerBodyV1) with
      | .error error => (root, .error error)
      | .ok body =>
          match persistSnapshot host io root.snapshot body with
          | (snapshot, .error error) => (⟨snapshot, none⟩, .error error)
          | (snapshot, .ok digest) =>
              (⟨snapshot, some ⟨⟨body, digest⟩, false⟩⟩, .ok body.executionCellIncarnation)

/-- The last clone is dropped, or the process ends. -/
def close (root : LedgerRootV1) : LedgerRootV1 :=
  { root with ledger := none }

end LedgerRootV1

/-! ## Sequences of operations -/

inductive LedgerOperationV1 where
  | open
  | close
  | writeBinding (binding : FabricAttemptBindingV1) (state : FabricLedgerStateV1)
  | recordValidated (binding : FabricAttemptBindingV1)
  | consumeAndAccept (binding : FabricAttemptBindingV1)
  | markRunning (binding : FabricAttemptBindingV1)
  | recordTerminalCandidate (binding : FabricAttemptBindingV1)
      (candidate : FabricTerminalCandidateV1)
  | recordRejected (binding : FabricAttemptBindingV1) (reasonCode message : String)
  | recordPreacceptRejected (binding : FabricAttemptBindingV1) (reasonCode message : String)
  | query (query : FabricAttemptQueryV1) (tlsClientPrincipalSha256 : SemanticDigestV1)

inductive LedgerOutputV1 where
  | opened (result : Result ExecutionCellIncarnationV1)
  | closed
  | written (result : Result FabricLedgerWriteOutcomeV1)
  | accepted (result : Result FabricLedgerAcceptanceV1)
  | queried (result : Result FabricLedgerQueryOutcomeV1)
  | notOpen

/-- The binding whose execution an output permits. -/
def LedgerOutputV1.mayExecute : LedgerOutputV1 → Option FabricAttemptBindingV1
  | accepted (.ok acceptance) =>
      if acceptance.mayExecute then some acceptance.entry.binding else none
  | _ => none

namespace LedgerRootV1

def write (host : FabricHost) (io : LedgerIoV1) (root : LedgerRootV1)
    (ledger : FabricAttemptLedgerV1)
    (mutation : FabricLedgerBodyV1 → Result (MutationV1 FabricLedgerWriteOutcomeV1)) :
    LedgerRootV1 × LedgerOutputV1 :=
  (root.withMutation host io ledger mutation).map id .written

/-- An operation on a live ledger. Arguments are checked before the ledger is touched. -/
def operate (host : FabricHost) (io : LedgerIoV1) (root : LedgerRootV1)
    (ledger : FabricAttemptLedgerV1) : LedgerOperationV1 → LedgerRootV1 × LedgerOutputV1
  | .open => (root.openLedger host io).map id .opened
  | .close => (root.close, .closed)
  | .writeBinding binding state => root.write host io ledger (writeBinding binding state)
  | .recordValidated binding => root.write host io ledger (recordValidated binding)
  | .consumeAndAccept binding =>
      (root.withMutation host io ledger (consumeAndAccept binding)).map id .accepted
  | .markRunning binding => root.write host io ledger (markRunning binding)
  | .recordTerminalCandidate binding candidate =>
      match (do
        let terminal ← FabricStoredTerminalV1.fromCandidate host candidate
        validateTerminalBinding binding candidate
        return terminal : Result FabricStoredTerminalV1) with
      | .error error => (root, .written (.error error))
      | .ok terminal => root.write host io ledger (recordTerminal binding terminal)
  | .recordRejected binding reasonCode message =>
      match validateReason reasonCode message with
      | .error error => (root, .written (.error error))
      | .ok () => root.write host io ledger
          (recordReasonTerminal binding .rejected reasonCode message)
  | .recordPreacceptRejected binding reasonCode message =>
      match validateReason reasonCode message with
      | .error error => (root, .written (.error error))
      | .ok () => root.write host io ledger (recordPreacceptRejected binding reasonCode message)
  | .query query tlsClientPrincipalSha256 =>
      (root.withVerified host io ledger fun memory =>
        (root, .ok (queryEntries query tlsClientPrincipalSha256 memory.body.entries))).map
          id .queried

/-- One operation and what the file system does during it. Without a live ledger only `open`
can be called. -/
def step (host : FabricHost) (root : LedgerRootV1) (event : LedgerOperationV1 × LedgerIoV1) :
    LedgerRootV1 × LedgerOutputV1 :=
  match root.ledger, event with
  | some ledger, (operation, io) => root.operate host io ledger operation
  | none, (.open, io) => (root.openLedger host io).map id .opened
  | none, _ => (root, .notOpen)

end LedgerRootV1

end Ostadix.Fabric
