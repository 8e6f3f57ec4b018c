import Ostadix.Fabric.Snapshot

/-! # Ledger operations

Each operation is a mutation of the body: it looks the requested binding up and either leaves
the body as it is, changes one entry, or inserts a new one. -/

namespace Ostadix.Fabric

open Ostadix.Lib Ostadix.CanonicalCbor

/-! ## Outcomes -/

inductive FabricLedgerWriteOutcomeV1 where
  | applied (entry : FabricLedgerEntryV1)
  | duplicate (entry : FabricLedgerEntryV1)
deriving DecidableEq

structure FabricLedgerAcceptanceV1 where
  entry : FabricLedgerEntryV1
  mayExecute : Bool
deriving DecidableEq

inductive FabricLedgerConflictKindV1 where
  | nonceReused
  | attemptRebound
  | queryBindingMismatch
  | tlsPrincipalMismatch
deriving DecidableEq

structure FabricLedgerConflictV1 where
  kind : FabricLedgerConflictKindV1
  existing : FabricAttemptBindingV1
deriving DecidableEq

def conflictError (conflict : FabricLedgerConflictV1) : String :=
  match conflict.kind with
  | .nonceReused => "Fabric lease nonce is already consumed by a different attempt or binding"
  | .attemptRebound => "Fabric attempt coordinate is already bound to a different nonce or command"
  | .queryBindingMismatch => "Fabric query binding conflicts with the durable attempt"
  | .tlsPrincipalMismatch => "Fabric query TLS principal conflicts with the durable attempt"

inductive FabricLedgerQueryOutcomeV1 where
  | unknown
  | found (entry : FabricLedgerEntryV1)
  | conflict (conflict : FabricLedgerConflictV1)
deriving DecidableEq

inductive MutationV1 (α : Type) where
  | changed (body : FabricLedgerBodyV1) (value : α)
  | unchanged (value : α)

/-! ## Looking a binding up -/

def SameNonce (left right : FabricAttemptBindingV1) : Prop :=
  left.issuerKeyId = right.issuerKeyId ∧ left.leaseNonce = right.leaseNonce

def SameAttempt (left right : FabricAttemptBindingV1) : Prop :=
  left.issuerKeyId = right.issuerKeyId ∧ left.attempt = right.attempt

instance (left right : FabricAttemptBindingV1) : Decidable (SameNonce left right) :=
  inferInstanceAs (Decidable (_ ∧ _))

instance (left right : FabricAttemptBindingV1) : Decidable (SameAttempt left right) :=
  inferInstanceAs (Decidable (_ ∧ _))

inductive BindingLookupV1 (entries : List FabricLedgerEntryV1) where
  | exact (index : Fin entries.length)
  | conflict (conflict : FabricLedgerConflictV1)
  | unknown

/-- The lookup in a list, seen from one more entry at its front. -/
def BindingLookupV1.later {entries : List FabricLedgerEntryV1} (entry : FabricLedgerEntryV1) :
    BindingLookupV1 entries → BindingLookupV1 (entry :: entries)
  | .exact index => .exact index.succ
  | .conflict existing => .conflict existing
  | .unknown => .unknown

def locateBinding : (entries : List FabricLedgerEntryV1) → FabricAttemptBindingV1 →
    BindingLookupV1 entries
  | [], _ => .unknown
  | entry :: entries, requested =>
      if entry.binding = requested then .exact ⟨0, by simp⟩
      else if SameNonce entry.binding requested then .conflict ⟨.nonceReused, entry.binding⟩
      else if SameAttempt entry.binding requested then .conflict ⟨.attemptRebound, entry.binding⟩
      else (locateBinding entries requested).later entry

def requireCurrentIncarnation (current : ExecutionCellIncarnationV1)
    (binding : FabricAttemptBindingV1) : Result Unit :=
  bailIf (binding.executionCellIncarnation != current)
    (let target := binding.executionCellIncarnation.value
     let durable := current.value
     s!"Fabric attempt targets execution-cell incarnation {target}, but the durable provider is incarnation {durable}")

namespace FabricLedgerBodyV1

def setEntry (body : FabricLedgerBodyV1) (index : Nat) (entry : FabricLedgerEntryV1) :
    FabricLedgerBodyV1 :=
  { body with entries := body.entries.set index entry }

/-- Add an entry of an unknown binding and restore the key order. -/
def insertEntry (body : FabricLedgerBodyV1) (entry : FabricLedgerEntryV1) :
    Result FabricLedgerBodyV1 := do
  requireCurrentIncarnation body.executionCellIncarnation entry.binding
  bailIf (maxFabricLedgerEntriesV1 ≤ body.entries.length)
    "Fabric attempt ledger reached its V1 entry bound"
  return { body with
    entries := (body.entries ++ [entry]).mergeSort fun left right =>
      left.binding.compareKey right.binding != .gt }

end FabricLedgerBodyV1

/-! ## Mutations -/

def insertApplied (body : FabricLedgerBodyV1) (entry : FabricLedgerEntryV1) :
    Result (MutationV1 FabricLedgerWriteOutcomeV1) := do
  let body ← body.insertEntry entry
  return .changed body (.applied entry)

def writeBinding (binding : FabricAttemptBindingV1) (state : FabricLedgerStateV1)
    (body : FabricLedgerBodyV1) : Result (MutationV1 FabricLedgerWriteOutcomeV1) :=
  match locateBinding body.entries binding with
  | .exact index => .ok (.unchanged (.duplicate (body.entries.get index)))
  | .conflict conflict => .error (conflictError conflict)
  | .unknown => insertApplied body (.new binding state)

/-- A transition of the exact entry: `some` entry where the source returns `true`. -/
def transitionExact (binding : FabricAttemptBindingV1)
    (transition : FabricLedgerEntryV1 → Result (Option FabricLedgerEntryV1))
    (body : FabricLedgerBodyV1) : Result (MutationV1 FabricLedgerWriteOutcomeV1) :=
  match locateBinding body.entries binding with
  | .exact index => do
      match ← transition (body.entries.get index) with
      | some entry => return .changed (body.setEntry index entry) (.applied entry)
      | none => return .unchanged (.duplicate (body.entries.get index))
  | .conflict conflict => .error (conflictError conflict)
  | .unknown => .error "Fabric attempt is unknown to the durable ledger"

def recordValidated (binding : FabricAttemptBindingV1) :
    FabricLedgerBodyV1 → Result (MutationV1 FabricLedgerWriteOutcomeV1) :=
  transitionExact binding fun entry =>
    match entry.state with
    | .received => do return some (← entry.setState .validated)
    | .validated | .accepted | .running | .terminalCandidate | .rejected | .abandoned => .ok none

def consumeAndAccept (binding : FabricAttemptBindingV1) (body : FabricLedgerBodyV1) :
    Result (MutationV1 FabricLedgerAcceptanceV1) :=
  match locateBinding body.entries binding with
  | .exact index =>
      let entry := body.entries.get index
      match entry.state with
      | .validated => do
          requireCurrentIncarnation body.executionCellIncarnation binding
          let entry ← entry.setState .accepted
          return .changed (body.setEntry index entry) ⟨entry, true⟩
      | _ => .ok (.unchanged ⟨entry, false⟩)
  | .conflict conflict => .error (conflictError conflict)
  | .unknown => .error "Fabric attempt must be durably Validated before acceptance"

def markRunning (binding : FabricAttemptBindingV1) :
    FabricLedgerBodyV1 → Result (MutationV1 FabricLedgerWriteOutcomeV1) :=
  transitionExact binding fun entry =>
    match entry.state with
    | .accepted => do return some (← entry.setState .running)
    | .running | .terminalCandidate => .ok none
    | other => .error ("cannot mark Fabric attempt Running from " ++ other.debugName)

/-- The transition of `record_terminal_candidate`, after the candidate was encoded. -/
def recordTerminal (binding : FabricAttemptBindingV1) (terminal : FabricStoredTerminalV1) :
    FabricLedgerBodyV1 → Result (MutationV1 FabricLedgerWriteOutcomeV1) :=
  transitionExact binding fun entry =>
    match entry.state with
    | .running => do return some (← entry.setTerminal terminal)
    | .terminalCandidate => do
        bailIf (entry.terminal != some terminal)
          "Fabric terminal candidate conflicts with durable terminal bytes"
        return none
    | other => .error ("cannot record Fabric terminal candidate from " ++ other.debugName)

def recordReasonTerminal (binding : FabricAttemptBindingV1) (state : FabricLedgerStateV1)
    (reasonCode message : String) (body : FabricLedgerBodyV1) :
    Result (MutationV1 FabricLedgerWriteOutcomeV1) :=
  match locateBinding body.entries binding with
  | .exact index => do
      let entry := body.entries.get index
      if entry.state = state then
        bailIf (entry.reasonCode != some reasonCode || entry.reasonMessage != some message)
          "Fabric terminal reason conflicts with durable terminal state"
        return .unchanged (.duplicate entry)
      bailIf (!entry.state.isIncomplete) "cannot replace an existing Fabric terminal state"
      let entry ← entry.setReason state reasonCode message
      return .changed (body.setEntry index entry) (.applied entry)
  | .conflict conflict => .error (conflictError conflict)
  | .unknown =>
      insertApplied body { FabricLedgerEntryV1.new binding state with
        reasonCode := some reasonCode, reasonMessage := some message }

def recordPreacceptRejected (binding : FabricAttemptBindingV1) (reasonCode message : String)
    (body : FabricLedgerBodyV1) : Result (MutationV1 FabricLedgerWriteOutcomeV1) :=
  match locateBinding body.entries binding with
  | .exact index =>
      let entry := body.entries.get index
      match entry.state with
      | .received | .validated => do
          let entry ← entry.setReason .rejected reasonCode message
          return .changed (body.setEntry index entry) (.applied entry)
      | _ => .ok (.unchanged (.duplicate entry))
  | .conflict conflict => .error (conflictError conflict)
  | .unknown =>
      insertApplied body { FabricLedgerEntryV1.new binding .rejected with
        reasonCode := some reasonCode, reasonMessage := some message }

/-! ## Queries -/

structure FabricAttemptQueryV1 where
  issuerKeyId : SemanticDigestV1
  attempt : AttemptIdV1
  leaseNonce : SemanticDigestV1
  submissionBindingSha256 : Sha256DigestV1
deriving DecidableEq

def queryEntries (query : FabricAttemptQueryV1) (tlsClientPrincipalSha256 : SemanticDigestV1) :
    List FabricLedgerEntryV1 → FabricLedgerQueryOutcomeV1
  | [] => .unknown
  | entry :: entries =>
      let binding := entry.binding
      let sameIssuer := binding.issuerKeyId == query.issuerKeyId
      let sameAttempt := binding.attempt == query.attempt
      let sameNonce := binding.leaseNonce == query.leaseNonce
      if sameIssuer && sameAttempt && sameNonce then
        if binding.submissionBindingSha256 == query.submissionBindingSha256 then
          if binding.tlsClientPrincipalSha256 != tlsClientPrincipalSha256 then
            .conflict ⟨.tlsPrincipalMismatch, binding⟩
          else .found entry
        else .conflict ⟨.queryBindingMismatch, binding⟩
      else if sameIssuer && sameNonce then .conflict ⟨.nonceReused, binding⟩
      else if sameIssuer && sameAttempt then .conflict ⟨.attemptRebound, binding⟩
      else queryEntries query tlsClientPrincipalSha256 entries

/-! ## Recovery at open -/

/-- Abandon every attempt the previous incarnation left incomplete. -/
def abandonIncomplete (entry : FabricLedgerEntryV1) : Result FabricLedgerEntryV1 :=
  if entry.state.isIncomplete then
    entry.setReason .abandoned "provider-restarted"
      "incomplete attempt belongs to an older execution-cell incarnation"
  else .ok entry

def nextIncarnation (body : FabricLedgerBodyV1) : Result FabricLedgerBodyV1 := do
  let current := body.executionCellIncarnation.value
  bailIf (current.toNat + 1 == 2 ^ 64) "Fabric execution-cell incarnation overflow"
  let incarnation ← okOr (ExecutionCellIncarnationV1.new (current + 1))
    (invalid "execution-cell incarnation must be nonzero")
  let entries ← body.entries.mapM abandonIncomplete
  return ⟨incarnation, entries⟩

theorem first_nonzero : (1 : UInt64) ≠ 0 := by
  decide

def firstBody : FabricLedgerBodyV1 :=
  ⟨⟨1, first_nonzero⟩, []⟩

end Ostadix.Fabric
