import Ostadix.Fabric.Terminal

/-! # Ledger entries and bodies

One entry per attempt: its binding, the state it has reached and the material of a terminal
state. A body is the sorted list of entries together with the current incarnation. -/

namespace Ostadix.Fabric

open Ostadix.Lib Ostadix.CanonicalCbor

def maxFabricLedgerEntriesV1 : Nat := 128
def maxFabricLedgerReasonCodeBytesV1 : Nat := 64
def maxFabricLedgerReasonMessageBytesV1 : Nat := 1024
def fabricLedgerEntrySchemaV1 : String := "ostadix.fabric-attempt-ledger-entry/v1"

/-! ## States -/

inductive FabricLedgerStateV1 where
  | received
  | validated
  | accepted
  | running
  | terminalCandidate
  | rejected
  | abandoned
deriving DecidableEq

namespace FabricLedgerStateV1

def isIncomplete : FabricLedgerStateV1 → Bool
  | received | validated | accepted | running => true
  | terminalCandidate | rejected | abandoned => false

/-- The serialised variant name. -/
def wireName : FabricLedgerStateV1 → String
  | received => "received"
  | validated => "validated"
  | accepted => "accepted"
  | running => "running"
  | terminalCandidate => "terminal-candidate"
  | rejected => "rejected"
  | abandoned => "abandoned"

def ofWireName (name : String) : Option FabricLedgerStateV1 :=
  [received, validated, accepted, running, terminalCandidate, rejected, abandoned].find?
    fun state => state.wireName == name

/-- The variant name as `{:?}` prints it in error texts. -/
def debugName : FabricLedgerStateV1 → String
  | received => "Received"
  | validated => "Validated"
  | accepted => "Accepted"
  | running => "Running"
  | terminalCandidate => "TerminalCandidate"
  | rejected => "Rejected"
  | abandoned => "Abandoned"

instance : Serde FabricLedgerStateV1 where
  toValue state := .string state.wireName
  fromValue value := do ofWireName (← unitVariant value)
  toValue_ne_null := by simp
  fromValue_canonical state := by cases state <;> rfl

end FabricLedgerStateV1

/-! ## Reasons -/

def isReasonCodeByte (byte : UInt8) : Bool :=
  (97 ≤ byte && byte ≤ 122) || (48 ≤ byte && byte ≤ 57) || byte == 45

/-- `char::is_control`: the Unicode category `Cc`. -/
def isControl (character : Char) : Bool :=
  character.toNat < 0x20 || (0x7f ≤ character.toNat && character.toNat < 0xa0)

def validateReason (code message : String) : Result Unit := do
  bailIf ((utf8Bytes code).isEmpty || maxFabricLedgerReasonCodeBytesV1 < (utf8Bytes code).length ||
      !(utf8Bytes code).all isReasonCodeByte)
    "Fabric ledger reason code is invalid"
  bailIf ((utf8Bytes message).isEmpty ||
      maxFabricLedgerReasonMessageBytesV1 < (utf8Bytes message).length ||
      message.toList.any isControl)
    "Fabric ledger reason message is invalid"

/-! ## Entries -/

structure FabricLedgerEntryV1 where
  schema : String
  binding : FabricAttemptBindingV1
  state : FabricLedgerStateV1
  transitionSequence : UInt64
  terminal : Option FabricStoredTerminalV1
  reasonCode : Option String
  reasonMessage : Option String
deriving DecidableEq

namespace FabricLedgerEntryV1

def new (binding : FabricAttemptBindingV1) (state : FabricLedgerStateV1) : FabricLedgerEntryV1 where
  schema := fabricLedgerEntrySchemaV1
  binding
  state
  transitionSequence := 1
  terminal := none
  reasonCode := none
  reasonMessage := none

def setState (entry : FabricLedgerEntryV1) (state : FabricLedgerStateV1) :
    Result FabricLedgerEntryV1 := do
  bailIf (entry.transitionSequence.toNat + 1 == 2 ^ 64)
    "Fabric ledger transition sequence overflow"
  return { entry with
    transitionSequence := entry.transitionSequence + 1
    state
    terminal := none
    reasonCode := none
    reasonMessage := none }

def setReason (entry : FabricLedgerEntryV1) (state : FabricLedgerStateV1)
    (reasonCode reasonMessage : String) : Result FabricLedgerEntryV1 := do
  validateReason reasonCode reasonMessage
  let entry ← entry.setState state
  return { entry with reasonCode := some reasonCode, reasonMessage := some reasonMessage }

def setTerminal (entry : FabricLedgerEntryV1) (terminal : FabricStoredTerminalV1) :
    Result FabricLedgerEntryV1 := do
  let entry ← entry.setState .terminalCandidate
  return { entry with terminal := some terminal }

/-- The material each state has to carry, and nothing else. -/
def validateState (host : FabricHost) (entry : FabricLedgerEntryV1) : Result Unit :=
  match entry.state with
  | .terminalCandidate => do
      let terminal ← okOr entry.terminal
        "terminal Fabric ledger entry omitted exact response bytes"
      terminal.validate host
      let candidate ← terminal.decodeTerminalCandidate host
      validateTerminalBinding entry.binding candidate
      bailIf (entry.reasonCode.isSome || entry.reasonMessage.isSome)
        "terminal candidate ledger entry unexpectedly carries a reason"
  | .rejected | .abandoned => do
      bailIf entry.terminal.isSome "reason terminal Fabric ledger entry carries candidate bytes"
      let code ← okOr entry.reasonCode "terminal ledger reason code is absent"
      let message ← okOr entry.reasonMessage "terminal ledger reason message is absent"
      validateReason code message
  | .received | .validated | .accepted | .running =>
      bailIf (entry.terminal.isSome || entry.reasonCode.isSome || entry.reasonMessage.isSome)
        "nonterminal Fabric ledger entry carries terminal material"

def validate (host : FabricHost) (entry : FabricLedgerEntryV1) : Result Unit := do
  bailIf (entry.schema != fabricLedgerEntrySchemaV1) "unsupported Fabric ledger entry schema"
  entry.binding.validate
  bailIf (entry.transitionSequence == 0) "Fabric ledger transition sequence must be nonzero"
  entry.validateState host

def members (entry : FabricLedgerEntryV1) : List (String × Value) :=
  [("schema", toValue entry.schema),
   ("binding", toValue entry.binding),
   ("state", toValue entry.state),
   ("transition_sequence", toValue entry.transitionSequence),
   ("terminal", optionValue entry.terminal),
   ("reason_code", optionValue entry.reasonCode),
   ("reason_message", optionValue entry.reasonMessage)]

instance : Serde FabricLedgerEntryV1 where
  toValue entry := .object entry.members
  fromValue value :=
    match structFields ["schema", "binding", "state", "transition_sequence", "terminal",
        "reason_code", "reason_message"] true value with
    | some [some schema, some binding, some state, some transitionSequence, terminal, reasonCode,
        reasonMessage] => do
        return {
          schema := ← fromValue schema
          binding := ← fromValue binding
          state := ← fromValue state
          transitionSequence := ← fromValue transitionSequence
          terminal := ← optionField terminal
          reasonCode := ← optionField reasonCode
          reasonMessage := ← optionField reasonMessage }
    | _ => none
  toValue_ne_null := by simp
  fromValue_canonical entry := by
    have fields := structFields_canonical entry.members (by simp [members]) true
    simp only [members, List.map_cons, List.map_nil] at fields ⊢
    simp [fields]

end FabricLedgerEntryV1

/-! ## Bodies -/

structure FabricLedgerBodyV1 where
  executionCellIncarnation : ExecutionCellIncarnationV1
  entries : List FabricLedgerEntryV1
deriving DecidableEq

/-- Each entry comes strictly before its successor. -/
def validateOrder : List FabricLedgerEntryV1 → Result Unit
  | first :: second :: entries => do
      bailIf (first.binding.compareKey second.binding != .lt)
        "Fabric ledger entries are duplicated or not in canonical key order"
      validateOrder (second :: entries)
  | _ => .ok ()

/-- No two entries share an issuer-scoped nonce or an issuer-scoped attempt. -/
def validateReplayIndexes : List FabricLedgerEntryV1 → Result Unit
  | [] => .ok ()
  | left :: entries => do
      entries.forM fun right => do
        bailIf (left.binding.issuerKeyId == right.binding.issuerKeyId &&
            left.binding.leaseNonce == right.binding.leaseNonce)
          "Fabric ledger contains a reused issuer-scoped nonce"
        bailIf (left.binding.issuerKeyId == right.binding.issuerKeyId &&
            left.binding.attempt == right.binding.attempt)
          "Fabric ledger contains a rebound issuer-scoped attempt"
      validateReplayIndexes entries

def validateBody (host : FabricHost) (body : FabricLedgerBodyV1) : Result Unit := do
  bailIf (maxFabricLedgerEntriesV1 < body.entries.length)
    "Fabric attempt-ledger snapshot exceeds its V1 entry bound"
  body.entries.forM fun entry => do
    entry.validate host
    bailIf (body.executionCellIncarnation.value < entry.binding.executionCellIncarnation.value)
      "Fabric ledger entry belongs to a future execution-cell incarnation"
  validateOrder body.entries
  validateReplayIndexes body.entries

def FabricLedgerBodyV1.members (body : FabricLedgerBodyV1) : List (String × Value) :=
  [("execution_cell_incarnation", toValue body.executionCellIncarnation),
   ("entries", toValue body.entries)]

instance : Serde FabricLedgerBodyV1 where
  toValue body := .object body.members
  fromValue value :=
    match structFields ["execution_cell_incarnation", "entries"] true value with
    | some [some executionCellIncarnation, some entries] => do
        return ⟨← fromValue executionCellIncarnation, ← fromValue entries⟩
    | _ => none
  toValue_ne_null := by simp
  fromValue_canonical body := by
    have fields := structFields_canonical body.members (by simp [FabricLedgerBodyV1.members]) true
    simp only [FabricLedgerBodyV1.members, List.map_cons, List.map_nil] at fields ⊢
    simp [fields]

end Ostadix.Fabric
