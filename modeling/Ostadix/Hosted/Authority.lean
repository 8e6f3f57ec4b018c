import Ostadix.Hosted.JournalCrash

/-! # The authority journal

The placement-authority journal records the repairs of torn tails and the collections of closed
sessions. Their frames are paid from a fixed headroom, whose debit the store keeps in memory and
recomputes from the journal when it is opened. An append is one step: the entry names its
predecessor, so what was read before the lock of the head is what the entry is appended to. -/

namespace Ostadix.Hosted

open Ostadix.Lib Ostadix.Fabric

def closedSessionGcAuthorityHeadroomBytesV2 : Nat := 16 * 1024

/-! ## The debit -/

def JournalEventV2.isEmergencyAuthorityControlEvent : JournalEventV2 → Bool
  | .closedSessionGcAuthorized .. | .closedSessionGcCompleted .. | .journalTailRepaired .. => true
  | _ => false

/-- `none` where the checked addition of the source overflows. -/
def authorityControlDebitAfterEvent (current : Nat) (event : JournalEventV2) (frameBytes : Nat) :
    Option Nat :=
  if 2 ^ 64 ≤ current + frameBytes then none
  else
    match event with
    | .closedSessionGcCompleted _ _ reclaimedBytes => some (current + frameBytes - reclaimedBytes)
    | _ => some (current + frameBytes)

structure PendingClosedSessionGcV2 where
  authorization : SignedJournalEntryV2
  sessionId : String
  terminalJournalHeadSha256 : String
  expectedReclaimedBytes : Nat
deriving DecidableEq

def overlappingIntents : String :=
  "placement-authority journal contains overlapping GC intents"

def PendingClosedSessionGcV2.requireCompletedBy (pending : Option PendingClosedSessionGcV2)
    (sessionId terminalHead : String) (reclaimedBytes : Nat) : Result Unit := do
  let active ← okOr pending "GC completion has no preceding authorization"
  bailIf (active.sessionId != sessionId || active.terminalJournalHeadSha256 != terminalHead ||
      active.expectedReclaimedBytes != reclaimedBytes)
    "GC completion does not match its authorization"

/-- The pending collection behind one more entry: the loop body that the three scans of the
journal for a pending collection share. -/
def pendingAfter (pending : Option PendingClosedSessionGcV2) (entry : SignedJournalEntryV2) :
    Result (Option PendingClosedSessionGcV2) :=
  match entry.entry.event with
  | .closedSessionGcAuthorized sessionId terminalHead expectedReclaimedBytes _ _ =>
      match pending with
      | some _ => .error overlappingIntents
      | none => .ok (some ⟨entry, sessionId, terminalHead, expectedReclaimedBytes⟩)
  | .closedSessionGcCompleted sessionId terminalHead reclaimedBytes => do
      PendingClosedSessionGcV2.requireCompletedBy pending sessionId terminalHead reclaimedBytes
      return none
  | _ => .ok pending

def pendingGc (entries : List SignedJournalEntryV2) : Result (Option PendingClosedSessionGcV2) :=
  entries.foldlM pendingAfter none

/-- The loop body of `authority_control_debit`. -/
def authorityControlDebitStep (host : JournalHost)
    (state : Nat × Option PendingClosedSessionGcV2) (entry : SignedJournalEntryV2) :
    Result (Nat × Option PendingClosedSessionGcV2) := do
  let pending ← pendingAfter state.2 entry
  if entry.entry.event.isEmergencyAuthorityControlEvent then
    let frame ← okOr (canonicalHostedFrame host.codec entry)
      "canonical hosted message exceeds its frame"
    let debit ← okOr (authorityControlDebitAfterEvent state.1 entry.entry.event frame.length)
      "durable authority-control debit overflow"
    bailIf (closedSessionGcAuthorityHeadroomBytesV2 < debit)
      s!"durable authority-control debit {debit} exceeds its fixed {closedSessionGcAuthorityHeadroomBytesV2}-byte headroom"
    return (debit, pending)
  else return (state.1, pending)

def authorityControlDebit (host : JournalHost) (entries : List SignedJournalEntryV2) :
    Result Nat := do
  let (debit, _) ← entries.foldlM (authorityControlDebitStep host) (0, none)
  return debit

def restoreAuthorityControlHeadroom (debitBytes : Nat) : Result Nat := do
  bailIf (closedSessionGcAuthorityHeadroomBytesV2 < debitBytes)
    s!"durable placement-authority journal requires {debitBytes} bytes of outstanding emergency headroom, exceeding its fixed {closedSessionGcAuthorityHeadroomBytesV2}-byte budget"
  return debitBytes

/-- The debit an append sets before it writes; the source returns the one it replaces, for the
rollback. -/
def beginAuthorityControlTransition (consumed : Nat) (event : JournalEventV2) (frameBytes : Nat) :
    Option Nat :=
  if event.isEmergencyAuthorityControlEvent then
    (authorityControlDebitAfterEvent consumed event frameBytes).filter fun next =>
      decide (next ≤ closedSessionGcAuthorityHeadroomBytesV2)
  else some consumed

/-- The debit behind one more entry. -/
def debitAfter (host : JournalHost) (consumed : Nat) (entry : SignedJournalEntryV2) :
    Option Nat := do
  let frame ← canonicalHostedFrame host.codec entry
  beginAuthorityControlTransition consumed entry.entry.event frame.length

/-! ## The open store -/

structure JournalReadV2 where
  entries : List SignedJournalEntryV2
  corruption : Option String

def JournalStoreV2.readJournalFile (host : JournalHost) (journalId : String)
    (store : JournalStoreV2) : JournalReadV2 :=
  let scan := scanValidatedJournal host journalId store.file
  match scan.tornTail with
  | some torn =>
      let new := torn.newBytes
      let old := torn.oldBytes
      ⟨scan.entries, some
        s!"incomplete final hosted V2 journal frame at byte {new} (file has {old} bytes)"⟩
  | none =>
      if scan.corruption.isNone && scan.head != store.head then
        ⟨scan.entries,
          some "hosted V2 journal changed outside its exclusive durable-store owner"⟩
      else ⟨scan.entries, scan.corruption⟩

/-- The authority journal of an open store and the debit in memory. -/
structure AuthorityStoreV2 where
  journal : JournalStoreV2
  authorityControlBytes : Nat
deriving DecidableEq

namespace AuthorityStoreV2

variable (host : JournalHost)

def readAuthorityJournal (store : AuthorityStoreV2) : JournalReadV2 :=
  store.journal.readJournalFile host authorityJournalIdV2

def pendingClosedSessionGc (store : AuthorityStoreV2) : Result (Option PendingClosedSessionGcV2) :=
  let journal := store.readAuthorityJournal host
  match journal.corruption with
  | some corruption => .error s!"placement-authority journal is corrupt: {corruption}"
  | none => pendingGc journal.entries

def validateGcCompletionCredit (store : AuthorityStoreV2) : JournalEventV2 → Result Unit
  | .closedSessionGcCompleted sessionId terminalHead reclaimedBytes => do
      let pending ← store.pendingClosedSessionGc host
      PendingClosedSessionGcV2.requireCompletedBy pending sessionId terminalHead reclaimedBytes
  | _ => .ok ()

/-- The debit under which the entry may be appended, if it may. -/
def transition (store : AuthorityStoreV2) (entry : SignedJournalEntryV2) : Option Nat := do
  (store.validateGcCompletionCredit host entry.entry.event).toOption
  debitAfter host store.authorityControlBytes entry

/-- The inputs of an append whose admission is decided by the store. -/
def decided (store : AuthorityStoreV2) (entry : SignedJournalEntryV2) (io : AppendIoV2) : AppendIoV2 :=
  { io with admitted := (store.transition host entry).isSome }

/-- `append_authority_entry`. The debit is taken back when the append fails, unless the failure
is one after which the store has to be reopened. -/
def appendAuthorityEntry (io : AppendIoV2) (store : AuthorityStoreV2)
    (entry : SignedJournalEntryV2) : AuthorityStoreV2 × AppendOutcomeV2 :=
  let appended := store.journal.appendJournalFile host authorityJournalIdV2
    (store.decided host entry io) entry
  let next := (store.transition host entry).getD store.authorityControlBytes
  match appended with
  | (journal, .appended frameBytes) => (⟨journal, next⟩, .appended frameBytes)
  | (journal, .refused detail) =>
      if journal.reopenRequired && !store.journal.reopenRequired then
        (⟨journal, next⟩, .refused detail)
      else (⟨journal, store.authorityControlBytes⟩, .refused detail)

end AuthorityStoreV2

/-! ## Histories -/

/-- The authority journal of a root: its file while no store is open, or the open store. -/
inductive AuthorityRootV2 where
  | stopped (file : Bytes)
  | live (store : AuthorityStoreV2)
deriving DecidableEq

/-- What can happen to it. Every record of a tail repair, an authorization or a completion is an
append, also those made while the store is still being opened. -/
inductive AuthorityEventV2 where
  | open
  | append (entry : SignedJournalEntryV2) (io : AppendIoV2)
  | poisonedElsewhere
  | stop (inFlight : Option (SignedJournalEntryV2 × AppendIoV2)) (kept : Nat)

namespace AuthorityRootV2

variable (host : JournalHost)

/-- `initialize_journal` at the authority journal. A torn tail is cut off before the debit is
restored. -/
def openAuthority (file : Bytes) : AuthorityRootV2 :=
  match initializeJournal host authorityJournalIdV2 file with
  | .error _ => .stopped file
  | .ok (entries, file, head) =>
      match authorityControlDebit host entries >>= restoreAuthorityControlHeadroom with
      | .error _ => .stopped file
      | .ok debit => .live ⟨⟨file, head, false⟩, debit⟩

def step : AuthorityRootV2 → AuthorityEventV2 → AuthorityRootV2
  | .stopped file, .open => openAuthority host file
  | .live store, .append entry io => .live (store.appendAuthorityEntry host io entry).1
  | .live store, .poisonedElsewhere =>
      .live { store with journal := { store.journal with reopenRequired := true } }
  | .live store, .stop inFlight kept =>
      .stopped (store.journal.crash host authorityJournalIdV2
        (inFlight.map fun append => (append.1, store.decided host append.1 append.2)) kept)
  | root, _ => root

/-- The root after a history that starts with an empty journal. -/
def run (events : List AuthorityEventV2) : AuthorityRootV2 :=
  events.foldl (step host) (.stopped [])

end AuthorityRootV2

end Ostadix.Hosted
