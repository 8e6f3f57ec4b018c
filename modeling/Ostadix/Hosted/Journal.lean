import Ostadix.Hosted.Protocol
import Ostadix.Lib.Framing
import Ostadix.Lib.Machine

/-! # The journal file

One journal of the durable store: how its file is scanned, how an entry is appended to it when
any step of the file system may fail, and how the store opens it. The store owns its root
exclusively and an append holds the head's mutex, so the appends to one journal form one
sequence. -/

namespace Ostadix.Hosted

open Ostadix.Lib Ostadix.Fabric Ostadix.CanonicalCbor

def maxHostedFrameBytes : Nat := 2 * 1024 * 1024
def authorityJournalIdV2 : String := "placement-authority"

/-! ## Frames -/

/-- `wire::encode_message` and `wire::decode_message` at one message type. A message that fits in
a frame is read back as it was written. -/
structure HostedCodec (α : Type) where
  encodeMessage : α → Option Bytes
  decodeMessage : Bytes → Option α
  decode_encode : ∀ {message bytes}, encodeMessage message = some bytes →
    bytes.length ≤ maxHostedFrameBytes → decodeMessage bytes = some message

/-- The canonical encoder is such a codec for every message type whose short messages are well
formed. -/
def HostedCodec.canonicalCbor {α : Type} [Serde α]
    (wellFormed : ∀ message : α, (encodeValue (toValue message)).length ≤ maxHostedFrameBytes →
      (toValue message).WellFormed) : HostedCodec α where
  encodeMessage message := some (encodeValue (toValue message))
  decodeMessage bytes := (decode bytes).toOption.bind fromValue
  decode_encode {message bytes} encoded short := by
    cases encoded
    simp [decode_encodeValue (wellFormed message short), Except.toOption]

variable {α : Type}

/-- `canonical_hosted_frame`: a four-byte length and the payload. -/
def canonicalHostedFrame (codec : HostedCodec α) (message : α) : Option Bytes := do
  let payload ← codec.encodeMessage message
  if maxHostedFrameBytes < payload.length then none
  else some (frame payload)

/-- `read_hosted_frame` on a complete frame: the message, if the payload is its canonical
encoding. -/
def readHostedFrame [DecidableEq α] (codec : HostedCodec α) (payload : Bytes) : Option α := do
  let message ← codec.decodeMessage payload
  let canonical ← codec.encodeMessage message
  if canonical = payload then some message else none

/-! ## Where an event may stand -/

def validateJournalEventLocation (journalId : String) : JournalEventV2 → Result Unit
  | .closedSessionGcAuthorized sessionId terminalHead _ retainedSha256 retainedBytes => do
      bailIf (journalId != authorityJournalIdV2)
        "ClosedSessionGcAuthorized is permitted only in the placement-authority journal"
      validateSha256V2 "retired session_id" sessionId
      validateSha256V2 "terminal_journal_head_sha256" terminalHead
      validateSha256V2 "retained_journal_sha256" retainedSha256
      bailIf (retainedBytes == 0) "signed retained GC journal must not be empty"
  | .closedSessionGcCompleted sessionId terminalHead _ => do
      bailIf (journalId != authorityJournalIdV2)
        "ClosedSessionGcCompleted is permitted only in the placement-authority journal"
      validateSha256V2 "retired session_id" sessionId
      validateSha256V2 "terminal_journal_head_sha256" terminalHead
  | .journalTailRepaired repairedJournalId oldBytes newBytes recoveredHead => do
      bailIf (journalId != authorityJournalIdV2)
        "JournalTailRepaired is permitted only in the placement-authority journal"
      if repairedJournalId != authorityJournalIdV2 then
        validateSha256V2 "repaired journal_id" repairedJournalId
      bailIf (oldBytes ≤ newBytes) "JournalTailRepaired does not describe a strict truncation"
      bailIf ((newBytes == 0) != recoveredHead.isNone)
        "JournalTailRepaired recovered head does not match its retained byte prefix"
      match recoveredHead with
      | some head => validateSha256V2 "recovered_head_sha256" head
      | none => pure ()
  | _ => pure ()

/-! ## Scanning -/

/-- The parts of the store that are not this journal: the wire codec of its entries, the check of
an entry's digest and signature, and the public key of the node. -/
structure JournalHost where
  codec : HostedCodec SignedJournalEntryV2
  verify : SignedJournalEntryV2 → Bool
  publicKeyHex : String

structure JournalHeadV2 where
  nextSequence : Nat
  headSha256 : Option String
  bytes : Nat
deriving DecidableEq

structure TornJournalTailV2 where
  oldBytes : Nat
  newBytes : Nat
  recoveredHeadSha256 : Option String
deriving DecidableEq

structure JournalScanV2 where
  entries : List SignedJournalEntryV2
  head : JournalHeadV2
  corruption : Option String
  tornTail : Option TornJournalTailV2
deriving DecidableEq

/-- The loop variables of the scan. -/
structure ScanStateV2 where
  entries : List SignedJournalEntryV2
  expectedSequence : Nat
  expectedPrevious : Option String
  offset : Nat
deriving DecidableEq

def ScanStateV2.start : ScanStateV2 :=
  ⟨[], 1, none, 0⟩

namespace ScanStateV2

def torn (state : ScanStateV2) (oldBytes : Nat) : JournalScanV2 :=
  ⟨state.entries, ⟨state.expectedSequence, state.expectedPrevious, state.offset⟩, none,
    some ⟨oldBytes, state.offset, state.expectedPrevious⟩⟩

def corrupt (state : ScanStateV2) (bytes : Nat) (corruption : String) : JournalScanV2 :=
  ⟨state.entries, ⟨state.expectedSequence, state.expectedPrevious, bytes⟩, some corruption, none⟩

def finished (state : ScanStateV2) (bytes : Nat) : JournalScanV2 :=
  ⟨state.entries, ⟨state.expectedSequence, state.expectedPrevious, bytes⟩, none, none⟩

/-- The loop variables behind a frame of `frameBytes` bytes. -/
def after (state : ScanStateV2) (entry : SignedJournalEntryV2) (frameBytes : Nat) : ScanStateV2 :=
  ⟨state.entries ++ [entry], state.expectedSequence + 1, some entry.entrySha256,
    state.offset + frameBytes⟩

/-- The checks of one complete frame, and the loop variables after it. -/
def accept (host : JournalHost) (journalId : String) (state : ScanStateV2) (payload : Bytes) :
    Result ScanStateV2 := do
  let entry ← okOr (readHostedFrame host.codec payload)
    s!"complete invalid frame at byte {state.offset}"
  bailIf (!host.verify entry) s!"complete invalid signed frame at byte {state.offset}"
  bailIf (entry.signerPublicKey != host.publicKeyHex)
    s!"frame at byte {state.offset} was signed by a different node key"
  bailIf (entry.entry.sessionId != journalId || entry.entry.sequence != state.expectedSequence ||
      entry.entry.previousEntrySha256 != state.expectedPrevious)
    s!"journal sequence or hash-chain discontinuity at byte {state.offset}"
  (validateJournalEventLocation journalId entry.entry.event).mapError fun error =>
    "invalid journal event location or shape: " ++ error
  bailIf (2 ^ 64 ≤ state.expectedSequence + 1) "hosted V2 journal sequence overflow"
  return state.after entry (4 + payload.length)

end ScanStateV2

/-- The scan loop over the unread bytes of a file of `oldBytes` bytes. A complete frame has at
least four bytes, so the file's length bounds the number of frames. -/
def scanFrames (host : JournalHost) (journalId : String) (oldBytes : Nat) :
    Nat → ScanStateV2 → Bytes → JournalScanV2
  | 0, state, _ => state.finished oldBytes
  | fuel + 1, state, unread =>
      if unread.isEmpty then state.finished oldBytes
      else
        match frameAt maxHostedFrameBytes unread with
        | .incomplete => state.torn oldBytes
        | .oversized length => state.corrupt oldBytes
            s!"complete frame length {length} exceeds maximum {maxHostedFrameBytes} at byte {state.offset}"
        | .complete payload rest =>
            match state.accept host journalId payload with
            | .error corruption => state.corrupt oldBytes corruption
            | .ok next => scanFrames host journalId oldBytes fuel next rest

def scanValidatedJournal (host : JournalHost) (journalId : String) (file : Bytes) : JournalScanV2 :=
  scanFrames host journalId file.length (file.length + 1) .start file

/-! ## Opening -/

/-- `initialize_journal`: the entries, and the file and head after a torn tail was cut off. -/
def initializeJournal (host : JournalHost) (journalId : String) (file : Bytes) :
    Result (List SignedJournalEntryV2 × Bytes × JournalHeadV2) :=
  let scan := scanValidatedJournal host journalId file
  match scan.corruption with
  | some corruption =>
      .error s!"refusing to open corrupt hosted V2 journal `{journalId}`: {corruption}"
  | none =>
      if journalId != authorityJournalIdV2 && scan.entries.isEmpty then
        .error s!"refusing hosted V2 session journal `{journalId}` without a validated first frame"
      else
        match scan.tornTail with
        | none => .ok (scan.entries, file, scan.head)
        | some torn =>
            if file.length != torn.oldBytes || decide (torn.oldBytes ≤ torn.newBytes) then
              .error "hosted V2 journal changed while its torn tail was being repaired"
            else .ok (scan.entries, file.take torn.newBytes, { scan.head with bytes := torn.newBytes })

/-! ## Appending -/

/-- What the file system and the rest of the store do during one append. `admitted` is the
collection credit and the control headroom of the authority journal, `available` the access to
the file before it is written; `written` is the number of frame bytes that reach the file, and
`wrote` whether the write reports success (it reports success only for a whole frame). -/
structure AppendIoV2 where
  admitted : Bool
  available : Bool
  written : Nat
  wrote : Bool
  afterWrite : Bool
  fileSync : Bool
  afterFileSync : Bool
  verifyRead : Bool
  inspect : Bool
  reconcileRead : Bool
  beforeReconcileFileSync : Bool
  reconcileFileSync : Bool
  reconcileReadAgain : Bool
deriving DecidableEq

/-- A journal of an open store: its file, the cached head, and whether the store has to be
reopened. -/
structure JournalStoreV2 where
  file : Bytes
  head : JournalHeadV2
  reopenRequired : Bool
deriving DecidableEq

inductive AppendOutcomeV2 where
  | appended (frameBytes : Nat)
  | refused (detail : String)
deriving DecidableEq

/-- The length and the tail of the file are those the append produces. -/
def verifyExactAppendedFrame (readable : Bool) (file : Bytes) (before expectedAfter : Nat)
    (frame : Bytes) : Bool :=
  readable && file.length == expectedAfter && (file.drop before).take frame.length == frame

namespace JournalStoreV2

def poison (store : JournalStoreV2) (detail : String) : JournalStoreV2 × AppendOutcomeV2 :=
  ({ store with reopenRequired := true }, .refused detail)

/-- The head moves behind the entry once its frame is durable. -/
def advance (store : JournalStoreV2) (entry : SignedJournalEntryV2) (frame : Bytes)
    (expectedAfter : Nat) : JournalStoreV2 × AppendOutcomeV2 :=
  ({ store with head := ⟨store.head.nextSequence + 1, some entry.entrySha256, expectedAfter⟩ },
    .appended frame.length)

/-- An append failed after it may have written. -/
def reconcileAppendedFrame (io : AppendIoV2) (store : JournalStoreV2)
    (entry : SignedJournalEntryV2) (before expectedAfter : Nat) (frame : Bytes) :
    JournalStoreV2 × AppendOutcomeV2 :=
  if !io.inspect then store.poison "cannot inspect journal after append error"
  else if store.file.length = before then
    (store, .refused "journal append failed before changing durable bytes")
  else if !verifyExactAppendedFrame io.reconcileRead store.file before expectedAfter frame then
    store.poison "journal append failed and its tail is not the exact canonical frame"
  else if !io.beforeReconcileFileSync then
    store.poison "journal tail is exact after append error but reconciliation was interrupted"
  else if !io.reconcileFileSync then
    store.poison "journal tail is exact after append error but file sync cannot prove durability"
  else if !verifyExactAppendedFrame io.reconcileReadAgain store.file before expectedAfter frame then
    store.poison "journal changed while reconciling an exact appended frame"
  else store.advance entry frame expectedAfter

/-- Everything that precedes the write: the frame to be written, or why nothing is. -/
def frameToWrite (host : JournalHost) (journalId : String) (io : AppendIoV2)
    (store : JournalStoreV2) (entry : SignedJournalEntryV2) : Result Bytes := do
  bailIf store.reopenRequired "durable store state is indeterminate; reopen is required"
  bailIf (!host.verify entry) "hosted journal signature is invalid"
  bailIf (entry.entry.sessionId != journalId)
    "refusing to append a journal entry to a different session"
  bailIf (entry.signerPublicKey != host.publicKeyHex)
    "refusing to append a journal entry signed by another node key"
  validateJournalEventLocation journalId entry.entry.event
  bailIf (!io.admitted) "refusing the authority control transition"
  bailIf (entry.entry.sequence != store.head.nextSequence ||
      entry.entry.previousEntrySha256 != store.head.headSha256)
    "refusing non-contiguous hosted V2 journal append"
  let frame ← okOr (canonicalHostedFrame host.codec entry)
    "canonical hosted message exceeds its frame"
  bailIf (2 ^ 64 ≤ store.head.nextSequence + 1) "hosted V2 journal sequence overflow"
  bailIf (!io.available) "hosted V2 journal append target is not a regular file"
  bailIf (store.file.length != store.head.bytes)
    "hosted V2 journal byte length differs from its validated cached head; restart is required"
  bailIf (2 ^ 64 ≤ store.file.length + frame.length) "hosted V2 journal byte length overflow"
  return frame

/-- The write of a frame and everything after it. The sync of the parent directory that follows is
no input here: its failure is ignored. -/
def writeFrame (io : AppendIoV2) (store : JournalStoreV2) (entry : SignedJournalEntryV2)
    (frame : Bytes) : JournalStoreV2 × AppendOutcomeV2 :=
  let before := store.file.length
  let expectedAfter := before + frame.length
  let store := { store with file := store.file ++ frame.take io.written }
  if io.wrote && decide (frame.length ≤ io.written) && io.afterWrite && io.fileSync &&
      io.afterFileSync then
    if verifyExactAppendedFrame io.verifyRead store.file before expectedAfter frame then
      store.advance entry frame expectedAfter
    else store.poison "file-synced journal append cannot be revalidated"
  else store.reconcileAppendedFrame io entry before expectedAfter frame

/-- `append_journal_file` and the append under the lock of the head. -/
def appendJournalFile (host : JournalHost) (journalId : String) (io : AppendIoV2)
    (store : JournalStoreV2) (entry : SignedJournalEntryV2) : JournalStoreV2 × AppendOutcomeV2 :=
  match store.frameToWrite host journalId io entry with
  | .error detail => (store, .refused detail)
  | .ok frame => store.writeFrame io entry frame

/-- What the file holds after the process stops. Nothing that was synced is lost. Of the frame
that was being written, by an append that is still running or by one that left the store to be
reopened, any prefix remains. -/
def crash (host : JournalHost) (journalId : String) (store : JournalStoreV2)
    (inFlight : Option (SignedJournalEntryV2 × AppendIoV2)) (kept : Nat) : Bytes :=
  let writing := inFlight.bind fun append =>
    (store.frameToWrite host journalId append.2 append.1).toOption
  match writing with
  | some frame => store.file ++ frame.take kept
  | none => store.file.take (store.head.bytes + kept)

end JournalStoreV2

end Ostadix.Hosted
