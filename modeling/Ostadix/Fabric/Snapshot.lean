import Ostadix.Fabric.Entry

/-! # Durable snapshots

Every body the ledger publishes can be read back: the snapshot stays within the item budget,
the nesting depth and the byte bound of the bounded decoder. -/

namespace Ostadix.Fabric

open Ostadix.Lib Ostadix.CanonicalCbor List

def maxFabricLedgerSnapshotBytesV1 : Nat := 20 * 1024 * 1024
def maxFabricLedgerDecodeItemsV1 : Nat := 64 * 1024
def maxFabricLedgerDecodeDepthV1 : Nat := 64
def fabricLedgerSnapshotSchemaV1 : String := "ostadix.fabric-attempt-ledger/v1"
def fabricLedgerBodyDigestDomainV1 : Bytes := utf8Bytes "ostadix/fabric-attempt-ledger/body/v1"

structure FabricLedgerSnapshotV1 where
  schema : String
  body : FabricLedgerBodyV1
  bodySha256 : Sha256DigestV1
deriving DecidableEq

def ledgerBodySha256 (host : FabricHost) (body : FabricLedgerBodyV1) : Sha256DigestV1 :=
  let bytes := encodeValue (toValue body)
  host.sha256 (fabricLedgerBodyDigestDomainV1 ++ toBigEndian 8 bytes.length ++ bytes)

namespace FabricLedgerSnapshotV1

def new (host : FabricHost) (body : FabricLedgerBodyV1) : Result FabricLedgerSnapshotV1 := do
  validateBody host body
  return ⟨fabricLedgerSnapshotSchemaV1, body, ledgerBodySha256 host body⟩

def validate (host : FabricHost) (snapshot : FabricLedgerSnapshotV1) : Result Unit := do
  bailIf (snapshot.schema != fabricLedgerSnapshotSchemaV1)
    "unsupported Fabric attempt-ledger snapshot schema"
  validateBody host snapshot.body
  bailIf (snapshot.bodySha256 != ledgerBodySha256 host snapshot.body)
    "Fabric attempt-ledger snapshot body digest mismatch"

def members (snapshot : FabricLedgerSnapshotV1) : List (String × Value) :=
  [("schema", toValue snapshot.schema),
   ("body", toValue snapshot.body),
   ("body_sha256", toValue snapshot.bodySha256)]

instance : Serde FabricLedgerSnapshotV1 where
  toValue snapshot := .object snapshot.members
  fromValue value :=
    match structFields ["schema", "body", "body_sha256"] true value with
    | some [some schema, some body, some bodySha256] => do
        return ⟨← fromValue schema, ← fromValue body, ← fromValue bodySha256⟩
    | _ => none
  toValue_ne_null := by simp
  fromValue_canonical snapshot := by
    have fields := structFields_canonical snapshot.members (by simp [members]) true
    simp only [members, map_cons, map_nil] at fields ⊢
    simp [fields]

end FabricLedgerSnapshotV1

/-! ## Writing and reading -/

/-- The bytes `persist_snapshot` stages, renames into place and reads back. -/
def persistedBytes (host : FabricHost) (body : FabricLedgerBodyV1) : Result Bytes := do
  let snapshot ← FabricLedgerSnapshotV1.new host body
  let bytes := encodeValue (toValue snapshot)
  bailIf (bytes.isEmpty || maxFabricLedgerSnapshotBytesV1 < bytes.length)
    "Fabric attempt-ledger snapshot exceeds its V1 byte bound"
  return bytes

/-- `read_snapshot` on the bytes of a regular file: the body and the digest of the file. -/
def readSnapshot (host : FabricHost) (bytes : Bytes) :
    Result (FabricLedgerBodyV1 × Sha256DigestV1) := do
  bailIf (bytes.isEmpty || maxFabricLedgerSnapshotBytesV1 < bytes.length)
    "Fabric ledger snapshot is outside its V1 byte bounds"
  let value ← (decodeBounded bytes ⟨maxFabricLedgerSnapshotBytesV1,
      maxFabricLedgerDecodeItemsV1, maxFabricLedgerDecodeDepthV1⟩).mapError fun error =>
    "Fabric ledger snapshot is not bounded canonical CBOR: " ++ error.message
  let snapshot : FabricLedgerSnapshotV1 ← okOr (fromValue value)
    "Fabric ledger snapshot is not bounded canonical CBOR: failed to lift wire value into message"
  snapshot.validate host
  bailIf (encodeValue (toValue snapshot) != bytes) "Fabric ledger snapshot is not canonical CBOR"
  return (snapshot.body, host.sha256 bytes)

/-! ## The number of items of a snapshot -/

theorem itemCountItems_bytes (bs : Bytes) : itemCountItems (bs.map toValue) = bs.length := by
  induction bs with
  | nil => rfl
  | cons byte bs ih =>
    rw [map_cons, itemCountItems, ih, length_cons, Nat.add_comm]
    rfl

@[simp] theorem itemCount_digest (dg : Sha256DigestV1) : itemCount (toValue dg) = 33 := by
  show 1 + itemCountItems (dg.bytes.map toValue) = 33
  rw [itemCountItems_bytes, dg.length_eq]

theorem itemCount_attempt (att : AttemptIdV1) : itemCount (toValue att) = 73 := by
  have execution : itemCount (toValue att.task.execution) = 33 :=
    itemCount_digest att.task.execution.digest
  show itemCount (.object [("task", .object [("execution", toValue att.task.execution),
    ("semantic_sha256", toValue att.task.semanticSha256)]),
    ("generation", toValue att.generation)]) = 73
  simp only [itemCount, itemCountMembers, execution, itemCount_digest]
  rfl

theorem itemCount_binding (bnd : FabricAttemptBindingV1) : itemCount (toValue bnd) = 189 := by
  have att := itemCount_attempt bnd.attempt
  show itemCount (.object bnd.members) = 189
  simp only [FabricAttemptBindingV1.members, itemCount, itemCountMembers, itemCount_digest, att]
  rfl

theorem itemCount_terminal (trm : FabricStoredTerminalV1) : itemCount (toValue trm) = 39 := by
  show itemCount (.object trm.members) = 39
  simp only [FabricStoredTerminalV1.members, itemCount, itemCountMembers, itemCount_digest]

theorem itemCount_entry_le (e : FabricLedgerEntryV1) : itemCount (toValue e) ≤ 241 := by
  have bnd := itemCount_binding e.binding
  have trm : itemCount (optionValue e.terminal) ≤ 39 := by
    cases e.terminal with
    | none => exact Nat.le_of_ble_eq_true rfl
    | some trm => exact le_of_eq (itemCount_terminal trm)
  have text : ∀ reason : Option String, itemCount (optionValue reason) = 1 := by
    intro reason
    cases reason <;> rfl
  have state : itemCount (toValue e.state) = 1 := rfl
  have schema : itemCount (toValue e.schema) = 1 := rfl
  have sequence : itemCount (toValue e.transitionSequence) = 1 := rfl
  show itemCount (.object e.members) ≤ 241
  simp only [FabricLedgerEntryV1.members, itemCount, itemCountMembers, bnd, text, state, schema,
    sequence]
  omega

theorem itemCount_entries_le (es : List FabricLedgerEntryV1) :
    itemCountItems (es.map toValue) ≤ 241 * es.length := by
  induction es with
  | nil => simp [itemCountItems]
  | cons e =>
    have first := itemCount_entry_le e
    rw [map_cons, itemCountItems, length_cons]
    omega

theorem itemCount_snapshot_le (snap : FabricLedgerSnapshotV1) :
    itemCount (toValue snap) ≤ 45 + 241 * snap.body.entries.length := by
  have entries := itemCount_entries_le snap.body.entries
  show itemCount (.object [("schema", toValue snap.schema),
    ("body", .object [("execution_cell_incarnation", toValue snap.body.executionCellIncarnation),
      ("entries", .array (snap.body.entries.map toValue))]),
    ("body_sha256", toValue snap.bodySha256)]) ≤ _
  have schema : itemCount (toValue snap.schema) = 1 := rfl
  have incarnation : itemCount (toValue snap.body.executionCellIncarnation) = 1 := rfl
  simp only [itemCount, itemCountMembers, itemCount_digest, schema, incarnation]
  omega

/-! ## The texts and the nesting of a snapshot

The longest text is the hexadecimal form of a candidate, twice sixteen kilobytes. -/

def maxSnapshotText : Nat := 32768

theorem shaped_digest (lv : Nat) (hn : 1 ≤ lv) (dg : Sha256DigestV1) :
    Shaped maxSnapshotText lv (toValue dg) := by
  refine ⟨hn, shapedItems_iff.mpr ?_⟩
  intro x hm
  obtain ⟨_, _, rfl⟩ := mem_map.mp hm
  trivial

theorem shaped_text {lv : Nat} {text : String} (hsh : (utf8Bytes text).length ≤ maxSnapshotText) :
    Shaped maxSnapshotText lv (toValue text) :=
  hsh

theorem shaped_semanticDigest (lv : Nat) (dg : SemanticDigestV1) :
    Shaped maxSnapshotText lv (toValue dg) := by
  refine shaped_text ?_
  rw [length_of_isLowerHex dg.valid]
  decide

theorem shaped_attempt (lv : Nat) (hn : 3 ≤ lv) (att : AttemptIdV1) :
    Shaped maxSnapshotText lv (toValue att) := by
  have task : Shaped maxSnapshotText (lv - 1) (toValue att.task) := by
    refine shaped_object (by omega) ?_ ?_
    · simp only [LogicalTaskIdV1.members, map_cons, map_nil]
      decide
    · exact ⟨shaped_digest _ (by omega) att.task.execution.digest,
        shaped_digest _ (by omega) att.task.semanticSha256⟩
  refine shaped_object (by omega) ?_ ?_
  · simp only [AttemptIdV1.members, map_cons, map_nil]
    decide
  · exact ⟨task, trivial⟩

variable {body : FabricLedgerBodyV1} {bnd : FabricAttemptBindingV1}
  {trm : FabricStoredTerminalV1}

theorem shaped_binding (lv : Nat) (hn : 4 ≤ lv) (n : (utf8Bytes bnd.nodeId).length ≤ 128) :
    Shaped maxSnapshotText lv (toValue bnd) := by
  refine shaped_object (by omega) ?_ ?_
  · simp only [FabricAttemptBindingV1.members, map_cons, map_nil]
    decide
  · exact ⟨shaped_semanticDigest _ _, shaped_attempt _ (by omega) _, shaped_semanticDigest _ _,
      shaped_semanticDigest _ _, shaped_digest _ (by omega) _, shaped_digest _ (by omega) _,
      shaped_digest _ (by omega) _, shaped_text (le_trans n (by decide)), trivial, trivial⟩

theorem shaped_terminal (lv : Nat) (hn : 2 ≤ lv) (header : trm.headerBytes.length ≤ 16384)
    (cand : trm.candidateBytes.length ≤ 16384) :
    Shaped maxSnapshotText lv (toValue trm) := by
  have hex : ∀ bs : Bytes, bs.length ≤ 16384 →
      Shaped maxSnapshotText (lv - 1) (.string (hexEncode bs)) := by
    intro bs short
    refine shaped_text ?_
    rw [length_hexEncode, maxSnapshotText]
    omega
  refine shaped_object (by omega) ?_ ?_
  · simp only [FabricStoredTerminalV1.members, map_cons, map_nil]
    decide
  · exact ⟨hex _ header, hex _ cand, shaped_digest _ (by omega) _⟩

/-! ### What validation says about an entry -/

theorem validate_nodeId (hv : bnd.validate = .ok ()) : (utf8Bytes bnd.nodeId).length ≤ 128 := by
  simp only [FabricAttemptBindingV1.validate, bind_eq_ok, bailIf_eq_ok, Bool.or_eq_false_iff,
    decide_eq_false_iff_not, not_lt] at hv
  obtain ⟨_, _, _, _, _, _, _, _, n⟩ := hv
  exact n.1.2

theorem validateReason_spec {code msg : String} (hv : validateReason code msg = .ok ()) :
    (utf8Bytes code).length ≤ 64 ∧ (utf8Bytes msg).length ≤ 1024 := by
  simp only [validateReason, bind_eq_ok, bailIf_eq_ok, Bool.or_eq_false_iff,
    decide_eq_false_iff_not, not_lt] at hv
  obtain ⟨_, code, msg⟩ := hv
  exact ⟨code.1.2, msg.1.2⟩

/-- The terminal material of an entry is short enough for the snapshot. -/
structure ShortMaterial (entry : FabricLedgerEntryV1) : Prop where
  terminal : ∀ terminal, entry.terminal = some terminal →
    terminal.headerBytes.length ≤ 16384 ∧ terminal.candidateBytes.length ≤ 16384
  code : ∀ code, entry.reasonCode = some code → (utf8Bytes code).length ≤ 64
  message : ∀ message, entry.reasonMessage = some message → (utf8Bytes message).length ≤ 1024

variable {host : FabricHost} {e : FabricLedgerEntryV1}

theorem shortMaterial_of_terminal {cand : FabricTerminalCandidateV1}
    (n : (utf8Bytes e.binding.nodeId).length ≤ 128)
    (hst : e.terminal = some trm) (hk : trm.validate host = .ok ())
    (hdec : trm.decodeTerminalCandidate host = .ok cand)
    (hb : validateTerminalBinding e.binding cand = .ok ())
    (noCode : e.reasonCode = none) (noMessage : e.reasonMessage = none) :
    ShortMaterial e := by
  refine ⟨?_, by simp [noCode], by simp [noMessage]⟩
  intro o he
  rw [hst] at he
  cases he
  rw [FabricStoredTerminalV1.decodeTerminalCandidate, mapError_eq_ok] at hdec
  refine ⟨length_headerBytes_le hdec hb n, ?_⟩
  simp only [FabricStoredTerminalV1.validate, FabricStoredTerminalV1.newExact, bind_eq_ok,
    bailIf_eq_ok, Bool.or_eq_false_iff, decide_eq_false_iff_not, not_lt] at hk
  obtain ⟨_, ⟨_, _, _, candidateBound, _⟩, _⟩ := hk
  exact candidateBound.2

theorem shortMaterial_of_reason {code msg : String} (noTerminal : e.terminal = none)
    (hasCode : e.reasonCode = some code) (hasMessage : e.reasonMessage = some msg)
    (hv : validateReason code msg = .ok ()) : ShortMaterial e := by
  obtain ⟨shortCode, shortMessage⟩ := validateReason_spec hv
  refine ⟨by simp [noTerminal], ?_, ?_⟩
  · intro o he
    rw [hasCode] at he
    cases he
    exact shortCode
  · intro o he
    rw [hasMessage] at he
    cases he
    exact shortMessage

theorem shortMaterial_of_validateState (n : (utf8Bytes e.binding.nodeId).length ≤ 128)
    (hv : e.validateState host = .ok ()) : ShortMaterial e := by
  unfold FabricLedgerEntryV1.validateState at hv
  cases hre : e.state with
  | terminalCandidate =>
    simp only [hre, bind_eq_ok, okOr_eq_ok, bailIf_eq_ok, Bool.or_eq_false_iff,
      Option.isSome_eq_false_iff, Option.isNone_iff_eq_none] at hv
    obtain ⟨_, hst, _, hk, _, hdec, _, hb, noCode, noMessage⟩ := hv
    exact shortMaterial_of_terminal n hst hk hdec hb noCode noMessage
  | rejected | abandoned =>
    simp only [hre, bind_eq_ok, okOr_eq_ok, bailIf_eq_ok, Option.isSome_eq_false_iff,
      Option.isNone_iff_eq_none] at hv
    obtain ⟨_, noTerminal, _, hasCode, _, hasMessage, reason⟩ := hv
    exact shortMaterial_of_reason noTerminal hasCode hasMessage reason
  | received | validated | accepted | running =>
    simp only [hre, bailIf_eq_ok, Bool.or_eq_false_iff, Option.isSome_eq_false_iff,
      Option.isNone_iff_eq_none] at hv
    obtain ⟨⟨noTerminal, noCode⟩, noMessage⟩ := hv
    exact ⟨by simp [noTerminal], by simp [noCode], by simp [noMessage]⟩

theorem shaped_optionText {lv bd : Nat} {text : Option String}
    (hsh : ∀ v, text = some v → (utf8Bytes v).length ≤ bd)
    (hsm : bd ≤ maxSnapshotText) : Shaped maxSnapshotText lv (optionValue text) := by
  cases text with
  | none => trivial
  | some v => exact shaped_text (le_trans (hsh v rfl) hsm)

theorem shaped_entry (lv : Nat) (hn : 5 ≤ lv) (hv : e.validate host = .ok ()) :
    Shaped maxSnapshotText lv (toValue e) := by
  simp only [FabricLedgerEntryV1.validate, bind_eq_ok, bailIf_eq_ok, bne_eq_false_iff_eq] at hv
  obtain ⟨_, schema, _, bnd, _, _, material⟩ := hv
  have node := validate_nodeId bnd
  have hsh := shortMaterial_of_validateState node material
  have trm : Shaped maxSnapshotText (lv - 1) (optionValue e.terminal) := by
    cases hst : e.terminal with
    | none => trivial
    | some trm =>
      obtain ⟨header, cand⟩ := hsh.terminal trm hst
      exact shaped_terminal _ (by omega) header cand
  have state : Shaped maxSnapshotText (lv - 1) (toValue e.state) := by
    cases e.state <;> exact shaped_text (by decide)
  refine shaped_object (by omega) ?_ ?_
  · simp only [FabricLedgerEntryV1.members, map_cons, map_nil]
    decide
  · refine ⟨?_, shaped_binding _ (by omega) node, state, trivial, trm,
      shaped_optionText hsh.code (by decide), shaped_optionText hsh.message (by decide)⟩
    rw [schema]
    exact shaped_text (by decide)

theorem shaped_snapshot (lv : Nat) (hn : 8 ≤ lv) {snap : FabricLedgerSnapshotV1}
    (schema : snap.schema = fabricLedgerSnapshotSchemaV1)
    (hv : ∀ e ∈ snap.body.entries, e.validate host = .ok ()) :
    Shaped maxSnapshotText lv (toValue snap) := by
  have es : Shaped maxSnapshotText (lv - 1 - 1) (toValue snap.body.entries) := by
    refine ⟨by omega, shapedItems_iff.mpr ?_⟩
    intro x hm
    obtain ⟨e, hst, rfl⟩ := mem_map.mp hm
    exact shaped_entry _ (by omega) (hv e hst)
  have bd : Shaped maxSnapshotText (lv - 1) (toValue snap.body) := by
    refine shaped_object (by omega) ?_ ?_
    · simp only [FabricLedgerBodyV1.members, map_cons, map_nil]
      decide
    · exact ⟨trivial, es⟩
  refine shaped_object (by omega) ?_ ?_
  · simp only [FabricLedgerSnapshotV1.members, map_cons, map_nil]
    decide
  · refine ⟨?_, bd, shaped_digest _ (by omega) _⟩
    rw [schema]
    exact shaped_text (by decide)

/-! ## A published snapshot is readable -/

theorem validateBody_spec (hv : validateBody host body = .ok ()) :
    body.entries.length ≤ maxFabricLedgerEntriesV1 ∧
      ∀ e ∈ body.entries, e.validate host = .ok () := by
  simp only [validateBody, bind_eq_ok, bailIf_eq_ok, decide_eq_false_iff_not, not_lt] at hv
  obtain ⟨_, few, _, es, _⟩ := hv
  refine ⟨few, ?_⟩
  intro e hm
  have hk := forM_eq_ok.mp es e hm
  rw [bind_eq_ok] at hk
  obtain ⟨_, hv, _⟩ := hk
  exact hv

/-- Whatever `persist_snapshot` writes, `read_snapshot` accepts and decodes to the same body. -/
theorem readSnapshot_persistedBytes {bs : Bytes} (hper : persistedBytes host body = .ok bs) :
    readSnapshot host bs = .ok (body, host.sha256 bs) := by
  simp only [persistedBytes, FabricLedgerSnapshotV1.new, bind_eq_ok, bailIf_eq_ok] at hper
  obtain ⟨snap, ⟨_, hv, built⟩, _, inBounds, hret⟩ := hper
  cases built
  cases hret
  obtain ⟨few, es⟩ := validateBody_spec hv
  let snap : FabricLedgerSnapshotV1 :=
    ⟨fabricLedgerSnapshotSchemaV1, body, ledgerBodySha256 host body⟩
  have hsh : (encodeValue (toValue snap)).length ≤ maxFabricLedgerSnapshotBytesV1 := by
    simp only [Bool.or_eq_false_iff, decide_eq_false_iff_not, not_lt] at inBounds
    exact inBounds.2
  have n := itemCount_snapshot_le snap
  have budget : itemCount (toValue snap) + maxSnapshotText ≤ maxFabricLedgerDecodeItemsV1 := by
    have : snap.body.entries.length ≤ 128 := few
    show _ + 32768 ≤ 65536
    omega
  have hdec : decodeBounded (encodeValue (toValue snap)) ⟨maxFabricLedgerSnapshotBytesV1,
      maxFabricLedgerDecodeItemsV1, maxFabricLedgerDecodeDepthV1⟩ =
      .ok (canonical (toValue snap)) :=
    decodeBounded_eq_ok (by decide)
      (shaped_snapshot maxFabricLedgerDecodeDepthV1 (by decide) rfl es) budget hsh
  have hk : snap.validate host = .ok () := by
    simp only [FabricLedgerSnapshotV1.validate, bind_eq_ok, bailIf_eq_ok, bne_eq_false_iff_eq]
    exact ⟨(), rfl, (), hv, rfl⟩
  simp only [readSnapshot, bind_eq_ok, bailIf_eq_ok, mapError_eq_ok, okOr_eq_ok]
  exact ⟨(), inBounds, _, hdec, snap, Serde.fromValue_canonical snap, (), hk, (),
    bne_self_eq_false _, rfl⟩

/-- The bounded decode of a published snapshot does not fail, and `read_snapshot` returns the
body that was written. -/
theorem published_snapshot_is_readable {host : FabricHost} {body : FabricLedgerBodyV1}
    {bytes : Bytes} (persisted : persistedBytes host body = .ok bytes) :
    (∃ value, decodeBounded bytes ⟨maxFabricLedgerSnapshotBytesV1, maxFabricLedgerDecodeItemsV1,
      maxFabricLedgerDecodeDepthV1⟩ = .ok value) ∧
      readSnapshot host bytes = .ok (body, host.sha256 bytes) := by
  have read := readSnapshot_persistedBytes persisted
  refine ⟨?_, read⟩
  simp only [readSnapshot, bind_eq_ok, mapError_eq_ok] at read
  obtain ⟨_, _, value, decoded, _⟩ := read
  exact ⟨value, decoded⟩

/-! ## A ledger with one received attempt -/

def sampleDigest : Sha256DigestV1 :=
  ⟨List.replicate 32 1, by decide⟩

def sampleSemanticDigest : SemanticDigestV1 :=
  ⟨"0000000000000000000000000000000000000000000000000000000000000000", by decide⟩

def sampleHost : FabricHost where
  sha256 := fun _ => sampleDigest
  readResponseEnvelope := fun _ => none
  candidateRepresentation := fun _ => .ok ()
  validateCandidate := fun _ => .ok ()

def sampleBinding : FabricAttemptBindingV1 where
  issuerKeyId := sampleSemanticDigest
  attempt := ⟨⟨⟨sampleDigest⟩, sampleDigest⟩, 1⟩
  leaseNonce := sampleSemanticDigest
  tlsClientPrincipalSha256 := sampleSemanticDigest
  submissionBindingSha256 := sampleDigest
  capsuleSha256 := sampleDigest
  sourceClosureSha256 := sampleDigest
  nodeId := "node-1"
  nodeGeneration := ⟨1, by decide⟩
  executionCellIncarnation := ⟨1, by decide⟩

def sampleBody : FabricLedgerBodyV1 :=
  ⟨⟨1, by decide⟩, [.new sampleBinding .received]⟩

/-- On this host a valid body with a short encoding is published. -/
theorem persistedBytes_short (hv : validateBody sampleHost body = .ok ())
    (hsm : sizeBound (toValue (⟨fabricLedgerSnapshotSchemaV1, body, sampleDigest⟩ :
      FabricLedgerSnapshotV1)) ≤ maxFabricLedgerSnapshotBytesV1) :
    persistedBytes sampleHost body = .ok (encodeValue (toValue
      (⟨fabricLedgerSnapshotSchemaV1, body, sampleDigest⟩ : FabricLedgerSnapshotV1))) := by
  let snap : FabricLedgerSnapshotV1 := ⟨fabricLedgerSnapshotSchemaV1, body, sampleDigest⟩
  have hpos := length_encodeValue_pos (toValue snap)
  have hsh := length_encodeValue_le (toValue snap)
  have inBounds : ((encodeValue (toValue snap)).isEmpty ||
      decide (maxFabricLedgerSnapshotBytesV1 < (encodeValue (toValue snap)).length)) = false := by
    rw [Bool.or_eq_false_iff, isEmpty_eq_false_iff, decide_eq_false_iff_not]
    exact ⟨ne_nil_of_length_pos hpos, Nat.not_lt.mpr (hsh.trans hsm)⟩
  simp only [persistedBytes, FabricLedgerSnapshotV1.new, bind_eq_ok, bailIf_eq_ok]
  exact ⟨snap, ⟨(), hv, rfl⟩, (), inBounds, rfl⟩

theorem persistedBytes_sampleBody : persistedBytes sampleHost sampleBody = .ok (encodeValue (toValue
      (⟨fabricLedgerSnapshotSchemaV1, sampleBody, sampleDigest⟩ : FabricLedgerSnapshotV1))) :=
  persistedBytes_short rfl (by decide +kernel)

theorem sample_snapshot_is_readable :
    readSnapshot sampleHost (encodeValue (toValue
      (⟨fabricLedgerSnapshotSchemaV1, sampleBody, sampleDigest⟩ : FabricLedgerSnapshotV1))) =
      .ok (sampleBody, sampleDigest) :=
  (published_snapshot_is_readable persistedBytes_sampleBody).2

end Ostadix.Fabric
