import Ostadix.Fabric.Binding
import Ostadix.Lib.Hex

/-! # Stored terminal candidates

A terminal entry keeps the exact header and candidate bytes of the signed response. The header
has to decode to a terminal-candidate receipt that matches the binding, which bounds its
length far below the protocol maximum. -/

namespace Ostadix.Fabric

open Ostadix.Lib Ostadix.CanonicalCbor List

def maxFabricHeaderBytes : Nat := 48 * 1024
def maxExecutionCandidateBytes : Nat := 16 * 1024
def maxFabricHeaderItems : Nat := 200000
def maxFabricHeaderDepth : Nat := 64

def fabricResponseSchemaV1 : String := "ostadix.execution-fabric-response/v1"
def fabricTerminalReceiptSchemaV1 : String := "ostadix.execution-fabric-terminal-receipt/v1"
def fabricSignedTerminalReceiptSchemaV1 : String :=
  "ostadix.signed-execution-fabric-terminal-receipt/v1"

/-! ## Receipts -/

structure FabricExactPayloadV1 where
  byteLength : UInt32
  sha256 : Sha256DigestV1
deriving DecidableEq

structure TerminalCandidateReceiptV1 where
  schema : String
  nodeId : String
  nodeGeneration : GenerationV1
  executionCellIncarnation : ExecutionCellIncarnationV1
  attempt : AttemptIdV1
  issuerKeyId : SemanticDigestV1
  leaseNonce : SemanticDigestV1
  leaseSha256 : Sha256DigestV1
  submissionBindingSha256 : Sha256DigestV1
  capsuleSha256 : Sha256DigestV1
  sourceClosureSha256 : Sha256DigestV1
  inputManifestSha256 : Sha256DigestV1
  outputContractSha256 : Sha256DigestV1
  backendCatalogSha256 : Sha256DigestV1
  backendImplementationSha256 : Sha256DigestV1
  outputContentSha256 : Sha256DigestV1
  candidatePayload : FabricExactPayloadV1
  runtimeObservationMs : UInt64
  providerCompletedUnixMs : UInt64
deriving DecidableEq

structure SignedTerminalCandidateReceiptV1 where
  schema : String
  receipt : TerminalCandidateReceiptV1
  signerPublicKey : String
  signerKeyId : String
  signature : String
deriving DecidableEq

structure FabricTerminalCandidateV1 where
  signedReceipt : SignedTerminalCandidateReceiptV1
  candidateBytes : Bytes
deriving DecidableEq

/-- The header of a response. The ledger hands every header to the decoder together with a
payload, which rejects all statuses but the terminal candidate, so those keep their status
name and their body as it stands. -/
inductive FabricResponseHeaderKindV1 where
  | terminalCandidate (receipt : SignedTerminalCandidateReceiptV1)
  | other (status : String) (body : Value)

structure FabricResponseEnvelopeV1 where
  schema : String
  response : FabricResponseHeaderKindV1

/-- What the ledger takes from other components: the hash function, the derived deserialiser
of response envelopes, and the structural and the full check of execution candidates. -/
structure FabricHost where
  sha256 : Bytes → Sha256DigestV1
  readResponseEnvelope : Value → Option FabricResponseEnvelopeV1
  candidateRepresentation : Bytes → Result Unit
  validateCandidate : FabricTerminalCandidateV1 → Result Unit

/-! ## Serialisation of a response -/

def FabricExactPayloadV1.toValue (payload : FabricExactPayloadV1) : Value :=
  .object [("byte_length", Serde.toValue payload.byteLength),
    ("sha256", Serde.toValue payload.sha256)]

def TerminalCandidateReceiptV1.toValue (receipt : TerminalCandidateReceiptV1) : Value :=
  .object [
    ("schema", Serde.toValue receipt.schema),
    ("node_id", Serde.toValue receipt.nodeId),
    ("node_generation", Serde.toValue receipt.nodeGeneration),
    ("execution_cell_incarnation", Serde.toValue receipt.executionCellIncarnation),
    ("attempt", Serde.toValue receipt.attempt),
    ("issuer_key_id", Serde.toValue receipt.issuerKeyId),
    ("lease_nonce", Serde.toValue receipt.leaseNonce),
    ("lease_sha256", Serde.toValue receipt.leaseSha256),
    ("submission_binding_sha256", Serde.toValue receipt.submissionBindingSha256),
    ("capsule_sha256", Serde.toValue receipt.capsuleSha256),
    ("source_closure_sha256", Serde.toValue receipt.sourceClosureSha256),
    ("input_manifest_sha256", Serde.toValue receipt.inputManifestSha256),
    ("output_contract_sha256", Serde.toValue receipt.outputContractSha256),
    ("backend_catalog_sha256", Serde.toValue receipt.backendCatalogSha256),
    ("backend_implementation_sha256", Serde.toValue receipt.backendImplementationSha256),
    ("output_content_sha256", Serde.toValue receipt.outputContentSha256),
    ("candidate_payload", receipt.candidatePayload.toValue),
    ("runtime_observation_ms", Serde.toValue receipt.runtimeObservationMs),
    ("provider_completed_unix_ms", Serde.toValue receipt.providerCompletedUnixMs),
    ("terminal_status", .string "terminal-candidate")]

def SignedTerminalCandidateReceiptV1.toValue (signed : SignedTerminalCandidateReceiptV1) : Value :=
  .object [
    ("schema", Serde.toValue signed.schema),
    ("receipt", signed.receipt.toValue),
    ("signer_public_key", Serde.toValue signed.signerPublicKey),
    ("signer_key_id", Serde.toValue signed.signerKeyId),
    ("signature", Serde.toValue signed.signature)]

def FabricResponseHeaderKindV1.toValue : FabricResponseHeaderKindV1 → Value
  | .terminalCandidate receipt =>
      .object [("status", .string "terminal-candidate"), ("body", receipt.toValue)]
  | .other status body => .object [("status", .string status), ("body", body)]

def FabricResponseEnvelopeV1.toValue (envelope : FabricResponseEnvelopeV1) : Value :=
  .object [("schema", Serde.toValue envelope.schema), ("response", envelope.response.toValue)]

/-! ## Decoding a response -/

def invalid (message : String) : String :=
  s!"invalid Fabric authority record: {message}"

def recordTooLarge (kind : String) (actual maximum : Nat) : String :=
  s!"Fabric {kind} record is {actual} bytes; maximum is {maximum}"

/-- `decode_canonical_bounded` at the response envelope. -/
def decodeResponseEnvelope (host : FabricHost) (bytes : Bytes) :
    Result FabricResponseEnvelopeV1 := do
  bailIf (maxFabricHeaderBytes < bytes.length)
    (recordTooLarge "response header" bytes.length maxFabricHeaderBytes)
  let value ← (decodeBounded bytes
      ⟨maxFabricHeaderBytes, maxFabricHeaderItems, maxFabricHeaderDepth⟩).mapError fun error =>
    "Fabric codec error: failed to decode response header: " ++ error.message
  let envelope ← okOr (host.readResponseEnvelope value)
    "Fabric codec error: failed to decode response header: failed to lift wire value into message"
  bailIf (encodeValue envelope.toValue != bytes)
    "Fabric response header record is not canonical CBOR"
  return envelope

def validateLowerHex (field : String) (text : String) (expectedBytes : Nat) : Result Unit :=
  bailIf (!isLowerHex expectedBytes text)
    (invalid s!"{field} must be exactly {expectedBytes} lowercase hexadecimal bytes")

def FabricExactPayloadV1.validate (payload : FabricExactPayloadV1) (maximum : Nat) :
    Result Unit := do
  bailIf (maximum < payload.byteLength.toNat)
    (recordTooLarge "declared payload" payload.byteLength.toNat maximum)
  bailIf payload.sha256.isZero (invalid "exact payload must not be the all-zero digest")

def SignedTerminalCandidateReceiptV1.validateRepresentationShape
    (signed : SignedTerminalCandidateReceiptV1) : Result Unit := do
  bailIf (signed.schema != fabricSignedTerminalReceiptSchemaV1)
    (invalid "unsupported signed terminal receipt schema")
  validateLowerHex "receipt signer public key" signed.signerPublicKey 32
  validateLowerHex "receipt signer key id" signed.signerKeyId 32
  validateLowerHex "receipt signature" signed.signature 64
  bailIf (signed.receipt.schema != fabricTerminalReceiptSchemaV1)
    (invalid "unsupported terminal-candidate receipt schema")
  signed.receipt.candidatePayload.validate maxExecutionCandidateBytes

/-- `decode_fabric_response_v1` with a payload, as far as it can succeed: all other statuses
refuse the payload. -/
def decodeFabricResponseV1 (host : FabricHost) (headerBytes payload : Bytes) :
    Result FabricTerminalCandidateV1 := do
  let envelope ← decodeResponseEnvelope host headerBytes
  bailIf (envelope.schema != fabricResponseSchemaV1)
    (invalid "unsupported Fabric response envelope schema")
  match envelope.response with
  | .other status _ => throw (invalid s!"Fabric {status} message carried an unexpected payload")
  | .terminalCandidate receipt =>
      bailIf (maxExecutionCandidateBytes < payload.length)
        (recordTooLarge "candidate" payload.length maxExecutionCandidateBytes)
      receipt.validateRepresentationShape
      (host.candidateRepresentation payload).mapError fun error =>
        invalid s!"terminal candidate: {error}"
      return ⟨receipt, payload⟩

/-! ## Stored terminals -/

structure FabricStoredTerminalV1 where
  headerBytes : Bytes
  candidateBytes : Bytes
  terminalSha256 : Sha256DigestV1
deriving DecidableEq

def fabricLedgerTerminalDigestDomainV1 : Bytes :=
  utf8Bytes "ostadix/fabric-attempt-ledger/terminal/v1"

def terminalPartsSha256 (host : FabricHost) (headerBytes candidateBytes : Bytes) : Sha256DigestV1 :=
  host.sha256 (fabricLedgerTerminalDigestDomainV1 ++ toBigEndian 8 headerBytes.length ++
    headerBytes ++ toBigEndian 8 candidateBytes.length ++ candidateBytes)

namespace FabricStoredTerminalV1

def newExact (host : FabricHost) (headerBytes candidateBytes : Bytes) :
    Result FabricStoredTerminalV1 := do
  bailIf (headerBytes.isEmpty || maxFabricHeaderBytes < headerBytes.length)
    "Fabric ledger terminal header is outside protocol bounds"
  bailIf (candidateBytes.isEmpty || maxExecutionCandidateBytes < candidateBytes.length)
    "Fabric ledger candidate payload is outside protocol bounds"
  return ⟨headerBytes, candidateBytes, terminalPartsSha256 host headerBytes candidateBytes⟩

/-- The exact bytes of the signed response that carries `candidate`. -/
def fromCandidate (host : FabricHost) (candidate : FabricTerminalCandidateV1) :
    Result FabricStoredTerminalV1 := do
  (host.validateCandidate candidate).mapError fun error =>
    s!"invalid Fabric terminal candidate: {error}"
  let headerBytes := encodeValue (FabricResponseEnvelopeV1.toValue
    ⟨fabricResponseSchemaV1, .terminalCandidate candidate.signedReceipt⟩)
  bailIf (maxFabricHeaderBytes < headerBytes.length)
    ("cannot encode Fabric terminal candidate: " ++
      recordTooLarge "response header" headerBytes.length maxFabricHeaderBytes)
  newExact host headerBytes candidate.candidateBytes

def decodeTerminalCandidate (host : FabricHost) (terminal : FabricStoredTerminalV1) :
    Result FabricTerminalCandidateV1 :=
  (decodeFabricResponseV1 host terminal.headerBytes terminal.candidateBytes).mapError fun error =>
    s!"stored Fabric terminal is invalid: {error}"

def validate (host : FabricHost) (terminal : FabricStoredTerminalV1) : Result Unit := do
  let expected ← newExact host terminal.headerBytes terminal.candidateBytes
  bailIf (expected.terminalSha256 != terminal.terminalSha256)
    "Fabric ledger terminal byte digest mismatch"
  let _ ← terminal.decodeTerminalCandidate host
  return ()

def members (terminal : FabricStoredTerminalV1) : List (String × Value) :=
  [("header_bytes", .string (hexEncode terminal.headerBytes)),
   ("candidate_bytes", .string (hexEncode terminal.candidateBytes)),
   ("terminal_sha256", toValue terminal.terminalSha256)]

/-- Durable bytes are read from an even number of lowercase digits only. -/
def canonicalHexBytes : Value → Option Bytes
  | .string text => hexDecode text
  | _ => none

@[simp] theorem canonicalHexBytes_canonical (bs : Bytes) :
    canonicalHexBytes (canonical (.string (hexEncode bs))) = some bs :=
  hexDecode_hexEncode bs

instance : Serde FabricStoredTerminalV1 where
  toValue terminal := .object terminal.members
  fromValue value :=
    match structFields ["header_bytes", "candidate_bytes", "terminal_sha256"] true value with
    | some [some headerBytes, some candidateBytes, some terminalSha256] => do
        return ⟨← canonicalHexBytes headerBytes, ← canonicalHexBytes candidateBytes,
          ← fromValue terminalSha256⟩
    | _ => none
  toValue_ne_null := by simp
  fromValue_canonical terminal := by
    have fields := structFields_canonical terminal.members (by simp [members]) true
    simp only [members, map_cons, map_nil] at fields ⊢
    simp [fields]

end FabricStoredTerminalV1

def validateTerminalBinding (binding : FabricAttemptBindingV1)
    (terminal : FabricTerminalCandidateV1) : Result Unit :=
  let receipt := terminal.signedReceipt.receipt
  bailIf (receipt.issuerKeyId != binding.issuerKeyId ||
      receipt.attempt != binding.attempt ||
      receipt.leaseNonce != binding.leaseNonce ||
      receipt.submissionBindingSha256 != binding.submissionBindingSha256 ||
      receipt.capsuleSha256 != binding.capsuleSha256 ||
      receipt.sourceClosureSha256 != binding.sourceClosureSha256 ||
      receipt.nodeId != binding.nodeId ||
      receipt.nodeGeneration != binding.nodeGeneration ||
      receipt.executionCellIncarnation != binding.executionCellIncarnation)
    "Fabric terminal candidate does not match its durable attempt binding"

/-! ## A stored header is short -/

theorem sizeBoundItems_bytes (bs : Bytes) : sizeBoundItems (bs.map toValue) = 9 * bs.length := by
  induction bs with
  | nil => rfl
  | cons byte bs ih =>
    rw [map_cons, sizeBoundItems, ih, length_cons]
    show 9 + 9 * bs.length = _
    omega

@[simp] theorem sizeBound_digest (dg : Sha256DigestV1) : sizeBound (toValue dg) = 297 := by
  show 9 + sizeBoundItems (dg.bytes.map toValue) = 297
  rw [sizeBoundItems_bytes, dg.length_eq]

theorem length_of_isLowerHex {n : Nat} {text : String} (hex : isLowerHex n text = true) :
    (utf8Bytes text).length = n * 2 := by
  rw [isLowerHex, Bool.and_eq_true, beq_iff_eq] at hex
  exact hex.1

@[simp] theorem sizeBound_semanticDigest (dg : SemanticDigestV1) : sizeBound (toValue dg) = 73 := by
  show 9 + (utf8Bytes dg.text).length = 73
  rw [length_of_isLowerHex dg.valid]

@[simp] theorem sizeBound_u64 (num : UInt64) : sizeBound (toValue num) = 9 := rfl

@[simp] theorem sizeBound_u32 (num : UInt32) : sizeBound (toValue num) = 9 := rfl

@[simp] theorem sizeBound_text (text : String) :
    sizeBound (toValue text) = 9 + (utf8Bytes text).length := rfl

@[simp] theorem sizeBound_generation (gen : GenerationV1) : sizeBound (toValue gen) = 9 := rfl

@[simp] theorem sizeBound_incarnation (incarnation : ExecutionCellIncarnationV1) :
    sizeBound (toValue incarnation) = 9 := rfl

theorem sizeBound_task_le (task : LogicalTaskIdV1) : sizeBound (toValue task) ≤ 685 := by
  have execution : sizeBound (toValue task.execution) = 297 := sizeBound_digest task.execution.digest
  refine sizeBound_object_le ?_ ?_
  · simp only [LogicalTaskIdV1.members, map_cons, map_nil]
    decide
  · simp [LogicalTaskIdV1.members, execution]

theorem sizeBound_attempt_le (att : AttemptIdV1) : sizeBound (toValue att) ≤ 785 := by
  have task := sizeBound_task_le att.task
  refine sizeBound_object_le ?_ ?_
  · simp only [AttemptIdV1.members, map_cons, map_nil]
    decide
  · simp only [AttemptIdV1.members, length_cons, length_nil, map_cons, map_nil,
      sum_cons, sum_nil, sizeBound_u64]
    omega

theorem sizeBound_payload_le (pl : FabricExactPayloadV1) : sizeBound pl.toValue ≤ 397 := by
  refine sizeBound_object_le ?_ ?_
  · simp only [map_cons, map_nil]
    decide
  · simp

theorem sizeBound_receipt_le (rcpt : TerminalCandidateReceiptV1) : sizeBound rcpt.toValue ≤
      6000 + (utf8Bytes rcpt.schema).length + (utf8Bytes rcpt.nodeId).length := by
  have attempt := sizeBound_attempt_le rcpt.attempt
  have payload := sizeBound_payload_le rcpt.candidatePayload
  have st : sizeBound (.string "terminal-candidate") = 27 := by decide
  refine sizeBound_object_le ?_ ?_
  · simp only [map_cons, map_nil]
    decide
  · simp only [length_cons, length_nil, map_cons, map_nil, sum_cons,
      sum_nil, sizeBound_digest, sizeBound_semanticDigest, sizeBound_u64, sizeBound_text,
      sizeBound_generation, sizeBound_incarnation, st]
    -- `omega` does not get through a sum of twenty terms
    grind

theorem sizeBound_signed_le (sig : SignedTerminalCandidateReceiptV1) : sizeBound sig.toValue ≤
      6500 + (utf8Bytes sig.schema).length + (utf8Bytes sig.receipt.schema).length +
        (utf8Bytes sig.receipt.nodeId).length + (utf8Bytes sig.signerPublicKey).length +
        (utf8Bytes sig.signerKeyId).length + (utf8Bytes sig.signature).length := by
  have receipt := sizeBound_receipt_le sig.receipt
  refine sizeBound_object_le ?_ ?_
  · simp only [map_cons, map_nil]
    decide
  · simp only [length_cons, length_nil, map_cons, map_nil, sum_cons, sum_nil, sizeBound_text]
    omega

theorem sizeBound_envelope_le (schema : String) (sig : SignedTerminalCandidateReceiptV1) :
    sizeBound (FabricResponseEnvelopeV1.toValue ⟨schema, .terminalCandidate sig⟩) ≤
      1000 + (utf8Bytes schema).length + sizeBound sig.toValue := by
  have st : sizeBound (.string "terminal-candidate") = 27 := by decide
  have response : sizeBound (FabricResponseHeaderKindV1.toValue (.terminalCandidate sig)) ≤
      9 + 41 * 2 + (27 + sizeBound sig.toValue) := by
    refine sizeBound_object_le ?_ ?_
    · simp only [map_cons, map_nil]
      decide
    · simp only [length_cons, length_nil, map_cons, map_nil, sum_cons, sum_nil, st]
      omega
  refine sizeBound_object_le ?_ ?_
  · simp only [map_cons, map_nil]
    decide
  · simp only [length_cons, length_nil, map_cons, map_nil, sum_cons, sum_nil, sizeBound_text]
    omega

variable {host : FabricHost} {cand : FabricTerminalCandidateV1}

theorem decodeResponseEnvelope_eq {bs : Bytes} {env : FabricResponseEnvelopeV1}
    (read : decodeResponseEnvelope host bs = .ok env) :
    encodeValue env.toValue = bs := by
  simp only [decodeResponseEnvelope, bind_eq_ok, bailIf_eq_ok] at read
  obtain ⟨_, _, _, _, _, _, _, same, ⟨⟩⟩ := read
  simpa using same

/-- What a successfully decoded terminal candidate says about its header. -/
theorem decodeFabricResponseV1_spec {headerBytes pl : Bytes}
    (read : decodeFabricResponseV1 host headerBytes pl = .ok cand) :
    encodeValue (FabricResponseEnvelopeV1.toValue
      ⟨fabricResponseSchemaV1, .terminalCandidate cand.signedReceipt⟩) = headerBytes ∧
      cand.signedReceipt.validateRepresentationShape = .ok () := by
  simp only [decodeFabricResponseV1, bind_eq_ok, bailIf_eq_ok] at read
  obtain ⟨env, header, _, schema, read⟩ := read
  have enc := decodeResponseEnvelope_eq header
  obtain ⟨text, resp⟩ := env
  cases resp with
  | other => cases read
  | terminalCandidate =>
    simp only [bind_eq_ok, bailIf_eq_ok] at read
    obtain ⟨_, _, _, sh, _, _, ⟨⟩⟩ := read
    have same : text = fabricResponseSchemaV1 := by simpa using schema
    rw [same] at enc
    exact ⟨enc, sh⟩

theorem validateRepresentationShape_spec {sg : SignedTerminalCandidateReceiptV1}
    (hv : sg.validateRepresentationShape = .ok ()) :
    sg.schema = fabricSignedTerminalReceiptSchemaV1 ∧
      sg.receipt.schema = fabricTerminalReceiptSchemaV1 ∧
      isLowerHex 32 sg.signerPublicKey = true ∧ isLowerHex 32 sg.signerKeyId = true ∧
      isLowerHex 64 sg.signature = true := by
  simp only [SignedTerminalCandidateReceiptV1.validateRepresentationShape, validateLowerHex,
    bind_eq_ok, bailIf_eq_ok, Bool.not_eq_false', bne_eq_false_iff_eq] at hv
  obtain ⟨_, schema, _, key, _, keyId, _, sig, _, rcpt, _⟩ := hv
  exact ⟨schema, rcpt, key, keyId, sig⟩

/-- A header that passes the ledger's checks has at most sixteen kilobytes. -/
theorem length_headerBytes_le {bnd : FabricAttemptBindingV1} {headerBytes pl : Bytes}
    (read : decodeFabricResponseV1 host headerBytes pl = .ok cand)
    (hb : validateTerminalBinding bnd cand = .ok ())
    (short : (utf8Bytes bnd.nodeId).length ≤ 128) : headerBytes.length ≤ 16384 := by
  obtain ⟨enc, sh⟩ := decodeFabricResponseV1_spec read
  obtain ⟨schema, receiptSchema, key, keyId, sig⟩ := validateRepresentationShape_spec sh
  have node : cand.signedReceipt.receipt.nodeId = bnd.nodeId := by
    simp only [validateTerminalBinding, bailIf_eq_ok, Bool.or_eq_false_iff, bne_eq_false_iff_eq] at hb
    exact hb.1.1.2
  have size := length_encodeValue_le (FabricResponseEnvelopeV1.toValue
    ⟨fabricResponseSchemaV1, .terminalCandidate cand.signedReceipt⟩)
  rw [enc] at size
  have envelope := sizeBound_envelope_le fabricResponseSchemaV1 cand.signedReceipt
  have hsg := sizeBound_signed_le cand.signedReceipt
  rw [schema, receiptSchema, node, length_of_isLowerHex key, length_of_isLowerHex keyId,
    length_of_isLowerHex sig] at hsg
  have texts : (utf8Bytes fabricResponseSchemaV1).length ≤ 64 ∧
      (utf8Bytes fabricSignedTerminalReceiptSchemaV1).length ≤ 64 ∧
      (utf8Bytes fabricTerminalReceiptSchemaV1).length ≤ 64 := by decide
  omega

end Ostadix.Fabric
