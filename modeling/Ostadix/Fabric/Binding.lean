import Ostadix.CanonicalCbor.Budget
import Ostadix.CanonicalCbor.Serde

/-! # Attempt bindings

The immutable identity of one attempt: who issued it, which task and generation it runs, the
lease nonce it consumes, and the exact material it is bound to. -/

namespace Ostadix.Fabric

open Ostadix.Lib Ostadix.CanonicalCbor List

/-- `anyhow::Result`: an error is its rendered text. -/
abbrev Result := Except String

/-! ## Digests and counters -/

structure Sha256DigestV1 where
  bytes : Bytes
  length_eq : bytes.length = 32
deriving DecidableEq

def Sha256DigestV1.isZero (digest : Sha256DigestV1) : Bool :=
  digest.bytes.all (· == 0)

def isLowerHexByte (byte : UInt8) : Bool :=
  (48 ≤ byte && byte ≤ 57) || (97 ≤ byte && byte ≤ 102)

/-- `count` bytes of lowercase hexadecimal text. -/
def isLowerHex (count : Nat) (text : String) : Bool :=
  (utf8Bytes text).length == count * 2 && (utf8Bytes text).all isLowerHexByte

structure SemanticDigestV1 where
  text : String
  valid : isLowerHex 32 text = true
deriving DecidableEq

structure GenerationV1 where
  value : UInt64
  nonzero : value ≠ 0
deriving DecidableEq

structure ExecutionCellIncarnationV1 where
  value : UInt64
  nonzero : value ≠ 0
deriving DecidableEq

def SemanticDigestV1.fromSha256 (text : String) : Option SemanticDigestV1 :=
  if valid : isLowerHex 32 text = true then some ⟨text, valid⟩ else none

def GenerationV1.new (value : UInt64) : Option GenerationV1 :=
  if nonzero : value ≠ 0 then some ⟨value, nonzero⟩ else none

def ExecutionCellIncarnationV1.new (value : UInt64) : Option ExecutionCellIncarnationV1 :=
  if nonzero : value ≠ 0 then some ⟨value, nonzero⟩ else none

/-! ## Attempts -/

structure ExecutionIdV1 where
  digest : Sha256DigestV1
deriving DecidableEq

structure LogicalTaskIdV1 where
  execution : ExecutionIdV1
  semanticSha256 : Sha256DigestV1
deriving DecidableEq

structure AttemptIdV1 where
  task : LogicalTaskIdV1
  generation : UInt64
deriving DecidableEq

def AttemptIdV1.validate (attempt : AttemptIdV1) : Result Unit := do
  bailIf attempt.task.execution.digest.isZero
    "invalid execution-fabric record: execution identity must not be the all-zero digest"
  bailIf attempt.task.semanticSha256.isZero
    "invalid execution-fabric record: logical task semantic identity must not be the all-zero digest"
  bailIf (attempt.generation == 0)
    "invalid execution-fabric record: attempt generation must be nonzero"

/-! ## Bindings -/

structure FabricAttemptBindingV1 where
  issuerKeyId : SemanticDigestV1
  attempt : AttemptIdV1
  leaseNonce : SemanticDigestV1
  tlsClientPrincipalSha256 : SemanticDigestV1
  submissionBindingSha256 : Sha256DigestV1
  capsuleSha256 : Sha256DigestV1
  sourceClosureSha256 : Sha256DigestV1
  nodeId : String
  nodeGeneration : GenerationV1
  executionCellIncarnation : ExecutionCellIncarnationV1
deriving DecidableEq

/-- ASCII letters and digits, and `.`, `_`, `-`, `:`, `/`. -/
def isNodeIdByte (byte : UInt8) : Bool :=
  (48 ≤ byte && byte ≤ 57) || (65 ≤ byte && byte ≤ 90) || (97 ≤ byte && byte ≤ 122) ||
    byte == 46 || byte == 95 || byte == 45 || byte == 58 || byte == 47

namespace FabricAttemptBindingV1

def validate (binding : FabricAttemptBindingV1) : Result Unit := do
  binding.attempt.validate.mapError fun error => s!"invalid Fabric ledger attempt: {error}"
  bailIf binding.submissionBindingSha256.isZero
    "Fabric ledger submission binding digest must not be all-zero"
  bailIf binding.capsuleSha256.isZero "Fabric ledger capsule digest must not be all-zero"
  bailIf binding.sourceClosureSha256.isZero
    "Fabric ledger source closure digest must not be all-zero"
  bailIf ((utf8Bytes binding.nodeId).isEmpty || 128 < (utf8Bytes binding.nodeId).length ||
      !(utf8Bytes binding.nodeId).all isNodeIdByte)
    "Fabric ledger node identity is not a bounded ASCII token"

/-- The order of the stored entries: issuer, execution, task, generation, nonce. -/
def compareKey (left right : FabricAttemptBindingV1) : Ordering :=
  (compare (utf8Bytes left.issuerKeyId.text) (utf8Bytes right.issuerKeyId.text)).then <|
  (compare left.attempt.task.execution.digest.bytes right.attempt.task.execution.digest.bytes).then <|
  (compare left.attempt.task.semanticSha256.bytes right.attempt.task.semanticSha256.bytes).then <|
  (compare left.attempt.generation right.attempt.generation).then <|
  compare (utf8Bytes left.leaseNonce.text) (utf8Bytes right.leaseNonce.text)

end FabricAttemptBindingV1

/-! ## Serialisation -/

instance : Serde Sha256DigestV1 where
  toValue digest := toValue digest.bytes
  fromValue value := do
    let bytes : Bytes ← fromValue value
    if exact : bytes.length = 32 then some ⟨bytes, exact⟩ else none
  toValue_ne_null digest := Serde.toValue_ne_null digest.bytes
  fromValue_canonical digest := by
    simp [digest.length_eq]

instance : Serde SemanticDigestV1 where
  toValue digest := toValue digest.text
  fromValue value := do SemanticDigestV1.fromSha256 (← fromValue value)
  toValue_ne_null digest := Serde.toValue_ne_null digest.text
  fromValue_canonical digest := by
    simp [SemanticDigestV1.fromSha256, digest.valid]

instance : Serde GenerationV1 where
  toValue generation := toValue generation.value
  fromValue value := do GenerationV1.new (← fromValue value)
  toValue_ne_null generation := Serde.toValue_ne_null generation.value
  fromValue_canonical generation := by
    simp [GenerationV1.new, generation.nonzero]

instance : Serde ExecutionCellIncarnationV1 where
  toValue incarnation := toValue incarnation.value
  fromValue value := do ExecutionCellIncarnationV1.new (← fromValue value)
  toValue_ne_null incarnation := Serde.toValue_ne_null incarnation.value
  fromValue_canonical incarnation := by
    simp [ExecutionCellIncarnationV1.new, incarnation.nonzero]

instance : Serde ExecutionIdV1 where
  toValue execution := toValue execution.digest
  fromValue value := (fromValue value).map ExecutionIdV1.mk
  toValue_ne_null execution := Serde.toValue_ne_null execution.digest
  fromValue_canonical execution := by
    simp

def LogicalTaskIdV1.members (task : LogicalTaskIdV1) : List (String × Value) :=
  [("execution", toValue task.execution), ("semantic_sha256", toValue task.semanticSha256)]

instance : Serde LogicalTaskIdV1 where
  toValue task := .object task.members
  fromValue value :=
    match structFields ["execution", "semantic_sha256"] false value with
    | some [some execution, some semanticSha256] => do
        return ⟨← fromValue execution, ← fromValue semanticSha256⟩
    | _ => none
  toValue_ne_null := by simp
  fromValue_canonical task := by
    have fields := structFields_canonical task.members (by simp [LogicalTaskIdV1.members]) false
    simp only [LogicalTaskIdV1.members, map_cons, map_nil] at fields ⊢
    simp [fields]

def AttemptIdV1.members (attempt : AttemptIdV1) : List (String × Value) :=
  [("task", toValue attempt.task), ("generation", toValue attempt.generation)]

instance : Serde AttemptIdV1 where
  toValue attempt := .object attempt.members
  fromValue value :=
    match structFields ["task", "generation"] false value with
    | some [some task, some generation] => do
        return ⟨← fromValue task, ← fromValue generation⟩
    | _ => none
  toValue_ne_null := by simp
  fromValue_canonical attempt := by
    have fields := structFields_canonical attempt.members (by simp [AttemptIdV1.members]) false
    simp only [AttemptIdV1.members, map_cons, map_nil] at fields ⊢
    simp [fields]

namespace FabricAttemptBindingV1

def members (binding : FabricAttemptBindingV1) : List (String × Value) :=
  [("issuer_key_id", toValue binding.issuerKeyId),
   ("attempt", toValue binding.attempt),
   ("lease_nonce", toValue binding.leaseNonce),
   ("tls_client_principal_sha256", toValue binding.tlsClientPrincipalSha256),
   ("submission_binding_sha256", toValue binding.submissionBindingSha256),
   ("capsule_sha256", toValue binding.capsuleSha256),
   ("source_closure_sha256", toValue binding.sourceClosureSha256),
   ("node_id", toValue binding.nodeId),
   ("node_generation", toValue binding.nodeGeneration),
   ("execution_cell_incarnation", toValue binding.executionCellIncarnation)]

instance : Serde FabricAttemptBindingV1 where
  toValue binding := .object binding.members
  fromValue value :=
    match structFields ["issuer_key_id", "attempt", "lease_nonce", "tls_client_principal_sha256",
        "submission_binding_sha256", "capsule_sha256", "source_closure_sha256", "node_id",
        "node_generation", "execution_cell_incarnation"] true value with
    | some [some issuerKeyId, some attempt, some leaseNonce, some tlsClientPrincipalSha256,
        some submissionBindingSha256, some capsuleSha256, some sourceClosureSha256, some nodeId,
        some nodeGeneration, some executionCellIncarnation] => do
        return {
          issuerKeyId := ← fromValue issuerKeyId
          attempt := ← fromValue attempt
          leaseNonce := ← fromValue leaseNonce
          tlsClientPrincipalSha256 := ← fromValue tlsClientPrincipalSha256
          submissionBindingSha256 := ← fromValue submissionBindingSha256
          capsuleSha256 := ← fromValue capsuleSha256
          sourceClosureSha256 := ← fromValue sourceClosureSha256
          nodeId := ← fromValue nodeId
          nodeGeneration := ← fromValue nodeGeneration
          executionCellIncarnation := ← fromValue executionCellIncarnation }
    | _ => none
  toValue_ne_null := by simp
  fromValue_canonical binding := by
    have fields := structFields_canonical binding.members (by simp [members]) true
    simp only [members, map_cons, map_nil] at fields ⊢
    simp [fields]

end FabricAttemptBindingV1

end Ostadix.Fabric
