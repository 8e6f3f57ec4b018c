import Mathlib.Data.List.Sort
import Ostadix.Lib.Except

/-! # Registry records

The signed events of a registry snapshot and the shape each record is checked for. Of a node
profile only what the registry reads is kept. -/

namespace Ostadix.Registry

open Ostadix.Lib

abbrev RegistryPublicKeyV1 := Vector UInt8 32

abbrev RegistryDigestV1 := List UInt8

def registrySchemaV1 : Nat := 1
def maxRegistryEvents : Nat := 16384
def maxRegistrySnapshots : Nat := 256
def maxNamespaceBytes : Nat := 128
def maxNodeIdBytes : Nat := 128

inductive RegistryError
  | empty (field : String)
  | tooLong (field : String) (maximum : Nat)
  | invalidNamespace (field value : String)
  | invalidValidity (record : String)
  | unsupportedVersion (record : String) (found expected : Nat)
  | emptySnapshot
  | tooManyEvents (maximum : Nat)
  | tooManySnapshots (maximum : Nat)
  | zeroSequence
  | sequenceMismatch (expected found : Nat)
  | previousEventMismatch (sequence : Nat)
  | timestampRollback (sequence : Nat)
  | futureEvent (sequence issuedAtMs nowMs : Nat)
  | invalidSignature (sequence : Nat)
  | unauthorizedSigner (sequence : Nat) (namespaceName : String)
  | invalidRootEvent
  | namespaceMismatch (event body : String)
  | invalidDelegationScope (parent child : String)
  | missingDelegation (namespaceName : String)
  | equivocation (namespaceName : String) (sequence : Nat)
  | profileRollback (namespaceName nodeId : String) (current incoming : Nat)
  | profileEquivocation (namespaceName nodeId : String) (generation : Nat)
  | profileNotYetValid (namespaceName nodeId : String)
  | staleProfile (namespaceName nodeId : String) (expiresAtMs : Nat)
  | profileIssuerMismatch
  | profileNodeMismatch (profile publication : String)
  | nonCanonicalEncoding
  | canonical (reason : String)
deriving DecidableEq

abbrev Checked := Except RegistryError

/-! ## Namespaces -/

def validateVersion (record : String) (found : Nat) : Checked Unit :=
  bailIf (found != registrySchemaV1) (.unsupportedVersion record found registrySchemaV1)

def validateValidity (record : String) (validFromMs expiresAtMs : Nat) : Checked Unit :=
  bailIf (expiresAtMs ≤ validFromMs) (.invalidValidity record)

def segmentChar (char : Char) : Bool :=
  char.isLower || char.isDigit || char == '.' || char == '_' || char == '-'

/-- A byte outside ASCII is no byte of a segment, so the characters decide. -/
def validSegment (segment : List Char) : Bool :=
  !segment.isEmpty && segment != ['.'] && segment != ['.', '.'] && segment.all segmentChar &&
    segment.head?.any Char.isAlphanum && segment.getLast?.any Char.isAlphanum

def validateNamespace (field value : String) : Checked Unit := do
  bailIf value.isEmpty (.empty field)
  bailIf (maxNamespaceBytes < value.utf8ByteSize) (.tooLong field maxNamespaceBytes)
  bailIf (!(value.toList.splitOn '/').all validSegment) (.invalidNamespace field value)

def isAsciiControl (char : Char) : Bool :=
  char.toNat < 32 || char.toNat == 127

def validateNodeId (nodeId : String) : Checked Unit := do
  bailIf nodeId.isEmpty (.empty "profile node identity")
  bailIf (maxNodeIdBytes < nodeId.utf8ByteSize) (.tooLong "profile node identity" maxNodeIdBytes)
  bailIf (nodeId.toList.any isAsciiControl) (.invalidNamespace "profile node identity" nodeId)

def isWithinScope (value scope : String) : Bool :=
  value == scope ||
    (value.toList.dropPrefix? scope.toList).any fun suffix => suffix.head? == some '/'

def isStrictDescendant (value scope : String) : Bool :=
  value != scope && isWithinScope value scope

/-! ## Events -/

structure NamespaceRootV1 where
  schemaVersion : Nat
  namespaceName : String
  rootPublicKey : RegistryPublicKeyV1
  validFromMs : Nat
  expiresAtMs : Nat
deriving DecidableEq

def NamespaceRootV1.validate (root : NamespaceRootV1) : Checked Unit := do
  validateVersion "namespace root" root.schemaVersion
  validateNamespace "root namespace" root.namespaceName
  validateValidity "namespace root" root.validFromMs root.expiresAtMs

structure NamespaceDelegationV1 where
  schemaVersion : Nat
  parentNamespace : String
  childNamespace : String
  delegatePublicKey : RegistryPublicKeyV1
  validFromMs : Nat
  expiresAtMs : Nat
deriving DecidableEq

def NamespaceDelegationV1.validate (delegation : NamespaceDelegationV1) : Checked Unit := do
  validateVersion "namespace delegation" delegation.schemaVersion
  validateNamespace "delegation parent namespace" delegation.parentNamespace
  validateNamespace "delegation child namespace" delegation.childNamespace
  bailIf (!isStrictDescendant delegation.childNamespace delegation.parentNamespace)
    (.invalidDelegationScope delegation.parentNamespace delegation.childNamespace)
  validateValidity "namespace delegation" delegation.validFromMs delegation.expiresAtMs

structure NodeProfileV1 where
  nodeId : String
  issuerKey : String
  profileGeneration : Nat
  issuedAt : Nat
  expiresAt : Nat
deriving DecidableEq

structure ProfilePublicationV1 where
  schemaVersion : Nat
  namespaceName : String
  nodeId : String
  profile : NodeProfileV1
deriving DecidableEq

def ProfilePublicationV1.validate (publication : ProfilePublicationV1) : Checked Unit := do
  validateVersion "profile publication" publication.schemaVersion
  validateNamespace "profile namespace" publication.namespaceName
  validateNodeId publication.nodeId
  bailIf (publication.profile.nodeId != publication.nodeId)
    (.profileNodeMismatch publication.profile.nodeId publication.nodeId)

inductive RegistryEventBodyV1
  | namespaceRoot (root : NamespaceRootV1)
  | namespaceDelegation (delegation : NamespaceDelegationV1)
  | publishProfile (publication : ProfilePublicationV1)
deriving DecidableEq

def RegistryEventBodyV1.validate : RegistryEventBodyV1 → Checked Unit
  | .namespaceRoot root => root.validate
  | .namespaceDelegation delegation => delegation.validate
  | .publishProfile publication => publication.validate

structure RegistryEventV1 where
  schemaVersion : Nat
  sequence : Nat
  previousEventSha256 : Option RegistryDigestV1
  issuedAtMs : Nat
  namespaceName : String
  signerPublicKey : RegistryPublicKeyV1
  body : RegistryEventBodyV1
deriving DecidableEq

def RegistryEventV1.validateShape (event : RegistryEventV1) : Checked Unit := do
  validateVersion "registry event" event.schemaVersion
  bailIf (event.sequence == 0) .zeroSequence
  validateNamespace "event namespace" event.namespaceName
  event.body.validate

structure SignedRegistryEventV1 where
  event : RegistryEventV1
  signature : List UInt8
deriving DecidableEq

/-! ## Snapshots, stores and trust -/

structure RegistrySnapshotV1 where
  schemaVersion : Nat
  events : List SignedRegistryEventV1
deriving DecidableEq

namespace RegistrySnapshotV1

def lastSequence (snapshot : RegistrySnapshotV1) : Nat :=
  match snapshot.events.getLast? with
  | some signed => signed.event.sequence
  | none => 0

def validateShape (snapshot : RegistrySnapshotV1) : Checked Unit := do
  validateVersion "registry snapshot" snapshot.schemaVersion
  bailIf snapshot.events.isEmpty .emptySnapshot
  bailIf (maxRegistryEvents < snapshot.events.length) (.tooManyEvents maxRegistryEvents)

end RegistrySnapshotV1

structure RegistryStoreV1 where
  schemaVersion : Nat
  snapshots : List RegistrySnapshotV1
deriving DecidableEq

def RegistryStoreV1.validateShape (store : RegistryStoreV1) : Checked Unit := do
  validateVersion "registry store" store.schemaVersion
  bailIf (maxRegistrySnapshots < store.snapshots.length) (.tooManySnapshots maxRegistrySnapshots)
  store.snapshots.forM RegistrySnapshotV1.validateShape

structure RegistryRootPinV1 where
  namespaceName : String
  publicKey : RegistryPublicKeyV1
deriving DecidableEq

namespace RegistryRootPinV1

def before (left right : RegistryRootPinV1) : Bool :=
  left.namespaceName < right.namespaceName ||
    (left.namespaceName == right.namespaceName && !(right.publicKey.toList < left.publicKey.toList))

end RegistryRootPinV1

structure RegistryTrustV1 where
  schemaVersion : Nat
  roots : List RegistryRootPinV1

/-- The pins in the order of `RegistryTrustV1::new`, each once. -/
def canonicalPins (roots : List RegistryRootPinV1) : List RegistryRootPinV1 :=
  (roots.insertionSort fun left right => left.before right = true).eraseReps

def RegistryTrustV1.validate (trust : RegistryTrustV1) : Checked Unit := do
  validateVersion "registry trust" trust.schemaVersion
  bailIf trust.roots.isEmpty (.empty "registry trust roots")
  bailIf (canonicalPins trust.roots != trust.roots) .nonCanonicalEncoding

end Ostadix.Registry
