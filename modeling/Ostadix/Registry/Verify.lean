import Mathlib.Data.Prod.Lex
import Mathlib.Data.String.Basic
import Ostadix.Lib.OrderedMap
import Ostadix.Registry.Model

/-! # Registry verification

`verify_registry_store` resolves the snapshots of a store in rounds: a snapshot whose root is named
by a known authority is verified against the first such authority, and its active delegations
become authorities for the snapshots behind it. -/

namespace Ostadix.Registry

open Ostadix.Lib

/-- The signature scheme, the digests and the encoding they are taken of. -/
structure RegistryCryptoV1 where
  registrySigningPreimage : RegistryEventV1 → Except String (List UInt8)
  decodesKey : RegistryPublicKeyV1 → Bool
  verifyStrict : RegistryPublicKeyV1 → List UInt8 → List UInt8 → Bool
  eventSha256 : SignedRegistryEventV1 → Except String RegistryDigestV1
  publicKeyIdHex : RegistryPublicKeyV1 → String

inductive ProfileStalenessPolicyV1
  | reject
  | allowExpired
deriving DecidableEq

structure Authority where
  scope : String
  publicKey : RegistryPublicKeyV1
  validFromMs : Nat
  expiresAtMs : Nat
deriving DecidableEq

namespace Authority

def authorizes (authority : Authority) (namespaceName : String) (publicKey : RegistryPublicKeyV1)
    (atMs : Nat) : Bool :=
  authority.publicKey == publicKey && isWithinScope namespaceName authority.scope &&
    authority.validFromMs ≤ atMs && atMs < authority.expiresAtMs

def authorizesRoot (authority : Authority) (namespaceName : String)
    (publicKey : RegistryPublicKeyV1) (validFromMs expiresAtMs nowMs : Nat) : Bool :=
  authority.publicKey == publicKey && namespaceName == authority.scope &&
    authority.validFromMs ≤ validFromMs && expiresAtMs ≤ authority.expiresAtMs &&
    authority.validFromMs ≤ nowMs && nowMs < authority.expiresAtMs

def containsInterval (authority : Authority) (validFromMs expiresAtMs : Nat) : Bool :=
  authority.validFromMs ≤ validFromMs && expiresAtMs ≤ authority.expiresAtMs

/-- `u64::MAX`. -/
def forever : Nat := 2 ^ 64 - 1

def ofPin (pin : RegistryRootPinV1) : Authority :=
  ⟨pin.namespaceName, pin.publicKey, 0, forever⟩

def ofRoot (root : NamespaceRootV1) : Authority :=
  ⟨root.namespaceName, root.rootPublicKey, root.validFromMs, root.expiresAtMs⟩

def ofDelegation (delegation : NamespaceDelegationV1) : Authority :=
  ⟨delegation.childNamespace, delegation.delegatePublicKey, delegation.validFromMs,
    delegation.expiresAtMs⟩

/-- The authority of a root inside its snapshot. -/
def anchored (anchor : Authority) (root : NamespaceRootV1) : Authority :=
  ⟨root.namespaceName, root.rootPublicKey, max root.validFromMs anchor.validFromMs,
    min root.expiresAtMs anchor.expiresAtMs⟩

def isActive (authority : Authority) (nowMs : Nat) : Bool :=
  authority.validFromMs ≤ nowMs && nowMs < authority.expiresAtMs

end Authority

abbrev RegistryProfileKeyV1 := String ×ₗ String

structure VerifiedRegistryProfileV1 where
  publication : ProfilePublicationV1
  eventSha256 : RegistryDigestV1
  issuedAtMs : Nat
  expiresAtMs : Nat
  stale : Bool

structure SnapshotVerification where
  rootNamespace : String
  profiles : OrderedMap RegistryProfileKeyV1 VerifiedRegistryProfileV1
  activeDelegations : List Authority
  lastSequence : Nat

section Snapshot

variable (crypto : RegistryCryptoV1)

def registryEventSha256 (signed : SignedRegistryEventV1) : Checked RegistryDigestV1 :=
  (crypto.eventSha256 signed).mapError .canonical

def verifyEventSignature (signed : SignedRegistryEventV1) : Checked Unit := do
  let event := signed.event
  bailIf (signed.signature.length != 64) (.invalidSignature event.sequence)
  bailIf (!crypto.decodesKey event.signerPublicKey) (.invalidSignature event.sequence)
  let preimage ← (crypto.registrySigningPreimage event).mapError .canonical
  bailIf (!crypto.verifyStrict event.signerPublicKey preimage signed.signature)
    (.invalidSignature event.sequence)

/-! ## One snapshot -/

/-- The first event of a snapshot and its root record. -/
def verifyRoot (snapshot : RegistrySnapshotV1) :
    Checked (SignedRegistryEventV1 × NamespaceRootV1) := do
  snapshot.validateShape
  let first ← okOr snapshot.events.head? .emptySnapshot
  first.event.validateShape
  bailIf (first.event.sequence != 1 || first.event.previousEventSha256.isSome) .invalidRootEvent
  verifyEventSignature crypto first
  match first.event.body with
  | .namespaceRoot root => do
      bailIf (first.event.namespaceName != root.namespaceName ||
          first.event.signerPublicKey != root.rootPublicKey ||
          first.event.issuedAtMs != root.validFromMs) .invalidRootEvent
      return (first, root)
  | _ => .error .invalidRootEvent

/-- What the loop over the events of a snapshot carries. -/
structure SnapshotState where
  authorities : List Authority
  activeDelegations : List Authority
  profiles : OrderedMap RegistryProfileKeyV1 VerifiedRegistryProfileV1
  previousDigest : RegistryDigestV1
  previousIssuedAt : Nat

namespace SnapshotState

def delegate (state : SnapshotState) (nowMs : Nat) (delegated : Authority) : SnapshotState :=
  { state with
    activeDelegations := state.activeDelegations ++
      if delegated.isActive nowMs then [delegated] else []
    authorities := state.authorities ++ [delegated] }

def publish (state : SnapshotState) (key : RegistryProfileKeyV1)
    (profile : VerifiedRegistryProfileV1) : SnapshotState :=
  { state with profiles := state.profiles.insert key profile }

end SnapshotState

def validateProfileIssuer (publication : ProfilePublicationV1)
    (signerPublicKey : RegistryPublicKeyV1) : Checked Unit :=
  bailIf (publication.profile.issuerKey != crypto.publicKeyIdHex signerPublicKey)
    .profileIssuerMismatch

/-- The checks of an event before its body is looked at, with the authorities that allow it. -/
def authorizing (nowMs : Nat) (state : SnapshotState) (index : Nat)
    (signed : SignedRegistryEventV1) : Checked (List Authority) := do
  let event := signed.event
  event.validateShape
  bailIf (event.sequence != index + 1) (.sequenceMismatch (index + 1) event.sequence)
  bailIf (event.previousEventSha256 != some state.previousDigest)
    (.previousEventMismatch event.sequence)
  bailIf (event.issuedAtMs < state.previousIssuedAt) (.timestampRollback event.sequence)
  bailIf (nowMs < event.issuedAtMs) (.futureEvent event.sequence event.issuedAtMs nowMs)
  verifyEventSignature crypto signed
  let allowing := state.authorities.filter fun authority =>
    authority.authorizes event.namespaceName event.signerPublicKey event.issuedAtMs
  bailIf allowing.isEmpty (.unauthorizedSigner event.sequence event.namespaceName)
  return allowing

def applyDelegation (nowMs : Nat) (state : SnapshotState) (event : RegistryEventV1)
    (allowing : List Authority) (delegation : NamespaceDelegationV1) : Checked SnapshotState := do
  bailIf (event.namespaceName != delegation.parentNamespace)
    (.namespaceMismatch event.namespaceName delegation.parentNamespace)
  bailIf (delegation.validFromMs < event.issuedAtMs || !allowing.any fun authority =>
      authority.containsInterval delegation.validFromMs delegation.expiresAtMs)
    (.invalidValidity "bounded namespace delegation")
  return state.delegate nowMs (.ofDelegation delegation)

/-- A publication replaces one of a smaller generation only. -/
def checkGeneration (publication : ProfilePublicationV1) :
    Option VerifiedRegistryProfileV1 → Checked Unit
  | none => .ok ()
  | some existing => do
      let generation := publication.profile.profileGeneration
      let current := existing.publication.profile.profileGeneration
      bailIf (generation < current) (.profileRollback publication.namespaceName publication.nodeId
        current generation)
      bailIf (generation == current) (.profileEquivocation publication.namespaceName
        publication.nodeId generation)

def applyPublication (nowMs : Nat) (state : SnapshotState) (signed : SignedRegistryEventV1)
    (allowing : List Authority) (publication : ProfilePublicationV1) : Checked SnapshotState := do
  let event := signed.event
  bailIf (event.namespaceName != publication.namespaceName)
    (.namespaceMismatch event.namespaceName publication.namespaceName)
  validateProfileIssuer crypto publication event.signerPublicKey
  let issuedAtMs := publication.profile.issuedAt
  let expiresAtMs := publication.profile.expiresAt
  bailIf (event.issuedAtMs < issuedAtMs || expiresAtMs ≤ event.issuedAtMs ||
      !allowing.any fun authority => authority.containsInterval issuedAtMs expiresAtMs)
    (.invalidValidity "authority-bounded profile publication")
  let key : RegistryProfileKeyV1 := toLex (publication.namespaceName, publication.nodeId)
  checkGeneration publication (state.profiles.get? key)
  let digest ← registryEventSha256 crypto signed
  return state.publish key ⟨publication, digest, issuedAtMs, expiresAtMs, expiresAtMs ≤ nowMs⟩

def applyBody (nowMs : Nat) (state : SnapshotState) (signed : SignedRegistryEventV1)
    (allowing : List Authority) : Checked SnapshotState :=
  match signed.event.body with
  | .namespaceRoot _ => .error .invalidRootEvent
  | .namespaceDelegation delegation => applyDelegation nowMs state signed.event allowing delegation
  | .publishProfile publication => applyPublication crypto nowMs state signed allowing publication

def verifyEvent (nowMs : Nat) (state : SnapshotState) (index : Nat)
    (signed : SignedRegistryEventV1) : Checked SnapshotState := do
  let allowing ← authorizing crypto nowMs state index signed
  let applied ← applyBody crypto nowMs state signed allowing
  let digest ← registryEventSha256 crypto signed
  return { applied with previousDigest := digest, previousIssuedAt := signed.event.issuedAtMs }

def verifyEvents (nowMs : Nat) : SnapshotState → Nat → List SignedRegistryEventV1 →
    Checked SnapshotState
  | state, _, [] => .ok state
  | state, index, signed :: rest => do
      let next ← verifyEvent crypto nowMs state index signed
      verifyEvents nowMs next (index + 1) rest

def checkProfile (nowMs : Nat) (staleness : ProfileStalenessPolicyV1)
    (profile : VerifiedRegistryProfileV1) : Checked Unit := do
  let publication := profile.publication
  bailIf (nowMs < profile.issuedAtMs)
    (.profileNotYetValid publication.namespaceName publication.nodeId)
  bailIf (profile.stale && staleness == .reject)
    (.staleProfile publication.namespaceName publication.nodeId profile.expiresAtMs)

def verifySnapshot (snapshot : RegistrySnapshotV1) (anchor : Authority) (nowMs : Nat)
    (staleness : ProfileStalenessPolicyV1) : Checked SnapshotVerification := do
  let (first, root) ← verifyRoot crypto snapshot
  bailIf (!anchor.authorizesRoot root.namespaceName root.rootPublicKey root.validFromMs
    root.expiresAtMs nowMs) (.missingDelegation root.namespaceName)
  bailIf (nowMs < root.validFromMs || root.expiresAtMs ≤ nowMs)
    (.invalidValidity "current namespace root")
  let digest ← registryEventSha256 crypto first
  let state ← verifyEvents crypto nowMs
    ⟨[anchor.anchored root], [], .empty, digest, first.event.issuedAtMs⟩ 1 snapshot.events.tail
  state.profiles.values.forM (checkProfile nowMs staleness)
  return ⟨root.namespaceName, state.profiles, state.activeDelegations, snapshot.lastSequence⟩

end Snapshot

/-! ## The store -/

/-- A snapshot with the identity of its root. -/
structure RootedSnapshot where
  snapshot : RegistrySnapshotV1
  namespaceName : String
  publicKey : RegistryPublicKeyV1
deriving DecidableEq

namespace RootedSnapshot

def before (left right : RootedSnapshot) : Bool :=
  left.namespaceName < right.namespaceName ||
    (left.namespaceName == right.namespaceName && left.publicKey.toList < right.publicKey.toList)

end RootedSnapshot

structure ResolveState where
  authorities : List Authority
  verified : List SnapshotVerification

section Resolve

variable (crypto : RegistryCryptoV1) (nowMs : Nat) (staleness : ProfileStalenessPolicyV1)

/-- The anchor the loop takes for a snapshot: the first authority of its root identity. -/
def matching (authorities : List Authority) (rooted : RootedSnapshot) : Option Authority :=
  authorities.find? fun authority =>
    authority.publicKey == rooted.publicKey && rooted.namespaceName == authority.scope

def ResolveState.extend (state : ResolveState) (checked : SnapshotVerification) : ResolveState :=
  ⟨state.authorities ++ checked.activeDelegations, state.verified ++ [checked]⟩

/-- One round over the unresolved snapshots, with those that stay unresolved. -/
def resolveRound : ResolveState → List RootedSnapshot → Checked (ResolveState × List RootedSnapshot)
  | state, [] => .ok (state, [])
  | state, rooted :: rest =>
      match matching state.authorities rooted with
      | none => do
          let (state, unresolved) ← resolveRound state rest
          return (state, rooted :: unresolved)
      | some anchor => do
          let checked ← verifySnapshot crypto rooted.snapshot anchor nowMs staleness
          resolveRound (state.extend checked) rest

/-- The rounds. Each resolves at least one snapshot, so as many rounds as there are snapshots
leave none. -/
def resolve : Nat → ResolveState → List RootedSnapshot → Checked ResolveState
  | _, state, [] | 0, state, _ => .ok state
  | rounds + 1, state, first :: rest => do
      let (state, unresolved) ← resolveRound crypto nowMs staleness state (first :: rest)
      bailIf (unresolved.length == rest.length + 1) (.missingDelegation first.namespaceName)
      resolve rounds state unresolved

end Resolve

end Ostadix.Registry
