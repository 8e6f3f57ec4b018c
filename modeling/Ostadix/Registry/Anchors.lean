import Ostadix.Registry.Chain

/-! # The choice of an anchor

The loop verifies a snapshot against the first authority of its root identity and looks for no
other when that one is too short. A snapshot is rejected although another authority covers its
root exactly when the loop comes to it with an unfit anchor; if the loop stops for want of any
anchor, there is none. -/

namespace Ostadix.Registry

open Ostadix.Lib List

/-! ## Rejections for other reasons -/

section OtherReasons

/-- The rejection for want of an authority. -/
abbrev missing {α : Type} (namespaceName : String) : Except RegistryError α :=
  .error (.missingDelegation namespaceName)

variable {crypto : RegistryCryptoV1} {nowMs : Nat} {namespaceName : String}

theorem body_ne_missing (bd : RegistryEventBodyV1) : bd.validate ≠ missing namespaceName := by
  cases bd <;> simp [RegistryEventBodyV1.validate, NamespaceRootV1.validate,
    NamespaceDelegationV1.validate, ProfilePublicationV1.validate, validateNodeId, validateVersion,
    validateNamespace, validateValidity, bind_eq_error, bailIf_eq_error]

theorem event_ne_missing (ev : RegistryEventV1) : ev.validateShape ≠ missing namespaceName := by
  simp [RegistryEventV1.validateShape, validateVersion, validateNamespace, body_ne_missing,
    bind_eq_error, bailIf_eq_error]

theorem snapshot_ne_missing (snap : RegistrySnapshotV1) :
    snap.validateShape ≠ missing namespaceName := by
  simp [RegistrySnapshotV1.validateShape, validateVersion, bind_eq_error, bailIf_eq_error]

theorem signature_ne_missing (sig : SignedRegistryEventV1) :
    verifyEventSignature crypto sig ≠ missing namespaceName := by
  simp [verifyEventSignature, bind_eq_error, bailIf_eq_error, mapError_eq_error]

theorem root_ne_missing (snap : RegistrySnapshotV1) :
    verifyRoot crypto snap ≠ missing namespaceName := by
  intro hfl
  simp only [verifyRoot, bind_eq_error, bailIf_eq_error, snapshot_ne_missing, okOr_eq_error,
    event_ne_missing, signature_ne_missing, reduceCtorEq, and_false, false_or] at hfl
  obtain ⟨_, _, _, _, _, _, _, _, _, _, hfl⟩ := hfl
  split at hfl
  · simp [bind_eq_error, bailIf_eq_error, pure, Except.pure] at hfl
  · cases hfl

theorem apply_ne_missing (s : SnapshotState) (sig : SignedRegistryEventV1)
    (allowing : List Authority) :
    applyBody crypto nowMs s sig allowing ≠ missing namespaceName := by
  unfold applyBody
  split
  · simp
  · simp [-bind_pure_comp, applyDelegation, bind_eq_error, bailIf_eq_error, pure, Except.pure]
  · have gen (pub : ProfilePublicationV1) (existing : Option VerifiedRegistryProfileV1) :
        checkGeneration pub existing ≠ missing namespaceName := by
      cases existing <;> simp [checkGeneration, bind_eq_error, bailIf_eq_error]
    simp [-bind_pure_comp, applyPublication, validateProfileIssuer, registryEventSha256, gen,
      bind_eq_error, bailIf_eq_error, mapError_eq_error, pure, Except.pure]

theorem verifyEvents_ne_missing (s : SnapshotState) (i : Nat) (evs : List SignedRegistryEventV1) :
    verifyEvents crypto nowMs s i evs ≠ missing namespaceName := by
  induction evs generalizing s i with
  | nil => simp [verifyEvents]
  | cons hsg rest ih =>
    simp [-bind_pure_comp, verifyEvents, verifyEvent, authorizing, registryEventSha256, ih,
      event_ne_missing, signature_ne_missing, apply_ne_missing, bind_eq_error, bailIf_eq_error,
      mapError_eq_error, pure, Except.pure]

end OtherReasons

variable {namespaceName : String}

variable {snapshot : RegistrySnapshotV1}

section Verify

variable {crypto : RegistryCryptoV1} {nowMs : Nat}

/-- The anchor does not authorize the root of the snapshot. -/
def Unfit (crypto : RegistryCryptoV1) (nowMs : Nat) (anchor : Authority)
    (snapshot : RegistrySnapshotV1) (root : NamespaceRootV1) : Prop :=
  (∃ first, verifyRoot crypto snapshot = .ok (first, root)) ∧
    anchor.authorizesRoot root.namespaceName root.rootPublicKey root.validFromMs root.expiresAtMs
      nowMs = false

variable {staleness : ProfileStalenessPolicyV1}

/-- A snapshot is rejected for a missing delegation exactly if its anchor is unfit. -/
theorem verifySnapshot_missing_iff {anc : Authority} :
    verifySnapshot crypto snapshot anc nowMs staleness = .error (.missingDelegation namespaceName) ↔
      ∃ root, Unfit crypto nowMs anc snapshot root ∧ root.namespaceName = namespaceName := by
  unfold verifySnapshot
  cases st0 : verifyRoot crypto snapshot with
  | error =>
    refine iff_of_false ?_ ?_
    · rintro ⟨⟩
      exact root_ne_missing snapshot st0
    · rintro ⟨root, ⟨⟨first, bad⟩, _⟩, _⟩
      rw [st0] at bad
      cases bad
  | ok pair =>
    obtain ⟨first, root⟩ := pair
    rw [ok_bind]
    cases hal : anc.authorizesRoot root.namespaceName root.rootPublicKey root.validFromMs
        root.expiresAtMs nowMs with
    | false =>
      simp only [hal, Bool.not_false, bailIf_true, error_bind, Except.error.injEq,
        RegistryError.missingDelegation.injEq]
      constructor
      · intro he
        exact ⟨root, ⟨⟨first, st0⟩, hal⟩, he⟩
      · rintro ⟨o, ⟨⟨_, hf⟩, _⟩, he⟩
        cases st0.symm.trans hf
        exact he
    | true =>
      refine iff_of_false ?_ ?_
      · have profiles (xs : List VerifiedRegistryProfileV1) :
            forM xs (checkProfile nowMs staleness) ≠ .error (.missingDelegation namespaceName) :=
          forM_ne_error xs fun profile => by
            simp [checkProfile, bind_eq_error, bailIf_eq_error]
        simp [-bind_pure_comp, hal, bailIf_false, bind_eq_error, bailIf_eq_error,
          registryEventSha256, mapError_eq_error, verifyEvents_ne_missing, profiles, pure,
          Except.pure]
      · rintro ⟨o, ⟨⟨_, hf⟩, hrf⟩, _⟩
        cases st0.symm.trans hf
        rw [hal] at hrf
        cases hrf

/-! ## Delegations a snapshot carries -/

/-- The authority that an event delegates, if it is active. -/
def activeDelegation (nowMs : Nat) (signed : SignedRegistryEventV1) : Option Authority :=
  match signed.event.body with
  | .namespaceDelegation delegation =>
      if (Authority.ofDelegation delegation).isActive nowMs then some (.ofDelegation delegation)
      else none
  | _ => none

def RegistrySnapshotV1.activeDelegations (snapshot : RegistrySnapshotV1) (nowMs : Nat) :
    List Authority :=
  snapshot.events.filterMap (activeDelegation nowMs)

theorem activeDelegations_verifyEvent {s next : SnapshotState} {i : Nat}
    {sig : SignedRegistryEventV1} (hver : verifyEvent crypto nowMs s i sig = .ok next) :
    next.activeDelegations = s.activeDelegations ++ (activeDelegation nowMs sig).toList := by
  simp only [verifyEvent, bind_eq_ok] at hver
  obtain ⟨_, _, _, bd, _, _, ⟨⟩⟩ := hver
  unfold applyBody at bd
  unfold activeDelegation
  split at bd
  · cases bd
  · rename_i del rcd
    obtain ⟨_, _, rfl⟩ := applyDelegation_eq_ok bd
    simp only [rcd, SnapshotState.delegate]
    split <;> rfl
  · rename_i pub rcd
    obtain ⟨_, _, _, _, rfl⟩ := applyPublication_eq_ok bd
    simp [rcd, SnapshotState.publish]

theorem activeDelegations_verifyEvents {s next : SnapshotState} {i : Nat}
    {evs : List SignedRegistryEventV1} (hver : verifyEvents crypto nowMs s i evs = .ok next) :
    next.activeDelegations = s.activeDelegations ++ evs.filterMap (activeDelegation nowMs) := by
  induction evs generalizing s i with
  | nil =>
    cases hver
    simp
  | cons hsg rest ih =>
    obtain ⟨_, first, hl⟩ := bind_eq_ok.mp hver
    rw [ih hl, activeDelegations_verifyEvent first, append_assoc, filterMap_cons]
    cases activeDelegation nowMs hsg <;> rfl

/-- The delegations of a verified snapshot do not depend on its anchor. -/
theorem activeDelegations_verifySnapshot {anc : Authority} {hk : SnapshotVerification}
    (hver : verifySnapshot crypto snapshot anc nowMs staleness = .ok hk) :
    hk.activeDelegations = snapshot.activeDelegations nowMs := by
  simp only [verifySnapshot, bind_eq_ok] at hver
  obtain ⟨⟨first, _⟩, st0, _, _, _, _, _, _, _, evs, _, _, ⟨⟩⟩ := hver
  obtain ⟨⟨_, whole⟩, rcd, _⟩ := verifyRoot_eq_ok st0
  have none : activeDelegation nowMs first = none := by
    unfold activeDelegation
    rw [rcd]
  rw [activeDelegations_verifyEvents evs, RegistrySnapshotV1.activeDelegations, whole,
    tail_cons, filterMap_cons, none]
  rfl

end Verify

/-! ## Supported snapshots -/

section Support

variable (crypto : RegistryCryptoV1) (trust : RegistryTrustV1) (nowMs : Nat)
  (staleness : ProfileStalenessPolicyV1) (snapshots : List RootedSnapshot)

/-- The snapshots that verify against a pin, or against an active delegation of such a snapshot. -/
inductive Accepted : RootedSnapshot → Prop
  | pinned {rooted : RootedSnapshot} {pin : RegistryRootPinV1} {checked : SnapshotVerification}
      (member : rooted ∈ snapshots) (known : pin ∈ trust.roots)
      (verified : verifySnapshot crypto rooted.snapshot (.ofPin pin) nowMs staleness = .ok checked) :
      Accepted rooted
  | delegated {rooted parent : RootedSnapshot} {anchor : Authority}
      {checked : SnapshotVerification} (member : rooted ∈ snapshots) (accepted : Accepted parent)
      (carried : anchor ∈ parent.snapshot.activeDelegations nowMs)
      (verified : verifySnapshot crypto rooted.snapshot anchor nowMs staleness = .ok checked) :
      Accepted rooted

/-- A pin, or an active delegation that another accepted snapshot carries, has the root namespace
and key of the snapshot and an interval that contains the interval of its root. -/
def Supported (rooted : RootedSnapshot) : Prop :=
  ∃ authority, ((∃ pin ∈ trust.roots, authority = .ofPin pin) ∨
      ∃ other, Accepted crypto trust nowMs staleness snapshots other ∧ other ≠ rooted ∧
        authority ∈ other.snapshot.activeDelegations nowMs) ∧
    authority.scope = rooted.namespaceName ∧ authority.publicKey = rooted.publicKey ∧
    ∃ first rest root, rooted.snapshot.events = first :: rest ∧
      first.event.body = .namespaceRoot root ∧ authority.Bounds (.ofRoot root)

/-- A round comes to a snapshot and takes an anchor for it. -/
inductive RoundTakes (taken : RootedSnapshot) (anchor : Authority) :
    ResolveState → List RootedSnapshot → Prop
  | here {state : ResolveState} {rest : List RootedSnapshot}
      (found : matching state.authorities taken = some anchor) :
      RoundTakes taken anchor state (taken :: rest)
  | skipped {state : ResolveState} {rooted : RootedSnapshot} {rest : List RootedSnapshot}
      (absent : matching state.authorities rooted = none)
      (later : RoundTakes taken anchor state rest) : RoundTakes taken anchor state (rooted :: rest)
  | resolved {state : ResolveState} {rooted : RootedSnapshot} {rest : List RootedSnapshot}
      {other : Authority} {checked : SnapshotVerification}
      (found : matching state.authorities rooted = some other)
      (verified : verifySnapshot crypto rooted.snapshot other nowMs staleness = .ok checked)
      (later : RoundTakes taken anchor (state.extend checked) rest) :
      RoundTakes taken anchor state (rooted :: rest)

/-- The loop comes to a snapshot and takes an anchor for it. -/
inductive LoopTakes (taken : RootedSnapshot) (anchor : Authority) :
    ResolveState → List RootedSnapshot → Prop
  | round {state : ResolveState} {pending : List RootedSnapshot}
      (takes : RoundTakes crypto nowMs staleness taken anchor state pending) :
      LoopTakes taken anchor state pending
  | later {state next : ResolveState} {pending unresolved : List RootedSnapshot}
      (ran : resolveRound crypto nowMs staleness state pending = .ok (next, unresolved))
      (progress : unresolved.length ≠ pending.length)
      (takes : LoopTakes taken anchor next unresolved) : LoopTakes taken anchor state pending

end Support

section Rounds

variable {crypto : RegistryCryptoV1} {trust : RegistryTrustV1} {nowMs : Nat}
  {staleness : ProfileStalenessPolicyV1} {snaps : List RootedSnapshot}
  {s next : ResolveState} {pend unresolved : List RootedSnapshot}
  {taken : RootedSnapshot} {anc : Authority} {root : NamespaceRootV1} {namespaceName : String}

theorem RoundTakes.mem (takes : RoundTakes crypto nowMs staleness taken anc s pend) :
    taken ∈ pend := by
  induction takes with
  | here => exact mem_cons_self
  | skipped _ _ ih | resolved _ _ _ ih => exact mem_cons_of_mem _ ih

theorem LoopTakes.mem (takes : LoopTakes crypto nowMs staleness taken anc s pend) :
    taken ∈ pend := by
  induction takes with
  | round takes => exact takes.mem
  | later ran _ _ ih => exact (resolveRound_sublist ran).subset ih

/-- An unfit anchor ends the round. -/
theorem RoundTakes.missing (takes : RoundTakes crypto nowMs staleness taken anc s pend)
    (unfit : Unfit crypto nowMs anc taken.snapshot root) :
    resolveRound crypto nowMs staleness s pend =
      .error (.missingDelegation root.namespaceName) := by
  induction takes with
  | here hf =>
    simp only [resolveRound, hf]
    rw [verifySnapshot_missing_iff.mpr ⟨root, unfit, rfl⟩]
    rfl
  | skipped hab _ ih =>
    simp only [resolveRound, hab, ih]
    rfl
  | resolved hf hver _ ih => simp only [resolveRound, hf, hver, ok_bind, ih]

theorem LoopTakes.missing (takes : LoopTakes crypto nowMs staleness taken anc s pend)
    (unfit : Unfit crypto nowMs anc taken.snapshot root) {rounds : Nat}
    (hen : pend.length ≤ rounds) :
    resolve crypto nowMs staleness rounds s pend =
      .error (.missingDelegation root.namespaceName) := by
  induction takes generalizing rounds with
  | @round s pend takes =>
    cases pend with
    | nil => cases takes
    | cons =>
      obtain ⟨rounds, rfl⟩ := Nat.exists_eq_succ_of_ne_zero (Nat.ne_zero_of_lt hen)
      rw [resolve, takes.missing unfit]
      rfl
  | @later s next pend unresolved ran prg _ ih =>
    cases pend with
    | nil =>
      cases ran
      exact absurd rfl prg
    | cons =>
      obtain ⟨rounds, rfl⟩ := Nat.exists_eq_succ_of_ne_zero (Nat.ne_zero_of_lt hen)
      have shorter : unresolved.length ≤ rounds := by
        have hb := (resolveRound_sublist ran).length_le
        simp only [length_cons] at hb hen prg
        omega
      rw [length_cons, ← beq_eq_false_iff_ne] at prg
      rw [resolve, ran, ok_bind]
      simp only [prg, bailIf_false, ok_bind, ih shorter]

/-- The pins and the active delegations of the snapshots that are no longer pending are known. -/
structure Knows (trust : RegistryTrustV1) (nowMs : Nat) (snapshots : List RootedSnapshot)
    (state : ResolveState) (pending : List RootedSnapshot) : Prop where
  pins : ∀ pin ∈ trust.roots, .ofPin pin ∈ state.authorities
  resolved : ∀ rooted ∈ snapshots, rooted ∈ pending ∨
    ∀ authority ∈ rooted.snapshot.activeDelegations nowMs, authority ∈ state.authorities

theorem authorities_round (ran : resolveRound crypto nowMs staleness s pend =
      .ok (next, unresolved)) :
    (∀ auth ∈ s.authorities, auth ∈ next.authorities) ∧ ∀ hrt ∈ pend, hrt ∈ unresolved ∨
        ∀ auth ∈ hrt.snapshot.activeDelegations nowMs, auth ∈ next.authorities := by
  induction pend generalizing s unresolved with
  | nil =>
    cases ran
    exact ⟨fun _ hm => hm, by simp⟩
  | cons hrt rest ih =>
    rw [resolveRound] at ran
    split at ran
    · obtain ⟨⟨_, _⟩, hl, ⟨⟩⟩ := bind_eq_ok.mp ran
      obtain ⟨hgn, oths⟩ := ih hl
      refine ⟨hgn, forall_mem_cons.mpr ⟨.inl mem_cons_self, ?_⟩⟩
      intro o hm
      exact (oths o hm).imp_left (mem_cons_of_mem _)
    · obtain ⟨_, hver, hl⟩ := bind_eq_ok.mp ran
      obtain ⟨hgn, oths⟩ := ih hl
      rw [ResolveState.extend, activeDelegations_verifySnapshot hver] at hgn
      refine ⟨fun auth hm => hgn auth (mem_append_left _ hm), forall_mem_cons.mpr ⟨.inr ?_, oths⟩⟩
      intro auth hm
      exact hgn auth (mem_append_right _ hm)

theorem Knows.round (knows : Knows trust nowMs snaps s pend)
    (ran : resolveRound crypto nowMs staleness s pend = .ok (next, unresolved)) :
    Knows trust nowMs snaps next unresolved := by
  obtain ⟨hgn, hres⟩ := authorities_round ran
  refine ⟨fun pin hk => hgn _ (knows.pins pin hk), ?_⟩
  intro hrt hm
  obtain hwt | hk := knows.resolved hrt hm
  · exact hres hrt hwt
  · exact .inr fun auth hcar => hgn auth (hk auth hcar)

theorem matching_isSome {authorities : List Authority} {auth : Authority}
    {rt : RootedSnapshot} (hk : auth ∈ authorities) (sc : auth.scope = rt.namespaceName)
    (k : auth.publicKey = rt.publicKey) : matching authorities rt ≠ none := by
  intro hab
  have hdf := find?_eq_none.mp hab auth hk
  simp [sc, k] at hdf

end Rounds

/-! ## Root identities -/

/-- What the identities of a store say. -/
structure Identified (snapshots : List RootedSnapshot) : Prop where
  roots : ∀ rooted ∈ snapshots, ∃ first rest root, rooted.snapshot.events = first :: rest ∧
    first.event.body = .namespaceRoot root ∧ root.namespaceName = rooted.namespaceName ∧
    root.rootPublicKey = rooted.publicKey
  distinct : (snapshots.map RootedSnapshot.namespaceName).Nodup

section Complete

variable {crypto : RegistryCryptoV1} {trust : RegistryTrustV1} {nowMs : Nat}
  {staleness : ProfileStalenessPolicyV1} {snapshots : List RootedSnapshot}
  {s : ResolveState} {pend : List RootedSnapshot}

/-- The root that a snapshot verifies has the identity that the snapshot is known by. -/
theorem Identified.root (hid : Identified snapshots) {hrt : RootedSnapshot}
    (hm : hrt ∈ snapshots) {first : SignedRegistryEventV1} {root : NamespaceRootV1}
    (st0 : verifyRoot crypto hrt.snapshot = .ok (first, root)) :
    root.namespaceName = hrt.namespaceName ∧ root.rootPublicKey = hrt.publicKey := by
  obtain ⟨⟨_, whole⟩, rcd, _⟩ := verifyRoot_eq_ok st0
  obtain ⟨_, _, _, evs, bd, he⟩ := hid.roots hrt hm
  cases whole.symm.trans evs
  cases rcd.symm.trans bd
  exact he

/-- A snapshot that verifies is named by its anchor. -/
theorem Identified.anchor (hid : Identified snapshots) {hrt : RootedSnapshot}
    (hm : hrt ∈ snapshots) {anc : Authority} {hk : SnapshotVerification}
    (hver : verifySnapshot crypto hrt.snapshot anc nowMs staleness = .ok hk) :
    anc.scope = hrt.namespaceName ∧ anc.publicKey = hrt.publicKey := by
  simp only [verifySnapshot, bind_eq_ok, bailIf_eq_ok] at hver
  obtain ⟨⟨_, root⟩, st0, _, hal, _⟩ := hver
  obtain ⟨name, k⟩ := hid.root hm st0
  simp only [Authority.authorizesRoot, Bool.not_eq_false', Bool.and_eq_true, beq_iff_eq] at hal
  exact ⟨hal.1.1.1.1.2.symm.trans name, hal.1.1.1.1.1.trans k⟩

section

variable (knows : Knows trust nowMs snapshots s pend)

include knows

/-- If no pending snapshot has an anchor, the delegations of all accepted snapshots are known. -/
theorem Knows.accepted (hid : Identified snapshots)
    (stuck : ∀ hrt ∈ pend, matching s.authorities hrt = none)
    {hrt : RootedSnapshot} (ha : Accepted crypto trust nowMs staleness snapshots hrt) :
    ∀ auth ∈ hrt.snapshot.activeDelegations nowMs, auth ∈ s.authorities := by
  -- a snapshot with a known anchor is not pending
  have hres {hrt : RootedSnapshot} {anchor : Authority} {hk : SnapshotVerification}
      (hm : hrt ∈ snapshots) (known : anchor ∈ s.authorities)
      (hver : verifySnapshot crypto hrt.snapshot anchor nowMs staleness = .ok hk) :
      ∀ auth ∈ hrt.snapshot.activeDelegations nowMs, auth ∈ s.authorities := by
    obtain ⟨sc, k⟩ := hid.anchor hm hver
    obtain hwt | known' := knows.resolved hrt hm
    · exact absurd (stuck hrt hwt) (matching_isSome known sc k)
    · exact known'
  induction ha with
  | pinned hm known hver => exact hres hm (knows.pins _ known) hver
  | delegated hm _ hcar hver ih => exact hres hm (ih _ hcar) hver

theorem Knows.unsupported (hid : Identified snapshots)
    (stuck : ∀ rt ∈ pend, matching s.authorities rt = none) {rt : RootedSnapshot} (hm : rt ∈ pend) :
    ¬ Supported crypto trust nowMs staleness snapshots rt := by
  rintro ⟨auth, origin, sc, k, _⟩
  have hk : auth ∈ s.authorities := by
    obtain ⟨pin, pinned, rfl⟩ | ⟨_, ha, _, hcar⟩ := origin
    · exact knows.pins pin pinned
    · exact knows.accepted hid stuck ha auth hcar
  exact matching_isSome hk sc k (stuck rt hm)

end

end Complete

/-! ## Two delegations of one child -/

namespace TwoDelegations

def crypto : RegistryCryptoV1 where
  registrySigningPreimage _ := .ok []
  decodesKey _ := true
  verifyStrict _ _ _ := true
  eventSha256 signed :=
    .ok [UInt8.ofNat signed.event.sequence, UInt8.ofNat signed.event.namespaceName.length]
  publicKeyIdHex _ := ""

def parentKey : RegistryPublicKeyV1 := .replicate 32 0

def childKey : RegistryPublicKeyV1 := .replicate 32 1

def signed (event : RegistryEventV1) : SignedRegistryEventV1 := ⟨event, .replicate 64 0⟩

def delegation (expiresAtMs : Nat) : RegistryEventBodyV1 :=
  .namespaceDelegation ⟨1, "a", "a/b", childKey, 1, expiresAtMs⟩

/-- The first delegation of the child expires before the root of the child does. -/
def parent : RegistrySnapshotV1 := ⟨1, [
  signed ⟨1, 1, none, 0, "a", parentKey, .namespaceRoot ⟨1, "a", parentKey, 0, 1000⟩⟩,
  signed ⟨1, 2, some [1, 1], 1, "a", parentKey, delegation 100⟩,
  signed ⟨1, 3, some [2, 1], 1, "a", parentKey, delegation 200⟩]⟩

def childRoot : NamespaceRootV1 := ⟨1, "a/b", childKey, 1, 150⟩

def child : RegistrySnapshotV1 :=
  ⟨1, [signed ⟨1, 1, none, 1, "a/b", childKey, .namespaceRoot childRoot⟩]⟩

def store : RegistryStoreV1 := ⟨1, [parent, child]⟩

def trust : RegistryTrustV1 := ⟨1, [⟨"a", parentKey⟩]⟩

def rooted : List RootedSnapshot := [⟨parent, "a", parentKey⟩, ⟨child, "a/b", childKey⟩]

end TwoDelegations

end Ostadix.Registry
