import Ostadix.Registry.Verify

/-! # Chains of authority

A `Link` is a namespace root or a delegation that the store carries, signed by the key of its
parent; a `Chain` starts at a trust pin. Every authority the verifier works with ends a chain, so
every profile it returns was published by a key that a chain reaches. -/

namespace Ostadix.Registry

open Ostadix.Lib List Bool

/-! ## Scopes -/

theorem isWithinScope_iff {v sc : String} : isWithinScope v sc = true ↔
      v = sc ∨ ∃ suffix, v.toList = sc.toList ++ '/' :: suffix := by
  simp only [isWithinScope, or_eq_true, beq_iff_eq, Option.any_eq_true]
  refine or_congr_right ?_
  constructor
  · rintro ⟨suffix, stripped, slash⟩
    rw [dropPrefix?_eq_some_iff] at stripped
    obtain ⟨_, whole, he⟩ := stripped
    cases suffix with
    | nil => cases slash
    | cons first tl =>
      cases slash
      exact ⟨tl, by rw [whole, ← beq_iff_eq.mp he]⟩
  · rintro ⟨suffix, whole⟩
    refine ⟨'/' :: suffix, ?_, rfl⟩
    rw [dropPrefix?_eq_some_iff]
    exact ⟨sc.toList, whole, by simp⟩

theorem isWithinScope_trans {v mid sc : String}
    (inn : isWithinScope v mid = true) (out : isWithinScope mid sc = true) :
    isWithinScope v sc = true := by
  rw [isWithinScope_iff] at *
  obtain rfl | ⟨innerSuffix, innerWhole⟩ := inn
  · exact out
  obtain rfl | ⟨outerSuffix, outerWhole⟩ := out
  · exact .inr ⟨innerSuffix, innerWhole⟩
  · refine .inr ⟨outerSuffix ++ '/' :: innerSuffix, ?_⟩
    rw [innerWhole, outerWhole, append_assoc]
    rfl

/-! ## Links and chains -/

/-- The event carries a valid signature of the key. -/
structure SignedBy (crypto : RegistryCryptoV1) (publicKey : RegistryPublicKeyV1)
    (signed : SignedRegistryEventV1) : Prop where
  signer : signed.event.signerPublicKey = publicKey
  signature : verifyEventSignature crypto signed = .ok ()

variable {par child : Authority}

namespace Authority

/-- The interval of an authority contains the time. -/
def Covers (authority : Authority) (atMs : Nat) : Prop :=
  authority.validFromMs ≤ atMs ∧ atMs < authority.expiresAtMs

/-- The interval of the child lies in the interval of the parent. -/
def Bounds (parent child : Authority) : Prop :=
  parent.validFromMs ≤ child.validFromMs ∧ child.expiresAtMs ≤ parent.expiresAtMs

theorem Bounds.covers (bnds : par.Bounds child) {atMs : Nat} (covered : child.Covers atMs) :
    par.Covers atMs :=
  ⟨bnds.1.trans covered.1, covered.2.trans_le bnds.2⟩

end Authority

section Chains

variable (crypto : RegistryCryptoV1) (store : RegistryStoreV1) (trust : RegistryTrustV1) (nowMs : Nat)

/-- The parent vouches for the child by a record of the store: the root of a snapshot, which is
current, or a delegation. -/
inductive Link (parent : Authority) : Authority → Prop
  | root {snapshot : RegistrySnapshotV1} {signed : SignedRegistryEventV1}
      {rest : List SignedRegistryEventV1} {root : NamespaceRootV1}
      (carried : snapshot ∈ store.snapshots) (first : snapshot.events = signed :: rest)
      (body : signed.event.body = .namespaceRoot root)
      (signature : SignedBy crypto parent.publicKey signed)
      (key : root.rootPublicKey = parent.publicKey)
      (scope : isWithinScope root.namespaceName parent.scope = true)
      (bounds : parent.Bounds (.ofRoot root)) (current : (Authority.ofRoot root).Covers nowMs) :
      Link parent (.ofRoot root)
  | delegation {snapshot : RegistrySnapshotV1} {signed : SignedRegistryEventV1}
      {delegation : NamespaceDelegationV1}
      (carried : snapshot ∈ store.snapshots) (member : signed ∈ snapshot.events)
      (body : signed.event.body = .namespaceDelegation delegation)
      (signature : SignedBy crypto parent.publicKey signed)
      (scope : isWithinScope delegation.childNamespace parent.scope = true)
      (bounds : parent.Bounds (.ofDelegation delegation)) :
      Link parent (.ofDelegation delegation)

/-- A finite chain of links, the last one first, from a trust pin. -/
inductive Chain : List Authority → Prop
  | pin {pin : RegistryRootPinV1} (pinned : pin ∈ trust.roots) : Chain [.ofPin pin]
  | link {child parent : Authority} {ancestors : List Authority}
      (chain : Chain (parent :: ancestors)) (link : Link crypto store nowMs parent child) :
      Chain (child :: parent :: ancestors)

/-- The authority ends a chain. -/
def Vouched (authority : Authority) : Prop :=
  ∃ ancestors, Chain crypto store trust nowMs (authority :: ancestors)

variable {crypto store trust nowMs}

theorem Link.bounded (link : Link crypto store nowMs par child) : par.Bounds child := by
  cases link <;> assumption

/-- A time in the interval of the last link lies in every interval of the chain. -/
theorem Chain.covers {auth : Authority} {ancestors : List Authority}
    (chain : Chain crypto store trust nowMs (auth :: ancestors)) {atMs : Nat}
    (covered : auth.Covers atMs) : ∀ link ∈ auth :: ancestors, link.Covers atMs := by
  induction ancestors generalizing auth with
  | nil => simpa using covered
  | cons par ancestors ih =>
    cases chain with
    | link chain link =>
      rw [forall_mem_cons]
      exact ⟨covered, ih chain (link.bounded.covers covered)⟩

theorem Vouched.link (vouched : Vouched crypto store trust nowMs par)
    (link : Link crypto store nowMs par child) : Vouched crypto store trust nowMs child := by
  obtain ⟨ancestors, chain⟩ := vouched
  exact ⟨par :: ancestors, chain.link link⟩

/-- The profile is the publication of an event of the store, and the event was issued by the key
of an authority in whose scope it lies, with a chain that covers the time of issue. -/
def PublishedBy (crypto : RegistryCryptoV1) (store : RegistryStoreV1) (trust : RegistryTrustV1)
    (nowMs : Nat) (key : RegistryProfileKeyV1) (profile : VerifiedRegistryProfileV1) : Prop :=
  ∃ snapshot ∈ store.snapshots, ∃ signed ∈ snapshot.events, ∃ authority ancestors,
    signed.event.body = .publishProfile profile.publication ∧
    key = toLex (profile.publication.namespaceName, profile.publication.nodeId) ∧
    SignedBy crypto authority.publicKey signed ∧
    isWithinScope profile.publication.namespaceName authority.scope = true ∧
    Chain crypto store trust nowMs (authority :: ancestors) ∧
    ∀ link ∈ authority :: ancestors, link.Covers signed.event.issuedAtMs ∧
      link.Covers profile.publication.profile.issuedAt

/-! ## The events of a snapshot -/

theorem anchored_eq {anc : Authority} {root : NamespaceRootV1}
    (hal : anc.authorizesRoot root.namespaceName root.rootPublicKey root.validFromMs
      root.expiresAtMs nowMs = true) : anc.anchored root = .ofRoot root := by
  simp only [Authority.authorizesRoot, and_eq_true, decide_eq_true_eq] at hal
  obtain ⟨⟨⟨⟨_, starts⟩, ends⟩, _⟩, _⟩ := hal
  rw [Authority.anchored, Nat.max_eq_left starts, Nat.min_eq_left ends]
  rfl

/-- What the loop over the events keeps. -/
structure SnapshotInvariant (crypto : RegistryCryptoV1) (store : RegistryStoreV1)
    (trust : RegistryTrustV1) (nowMs : Nat) (state : SnapshotState) : Prop where
  vouched : ∀ authority ∈ state.authorities, Vouched crypto store trust nowMs authority
  active : ∀ authority ∈ state.activeDelegations, authority ∈ state.authorities
  published : ∀ key profile, state.profiles.get? key = some profile →
    PublishedBy crypto store trust nowMs key profile

variable {s next : SnapshotState} {snap : RegistrySnapshotV1}
  {sg : SignedRegistryEventV1} {allowing : List Authority} {i : Nat}

/-- An authority that allows the event, and what makes the event its own. -/
structure Allows (crypto : RegistryCryptoV1) (authority : Authority)
    (signed : SignedRegistryEventV1) : Prop where
  signature : SignedBy crypto authority.publicKey signed
  scope : isWithinScope signed.event.namespaceName authority.scope = true
  issued : authority.Covers signed.event.issuedAtMs
  shape : signed.event.body.validate = .ok ()

theorem authorizing_eq_ok (checks : authorizing crypto nowMs s i sg = .ok allowing)
    {auth : Authority} (hm : auth ∈ allowing) :
    auth ∈ s.authorities ∧ Allows crypto auth sg := by
  simp only [authorizing, bind_eq_ok, bailIf_eq_ok] at checks
  obtain ⟨_, sh, _, _, _, _, _, _, _, _, _, sig, _, _, ⟨⟩⟩ := checks
  simp only [RegistryEventV1.validateShape, bind_eq_ok] at sh
  obtain ⟨_, _, _, _, _, _, bd⟩ := sh
  simp only [mem_filter, Authority.authorizes, and_eq_true, beq_iff_eq, decide_eq_true_eq] at hm
  obtain ⟨hk, ⟨⟨k, sc⟩, starts⟩, ends⟩ := hm
  exact ⟨hk, ⟨k.symm, sig⟩, sc, ⟨starts, ends⟩, bd⟩

theorem applyDelegation_eq_ok {del : NamespaceDelegationV1}
    (hap : applyDelegation nowMs s sg.event allowing del = .ok next) :
    sg.event.namespaceName = del.parentNamespace ∧
    (∃ auth ∈ allowing, auth.Bounds (.ofDelegation del)) ∧
    next = s.delegate nowMs (.ofDelegation del) := by
  simp only [applyDelegation, bind_eq_ok, bailIf_eq_ok] at hap
  obtain ⟨_, par, _, interval, ⟨⟩⟩ := hap
  simp only [or_eq_false_iff, not_eq_false', any_eq_true,
    Authority.containsInterval, and_eq_true, decide_eq_true_eq] at interval
  obtain ⟨_, auth, hm, bnds⟩ := interval
  exact ⟨by simpa using par, ⟨auth, hm, bnds⟩, rfl⟩

theorem applyPublication_eq_ok {pub : ProfilePublicationV1}
    (hap : applyPublication crypto nowMs s sg allowing pub = .ok next) :
    sg.event.namespaceName = pub.namespaceName ∧
    (∃ auth ∈ allowing, auth.Covers pub.profile.issuedAt) ∧
    ∃ profile : VerifiedRegistryProfileV1, profile.publication = pub ∧
      next = s.publish (toLex (pub.namespaceName, pub.nodeId)) profile := by
  simp only [applyPublication, bind_eq_ok, bailIf_eq_ok] at hap
  obtain ⟨_, he, _, _, _, interval, _, _, _, _, ⟨⟩⟩ := hap
  simp only [or_eq_false_iff, not_eq_false', any_eq_true,
    Authority.containsInterval, and_eq_true, decide_eq_true_eq,
    decide_eq_false_iff_not, not_lt, not_le] at interval
  obtain ⟨⟨issued, fresh⟩, auth, hm, starts, ends⟩ := interval
  refine ⟨by simpa using he, ⟨auth, hm, starts, ?_⟩, _, rfl, rfl⟩
  exact (issued.trans_lt fresh).trans_le ends

theorem strict_of_validate {del : NamespaceDelegationV1} (hv : del.validate = .ok ()) :
    isWithinScope del.childNamespace del.parentNamespace = true := by
  simp only [NamespaceDelegationV1.validate, bind_eq_ok, bailIf_eq_ok, isStrictDescendant] at hv
  obtain ⟨_, _, _, _, _, _, _, hstr, _⟩ := hv
  simp only [not_eq_false', and_eq_true] at hstr
  exact hstr.2

section

variable (inv : SnapshotInvariant crypto store trust nowMs s)

include inv

theorem SnapshotInvariant.delegate {delegated : Authority}
    (vouched : Vouched crypto store trust nowMs delegated) :
    SnapshotInvariant crypto store trust nowMs (s.delegate nowMs delegated) where
  vouched auth hm := by
    obtain old | new := mem_append.mp hm
    · exact inv.vouched auth old
    · cases mem_singleton.mp new
      exact vouched
  active auth hm := by
    obtain old | new := mem_append.mp hm
    · exact mem_append_left _ (inv.active auth old)
    · split at new
      · exact mem_append_right _ new
      · cases new
  published := inv.published

theorem SnapshotInvariant.publish {k : RegistryProfileKeyV1} {profile : VerifiedRegistryProfileV1}
    (published : PublishedBy crypto store trust nowMs k profile) :
    SnapshotInvariant crypto store trust nowMs (s.publish k profile) where
  vouched := inv.vouched
  active := inv.active
  published o hf hst := by
    rw [SnapshotState.publish, OrderedMap.get?_insert] at hst
    split at hst
    · rename_i he
      cases hst
      exact he ▸ published
    · exact inv.published o hf hst

/-- One event keeps the invariant. -/
theorem SnapshotInvariant.event (hcar : snap ∈ store.snapshots) (hm : sg ∈ snap.events)
    (hver : verifyEvent crypto nowMs s i sg = .ok next) :
    SnapshotInvariant crypto store trust nowMs next := by
  simp only [verifyEvent, bind_eq_ok] at hver
  obtain ⟨_, checks, hap, bd, _, _, ⟨⟩⟩ := hver
  have kept : SnapshotInvariant crypto store trust nowMs hap := by
    unfold applyBody at bd
    split at bd
    · cases bd
    · rename_i del rcd
      obtain ⟨par, ⟨auth, hal, bnds⟩, rfl⟩ := applyDelegation_eq_ok bd
      obtain ⟨hk, allows⟩ := authorizing_eq_ok checks hal
      have hv : del.validate = .ok () := by
        have sh := allows.shape
        rwa [rcd] at sh
      have sc : isWithinScope del.childNamespace auth.scope = true :=
        isWithinScope_trans (strict_of_validate hv) (par ▸ allows.scope)
      exact inv.delegate ((inv.vouched auth hk).link
        (.delegation hcar hm rcd allows.signature sc bnds))
    · rename_i pub rcd
      obtain ⟨he, ⟨auth, hal, issued⟩, _, rfl, rfl⟩ := applyPublication_eq_ok bd
      obtain ⟨hk, allows⟩ := authorizing_eq_ok checks hal
      obtain ⟨ancestors, chain⟩ := inv.vouched auth hk
      refine inv.publish ⟨snap, hcar, sg, hm, auth, ancestors, rcd,
        rfl, allows.signature, he ▸ allows.scope, chain, ?_⟩
      intro link hw
      exact ⟨chain.covers allows.issued link hw, chain.covers issued link hw⟩
  exact ⟨kept.vouched, kept.active, kept.published⟩

theorem SnapshotInvariant.events {evs : List SignedRegistryEventV1}
    (hcar : snap ∈ store.snapshots) (ms : ∀ sg ∈ evs, sg ∈ snap.events)
    (hver : verifyEvents crypto nowMs s i evs = .ok next) :
    SnapshotInvariant crypto store trust nowMs next := by
  induction evs generalizing s i with
  | nil =>
    cases hver
    exact inv
  | cons sg rest ih =>
    obtain ⟨_, first, hl⟩ := bind_eq_ok.mp hver
    have kept := inv.event hcar (ms sg mem_cons_self) first
    exact ih kept (forall_mem_cons.mp ms).2 hl

/-! ## Whole snapshots -/

end

theorem verifyRoot_eq_ok {first : SignedRegistryEventV1} {root : NamespaceRootV1}
    (hver : verifyRoot crypto snap = .ok (first, root)) :
    (∃ tl, snap.events = first :: tl) ∧ first.event.body = .namespaceRoot root ∧
      SignedBy crypto root.rootPublicKey first := by
  simp only [verifyRoot, bind_eq_ok, okOr_eq_ok] at hver
  obtain ⟨_, _, _, head, _, _, _, _, _, sig, bd⟩ := hver
  split at bd
  · rename_i rcd
    simp only [bind_eq_ok, bailIf_eq_ok] at bd
    obtain ⟨_, he, ⟨⟩⟩ := bd
    simp only [or_eq_false_iff, bne_eq_false_iff_eq] at he
    exact ⟨head?_eq_some_iff.mp head, rcd, he.1.2, sig⟩
  · cases bd

/-- The root of the snapshot is current and ends a chain. -/
def RootVouched (crypto : RegistryCryptoV1) (store : RegistryStoreV1) (trust : RegistryTrustV1)
    (nowMs : Nat) (snapshot : RegistrySnapshotV1) : Prop :=
  ∃ first rest root, snapshot.events = first :: rest ∧
    first.event.body = .namespaceRoot root ∧ (Authority.ofRoot root).Covers nowMs ∧
    Vouched crypto store trust nowMs (.ofRoot root)

/-- What a verified snapshot contributes. -/
structure SnapshotVouched (crypto : RegistryCryptoV1) (store : RegistryStoreV1)
    (trust : RegistryTrustV1) (nowMs : Nat) (checked : SnapshotVerification) : Prop where
  delegations : ∀ authority ∈ checked.activeDelegations, Vouched crypto store trust nowMs authority
  published : ∀ key profile, checked.profiles.get? key = some profile →
    PublishedBy crypto store trust nowMs key profile

variable {anc : Authority} {staleness : ProfileStalenessPolicyV1} {sv : SnapshotVerification}

theorem Vouched.verified (vouched : Vouched crypto store trust nowMs anc)
    (hcar : snap ∈ store.snapshots)
    (hver : verifySnapshot crypto snap anc nowMs staleness = .ok sv) :
    RootVouched crypto store trust nowMs snap ∧ SnapshotVouched crypto store trust nowMs sv := by
  simp only [verifySnapshot, bind_eq_ok, bailIf_eq_ok] at hver
  obtain ⟨⟨first, root⟩, st0, _, hal, _, current, dg, _, _, evs, _, _, hret⟩ := hver
  cases hret
  rw [not_eq_false'] at hal
  rw [anchored_eq hal] at evs
  obtain ⟨⟨tl, whole⟩, rcd, sig⟩ := verifyRoot_eq_ok st0
  simp only [Authority.authorizesRoot, and_eq_true, decide_eq_true_eq, beq_iff_eq] at hal
  obtain ⟨⟨⟨⟨⟨k, sc⟩, starts⟩, ends⟩, _⟩, _⟩ := hal
  have now : (Authority.ofRoot root).Covers nowMs := by
    simpa [Authority.Covers, Authority.ofRoot] using current
  have hrt : Vouched crypto store trust nowMs (.ofRoot root) :=
    vouched.link (.root hcar whole rcd (k ▸ sig) k.symm
      (isWithinScope_iff.mpr (.inl sc)) ⟨starts, ends⟩ now)
  have ini : SnapshotInvariant crypto store trust nowMs
      ⟨[.ofRoot root], [], .empty, dg, first.event.issuedAtMs⟩ :=
    ⟨by simpa using hrt, by simp, by simp⟩
  have final := ini.events hcar (fun _ hm => mem_of_mem_tail hm) evs
  exact ⟨⟨first, tl, root, whole, rcd, now, hrt⟩,
    fun auth hm => final.vouched auth (final.active auth hm),
    final.published⟩

/-! ## The rounds -/

/-- What the rounds keep. -/
structure ResolveInvariant (crypto : RegistryCryptoV1) (store : RegistryStoreV1)
    (trust : RegistryTrustV1) (nowMs : Nat) (state : ResolveState) : Prop where
  vouched : ∀ authority ∈ state.authorities, Vouched crypto store trust nowMs authority
  verified : ∀ checked ∈ state.verified, SnapshotVouched crypto store trust nowMs checked

theorem ResolveInvariant.extend {s : ResolveState}
    (inv : ResolveInvariant crypto store trust nowMs s)
    (vouched : SnapshotVouched crypto store trust nowMs sv) :
    ResolveInvariant crypto store trust nowMs (s.extend sv) where
  vouched auth hm := by
    obtain old | new := mem_append.mp hm
    · exact inv.vouched auth old
    · exact vouched.delegations auth new
  verified o hm := by
    obtain old | new := mem_append.mp hm
    · exact inv.verified o old
    · cases mem_singleton.mp new
      exact vouched

theorem matching_mem {authorities : List Authority} {rt : RootedSnapshot}
    (hf : matching authorities rt = some anc) : anc ∈ authorities :=
  mem_of_find?_eq_some hf

variable {s next : ResolveState} {pend unresolved : List RootedSnapshot}

/-- A round resolves only snapshots whose roots are vouched for. -/
theorem ResolveInvariant.round (inv : ResolveInvariant crypto store trust nowMs s)
    (hcar : ∀ hrt ∈ pend, hrt.snapshot ∈ store.snapshots)
    (ran : resolveRound crypto nowMs staleness s pend = .ok (next, unresolved)) :
    ResolveInvariant crypto store trust nowMs next ∧ ∀ hrt ∈ pend,
      hrt ∈ unresolved ∨ RootVouched crypto store trust nowMs hrt.snapshot := by
  induction pend generalizing s unresolved with
  | nil =>
    cases ran
    exact ⟨inv, by simp⟩
  | cons hrt rest ih =>
    rw [forall_mem_cons] at hcar
    rw [resolveRound] at ran
    split at ran
    · obtain ⟨⟨_, _⟩, hl, ⟨⟩⟩ := bind_eq_ok.mp ran
      obtain ⟨kept, hres⟩ := ih inv hcar.2 hl
      refine ⟨kept, forall_mem_cons.mpr ⟨.inl mem_cons_self, ?_⟩⟩
      intro o hm
      exact (hres o hm).imp_left (mem_cons_of_mem _)
    · rename_i anc hf
      obtain ⟨_, hver, hl⟩ := bind_eq_ok.mp ran
      obtain ⟨root, snap⟩ := Vouched.verified (inv.vouched anc (matching_mem hf)) hcar.1 hver
      obtain ⟨kept, hres⟩ := ih (inv.extend snap) hcar.2 hl
      exact ⟨kept, forall_mem_cons.mpr ⟨.inr root, hres⟩⟩

theorem resolveRound_sublist
    (ran : resolveRound crypto nowMs staleness s pend = .ok (next, unresolved)) :
    unresolved.Sublist pend := by
  induction pend generalizing s unresolved with
  | nil =>
    cases ran
    exact List.Sublist.refl _
  | cons hrt rest ih =>
    rw [resolveRound] at ran
    split at ran
    · obtain ⟨⟨_, _⟩, hl, ⟨⟩⟩ := bind_eq_ok.mp ran
      exact (ih hl).cons_cons hrt
    · obtain ⟨_, _, hl⟩ := bind_eq_ok.mp ran
      exact (ih hl).cons hrt

/-- As many rounds as there are snapshots resolve all of them. -/
theorem ResolveInvariant.resolve {rounds : Nat} {pend : List RootedSnapshot}
    (inv : ResolveInvariant crypto store trust nowMs s)
    (hcar : ∀ hrt ∈ pend, hrt.snapshot ∈ store.snapshots) (hen : pend.length ≤ rounds)
    (ran : resolve crypto nowMs staleness rounds s pend = .ok next) :
    ResolveInvariant crypto store trust nowMs next ∧
      ∀ hrt ∈ pend, RootVouched crypto store trust nowMs hrt.snapshot := by
  induction rounds generalizing s pend with
  | zero =>
    cases eq_nil_of_length_eq_zero (Nat.le_zero.mp hen)
    cases ran
    exact ⟨inv, by simp⟩
  | succ rounds ih =>
    cases pend with
    | nil =>
      cases ran
      exact ⟨inv, by simp⟩
    | cons =>
      simp only [Registry.resolve, bind_eq_ok, bailIf_eq_ok] at ran
      obtain ⟨⟨_, unresolved⟩, round, _, prg, hl⟩ := ran
      have sublist := resolveRound_sublist round
      have shorter : unresolved.length ≤ rounds := by
        have hb := sublist.length_le
        simp only [beq_eq_false_iff_ne, ne_eq, length_cons] at prg hb hen
        omega
      obtain ⟨kept, hres⟩ := inv.round hcar round
      obtain ⟨final, oths⟩ := ih kept (fun hrt hm => hcar hrt (sublist.subset hm)) shorter hl
      exact ⟨final, fun hrt hm => (hres hrt hm).elim (oths hrt) id⟩

/-! ## The store -/

end Chains

end Ostadix.Registry
