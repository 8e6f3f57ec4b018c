import Ostadix.Fabric.Transition

/-! # Execution is granted at most once

An entry is *consumed* once its state lies past `validated`. No operation removes an entry,
changes its binding or takes a consumed entry back, and `open` abandons whatever the previous
incarnation left incomplete. So a granted attempt, or an attempt left incomplete, stays barred
for the rest of the run: only a `validated` entry is granted, and a readable snapshot never
holds two entries with one issuer-scoped nonce or attempt. -/

namespace Ostadix.Fabric

open Ostadix.Lib Ostadix.CanonicalCbor

/-! ## Effects -/

/-- What one operation can do to the root. -/
inductive Effect (host : FabricHost) (root : LedgerRootV1) : LedgerRootV1 → Prop
  | untouched {ledger : Option FabricAttemptLedgerV1}
      (live : root.ledger = none → ledger = none) : Effect host root ⟨root.snapshot, ledger⟩
  | rewritten {body next : FabricLedgerBodyV1} {snapshot : Option Bytes}
      {ledger : FabricAttemptLedgerV1} (live : root.ledger ≠ none)
      (before : Reads host root.snapshot body) (advances : Advances body next)
      (after : Reads host snapshot next) : Effect host root ⟨snapshot, some ledger⟩
  | created {snapshot : Option Bytes} {ledger : Option FabricAttemptLedgerV1}
      (absent : root.snapshot = none) : Effect host root ⟨snapshot, ledger⟩
  | reopened {body next : FabricLedgerBodyV1} {snapshot : Option Bytes}
      {ledger : Option FabricAttemptLedgerV1} (before : Reads host root.snapshot body)
      (recovered : nextIncarnation body = .ok next) (after : Reads host snapshot next) :
      Effect host root ⟨snapshot, ledger⟩

variable {host : FabricHost}

theorem Transition.effect {root next : LedgerRootV1} {ok : Bool}
    (tr : Transition host root next ok) : Effect host root next := by
  cases tr with
  | same => exact .untouched id
  | closed => exact .untouched fun _ => rfl
  | poisoned live => exact .untouched fun closed => by rw [closed] at live; cases live
  | ambiguous live s edit t | rewritten live s edit t => exact .rewritten (by simp [live]) s edit.advances t
  | opened closed hrec t | unopened closed hrec t =>
    cases hrec with
    | first hab => exact .created hab
    | next s hrcv => exact .reopened s hrcv t

/-! ## Grants -/

variable {binding : FabricAttemptBindingV1} {body : FabricLedgerBodyV1}

theorem operate_grant {io : LedgerIoV1} {root : LedgerRootV1} {led : FabricAttemptLedgerV1}
    {op : LedgerOperationV1} (hgr : (root.operate host io led op).2.mayExecute = some binding) :
    ∃ hreq hacc, op = .consumeAndAccept hreq ∧
      (root.withMutation host io led (consumeAndAccept hreq)).2 = .ok hacc ∧
      hacc.mayExecute = true ∧ hacc.entry.binding = binding := by
  cases op with
  | consumeAndAccept hreq =>
    simp only [LedgerRootV1.operate, Prod.map_snd] at hgr
    cases r : (root.withMutation host io led (consumeAndAccept hreq)).2 with
    | error => rw [r] at hgr; cases hgr
    | ok hacc =>
      rw [r, LedgerOutputV1.mayExecute] at hgr
      split at hgr
      · rename_i may
        exact ⟨hreq, hacc, rfl, r, may, Option.some.inj hgr⟩
      · cases hgr
  | recordTerminalCandidate | recordRejected | recordPreacceptRejected =>
    simp only [LedgerRootV1.operate] at hgr
    split at hgr <;> cases hgr
  | _ => cases hgr

/-- A grant consumes a validated entry of the stored body, durably. -/
theorem step_grant {root : LedgerRootV1} {ev : LedgerOperationV1 × LedgerIoV1}
    (hgr : (root.step host ev).2.mayExecute = some binding) :
    root.ledger ≠ none ∧
    ∃ bd next, Reads host root.snapshot bd ∧ Reads host (root.step host ev).1.snapshot next ∧
      (∃ old ∈ bd.entries, old.binding = binding ∧ old.state = .validated) ∧
      ∃ e ∈ next.entries, e.binding = binding ∧ e.state = .accepted := by
  obtain ⟨op, io⟩ := ev
  cases s : root.ledger with
  | none =>
    obtain hop | hrf := step_closed host s op io
    · rw [hop] at hgr
      cases hgr
    · rw [hrf] at hgr
      cases hgr
  | some led =>
    refine ⟨Option.some_ne_none led, ?_⟩
    rw [step_live s] at hgr ⊢
    obtain ⟨_, hacc, rfl, ha, may, rfl⟩ := operate_grant hgr
    obtain ⟨bd, s1, hun | ⟨next, hch, t⟩⟩ := withMutation_ok ha
    · rw [consumeAndAccept_unchanged hun] at may
      cases may
    · obtain ⟨i, kept, validated, hcs, rfl⟩ := consumeAndAccept_changed hch
      refine ⟨bd, _, s1, t, ⟨_, List.get_mem bd.entries i, kept, validated⟩, ?_⟩
      exact ⟨hacc.entry, List.mem_set i.isLt hacc.entry, rfl, hcs⟩

/-! ## Barred attempts -/

/-- The stored body holds the attempt, consumed, or about to be abandoned by the next `open`. -/
def Barred (host : FabricHost) (root : LedgerRootV1) (binding : FabricAttemptBindingV1) : Prop :=
  ∃ body, Reads host root.snapshot body ∧ ∃ entry ∈ body.entries, entry.binding = binding ∧
    (entry.state.isConsumed = true ∨ root.ledger = none)

/-- Two attempts the replay indexes keep apart: one issuer, and one nonce or one attempt. -/
def Replays (binding later : FabricAttemptBindingV1) : Prop :=
  SameNonce binding later ∨ SameAttempt binding later

theorem Effect.keeps_barred {root next : LedgerRootV1} (effect : Effect host root next)
    (barred : Barred host root binding) : Barred host next binding := by
  obtain ⟨bd, reads, old, hm, rfl, spent⟩ := barred
  cases effect with
  | untouched live =>
    refine ⟨bd, reads, old, hm, rfl, ?_⟩
    obtain hcs | hcl := spent
    · exact .inl hcs
    · exact .inr (live hcl)
  | rewritten live s advances t =>
    cases reads.unique s
    obtain ⟨e, hst, kept, hcs⟩ := advances old hm
    refine ⟨_, t, e, hst, kept, .inl ?_⟩
    obtain spent | hcl := spent
    · exact hcs spent
    · exact absurd hcl live
  | created hab =>
    obtain ⟨_, _, hp, _⟩ := reads
    rw [hab] at hp
    cases hp
  | reopened s hrcv t =>
    cases reads.unique s
    obtain ⟨e, hst, kept, hcs⟩ := nextIncarnation_eq_ok hrcv hm
    exact ⟨_, t, e, hst, kept, .inl hcs⟩

theorem validateReplayIndexes_eq_ok {es : List FabricLedgerEntryV1}
    (hv : validateReplayIndexes es = .ok ()) :
    es.Pairwise fun left right => ¬ Replays left.binding right.binding := by
  induction es with
  | nil => exact .nil
  | cons left es ih =>
    simp only [validateReplayIndexes, bind_eq_ok] at hv
    obtain ⟨_, indexes, tl⟩ := hv
    refine .cons ?_ (ih tl)
    intro right hm
    have apart := forM_eq_ok.mp indexes right hm
    simp only [bind_eq_ok, bailIf_eq_ok] at apart
    obtain ⟨_, nonce, att⟩ := apart
    simp only [Bool.and_eq_false_iff, beq_eq_false_iff_ne] at nonce att
    rintro (⟨issuer, he⟩ | ⟨issuer, he⟩)
    · exact nonce.elim (absurd issuer) (absurd he)
    · exact att.elim (absurd issuer) (absurd he)

theorem readSnapshot_validateBody {bs : Bytes} {dg : Sha256DigestV1}
    (read : readSnapshot host bs = .ok (body, dg)) : validateBody host body = .ok () := by
  simp only [readSnapshot, bind_eq_ok, FabricLedgerSnapshotV1.validate] at read
  obtain ⟨_, _, _, _, _, _, _, ⟨_, _, _, hv, _⟩, _, _, ⟨⟩⟩ := read
  exact hv

/-- Two entries of a valid body that replay one another are the same entry. -/
theorem eq_of_replays (hv : validateBody host body = .ok ()) {left right : FabricLedgerEntryV1}
    (leftMember : left ∈ body.entries) (rightMember : right ∈ body.entries)
    (replays : Replays left.binding right.binding) : left = right := by
  simp only [validateBody, bind_eq_ok] at hv
  obtain ⟨_, _, _, _, _, _, indexes⟩ := hv
  have : Std.Symm fun left right : FabricLedgerEntryV1 =>
      ¬ Replays left.binding right.binding := by
    constructor
    rintro left right apart (⟨issuer, he⟩ | ⟨issuer, he⟩)
    · exact apart (.inl ⟨issuer.symm, he.symm⟩)
    · exact apart (.inr ⟨issuer.symm, he.symm⟩)
  by_contra hne
  exact (validateReplayIndexes_eq_ok indexes).forall leftMember rightMember hne replays

theorem Reads.validateBody {snap : Option Bytes} (reads : Reads host snap body) :
    Fabric.validateBody host body = .ok () := by
  obtain ⟨_, _, _, read⟩ := reads
  exact readSnapshot_validateBody read

/-- A barred attempt bars its issuer-scoped nonce and its issuer-scoped attempt. -/
theorem bars (host : FabricHost) :
    Machine.Bars (LedgerRootV1.step host) LedgerOutputV1.mayExecute (Barred host) Replays where
  keeps ev barred := (step_transition host _ ev).effect.keeps_barred barred
  holdsAfterGrant granted := by
    obtain ⟨_, _, next, _, t, _, entry, hst, kept, ha⟩ := step_grant granted
    exact ⟨next, t, entry, hst, kept, .inl (by rw [ha]; rfl)⟩
  excludes barred granted replays := by
    obtain ⟨_, reads, entry, hst, rfl, spent⟩ := barred
    obtain ⟨live, _, _, s, _, ⟨_, hm, rfl, validated⟩, _⟩ := step_grant granted
    cases reads.unique s
    -- the granted entry is the barred one, and it is consumed and validated at once
    cases eq_of_replays reads.validateBody hst hm replays
    obtain consumed | hcl := spent
    · rw [validated] at consumed
      cases consumed
    · exact live hcl

/-! ## Whole runs -/

/-- The root after the operations `events`. -/
def LedgerRootV1.run (host : FabricHost) (root : LedgerRootV1)
    (events : List (LedgerOperationV1 × LedgerIoV1)) : LedgerRootV1 :=
  Machine.runState (LedgerRootV1.step host) root events

/-- The bindings for which `may_execute = true` is returned along `events`, in order. -/
def LedgerRootV1.grants (host : FabricHost) (root : LedgerRootV1)
    (events : List (LedgerOperationV1 × LedgerIoV1)) : List FabricAttemptBindingV1 :=
  Machine.grants (LedgerRootV1.step host) LedgerOutputV1.mayExecute root events

/-- Along every run, over any number of reopenings, at most one grant is given per issuer and
nonce and per issuer and attempt, and none for an attempt that a ledger left incomplete in the
snapshot file when it went away. -/
theorem execution_granted_at_most_once (host : FabricHost) (snapshot : Option Bytes)
    (before after : List (LedgerOperationV1 × LedgerIoV1)) :
    ((LedgerRootV1.grants host ⟨snapshot, none⟩ (before ++ after)).Pairwise fun binding later =>
      ¬ SameNonce binding later ∧ ¬ SameAttempt binding later) ∧
    ∀ body, (LedgerRootV1.run host ⟨snapshot, none⟩ before).ledger = none →
      Reads host (LedgerRootV1.run host ⟨snapshot, none⟩ before).snapshot body →
      ∀ entry ∈ body.entries, entry.state.isIncomplete = true →
      ∀ binding ∈ LedgerRootV1.grants host (LedgerRootV1.run host ⟨snapshot, none⟩ before) after,
        ¬ SameNonce entry.binding binding ∧ ¬ SameAttempt entry.binding binding := by
  constructor
  · refine ((bars host).pairwise_grants ⟨snapshot, none⟩ (before ++ after)).imp ?_
    intro binding later apart
    exact not_or.mp apart
  · intro body closed reads entry stored _ binding granted
    have barred : Barred host _ entry.binding := ⟨body, reads, entry, stored, rfl, .inr closed⟩
    exact not_or.mp ((bars host).not_granted barred granted)

/-- A file system on which nothing fails. -/
def quietIo : LedgerIoV1 :=
  ⟨.ok (), .ok (), .published, .ok ()⟩

/-- The attempt of `sampleBody` was left in state `received`: after a reopening it is not
granted any more. -/
theorem sample_attempt_stays_barred :
    ∀ binding ∈ LedgerRootV1.grants sampleHost ⟨some (encodeValue (toValue
      (⟨fabricLedgerSnapshotSchemaV1, sampleBody, sampleDigest⟩ : FabricLedgerSnapshotV1))), none⟩
        [(.open, quietIo), (.recordValidated sampleBinding, quietIo),
          (.consumeAndAccept sampleBinding, quietIo)],
      ¬ SameNonce sampleBinding binding ∧ ¬ SameAttempt sampleBinding binding :=
  (execution_granted_at_most_once sampleHost _ [] _).2 sampleBody rfl
    ⟨_, _, rfl, readSnapshot_persistedBytes persistedBytes_sampleBody⟩
    (.new sampleBinding .received) List.mem_cons_self rfl

end Ostadix.Fabric
