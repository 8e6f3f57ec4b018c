import Ostadix.Fabric.Replay

/-! # Histories of a ledger

A complete entry is never edited and never recovered, so it stays as it is for ever. An incomplete
one is of the current incarnation: insertion asks for it, and an `open`, which starts a new
incarnation, leaves no entry incomplete. An operation that fails may still have replaced the
snapshot file, but then it poisons the ledger, whose memory it leaves alone. -/

namespace Ostadix.Fabric

open Ostadix.Lib Ostadix.CanonicalCbor

/-! ## Bodies -/

/-- Every incomplete attempt is one of the current incarnation. -/
def FabricLedgerBodyV1.Current (body : FabricLedgerBodyV1) : Prop :=
  ∀ entry ∈ body.entries, entry.state.isIncomplete = true →
    entry.binding.executionCellIncarnation = body.executionCellIncarnation

variable {body next : FabricLedgerBodyV1} {entry : FabricLedgerEntryV1}

theorem Edit.mem_of_complete (edit : Edit body next) (hcpl : entry.state.isIncomplete = false)
    (hm : entry ∈ body.entries) : entry ∈ next.entries := by
  cases edit with
  | set i hinc =>
    apply mem_setEntry_of_ne _ hm
    intro he
    rw [← he, hcpl] at hinc
    cases hinc
  | insert current ms => exact ms.mpr (.inl hm)

theorem Edit.current (edit : Edit body next) (s : body.Current) : next.Current := by
  intro e hm hinc
  cases edit with
  | set i wasIncomplete hcont =>
    obtain old | new := List.mem_or_eq_of_mem_set hm
    · exact s e old hinc
    · rw [new, hcont.1]
      exact s _ (List.get_mem body.entries i) wasIncomplete
  | insert current ms =>
    obtain old | new := ms.mp hm
    · exact s e old hinc
    · rw [new]
      exact current

theorem abandonIncomplete_complete {old e : FabricLedgerEntryV1}
    (hrcv : abandonIncomplete old = .ok e) : e.state.isIncomplete = false := by
  rw [abandonIncomplete] at hrcv
  split at hrcv
  · rw [(setReason_eq_ok hrcv).2]
    rfl
  · rename_i hcpl
    cases hrcv
    simpa using hcpl

theorem Recovers.current {host : FabricHost} {snap : Option Bytes} {next : FabricLedgerBodyV1}
    (hrec : Recovers host snap next) : next.Current := by
  intro e hm hinc
  cases hrec with
  | first => cases hm
  | next s hrcv =>
    simp only [nextIncarnation, bind_eq_ok] at hrcv
    obtain ⟨_, _, _, _, _, hrcv, ⟨⟩⟩ := hrcv
    obtain ⟨_, _, abandoned⟩ := mem_of_mapM_eq_ok hrcv hm
    rw [abandonIncomplete_complete abandoned] at hinc
    cases hinc

theorem nextIncarnation_mem_of_complete (hrcv : nextIncarnation body = .ok next)
    (hcpl : entry.state.isIncomplete = false) (hm : entry ∈ body.entries) :
    entry ∈ next.entries := by
  simp only [nextIncarnation, bind_eq_ok] at hrcv
  obtain ⟨_, _, _, _, _, hrcv, ⟨⟩⟩ := hrcv
  obtain ⟨_, abandoned, hst⟩ := mapM_eq_ok_of_mem hrcv hm
  rw [abandonIncomplete, hcpl] at abandoned
  cases abandoned
  exact hst

/-! ## Roots -/

/-- The snapshot file holds `entry`, and no other entry for its attempt. -/
def LedgerRootV1.Stores (host : FabricHost) (root : LedgerRootV1) (entry : FabricLedgerEntryV1) :
    Prop :=
  ∃ body, Reads host root.snapshot body ∧ entry ∈ body.entries ∧
    ∀ other ∈ body.entries, other.binding = entry.binding → other = entry

/-- The live ledger, if there is one, has `entry` in memory. -/
def LedgerRootV1.Holds (root : LedgerRootV1) (entry : FabricLedgerEntryV1) : Prop :=
  ∀ ledger, root.ledger = some ledger → entry ∈ ledger.memory.body.entries

/-- What the memory of a live ledger owes to the snapshot file: only a poisoned ledger can have
missed the last edit. -/
structure Consistent (host : FabricHost) (root : LedgerRootV1) (ledger : FabricAttemptLedgerV1) :
    Prop where
  current : ledger.memory.body.Current
  stored : Reads host root.snapshot ledger.memory.body ∨
    ledger.poisoned = true ∧ ∃ body, Reads host root.snapshot body ∧ Edit ledger.memory.body body

section Root

variable {host : FabricHost} {root next : LedgerRootV1} {e : FabricLedgerEntryV1} {ok : Bool}

theorem Reads.stores {bd : FabricLedgerBodyV1} (reads : Reads host root.snapshot bd)
    (hm : e ∈ bd.entries) : root.Stores host e := by
  refine ⟨bd, reads, hm, ?_⟩
  intro o hst he
  exact eq_of_replays reads.validateBody hst hm (.inl ⟨by rw [he], by rw [he]⟩)

theorem Consistent.stores {led : FabricAttemptLedgerV1}
    (hcon : Consistent host root led) (hcpl : e.state.isIncomplete = false)
    (hm : e ∈ led.memory.body.entries) : root.Stores host e := by
  obtain reads | ⟨_, body, reads, edit⟩ := hcon.stored
  · exact reads.stores hm
  · exact reads.stores (edit.mem_of_complete hcpl hm)

theorem Transition.consistent (tr : Transition host root next ok)
    (s : ∀ led, root.ledger = some led → Consistent host root led) :
    ∀ led, next.ledger = some led → Consistent host next led := by
  intro led live
  cases tr with
  | same => exact s led live
  | closed => cases live
  | poisoned wasLive =>
    cases live
    obtain ⟨current, hst⟩ := s _ wasLive
    exact ⟨current, hst.imp_right fun missed => ⟨rfl, missed.2⟩⟩
  | ambiguous wasLive reads edit t =>
    cases live
    exact ⟨(s _ wasLive).current, .inr ⟨rfl, _, t, edit⟩⟩
  | rewritten wasLive reads edit t =>
    cases live
    exact ⟨edit.current (s _ wasLive).current, .inl t⟩
  | opened hab hrec t =>
    cases live
    exact ⟨hrec.current, .inl t⟩
  | unopened => cases live

theorem Transition.fileCurrent (tr : Transition host root next ok)
    (s : ∀ bd, Reads host root.snapshot bd → bd.Current) :
    ∀ bd, Reads host next.snapshot bd → bd.Current := by
  intro bd reads
  cases tr with
  | same | closed | poisoned => exact s bd reads
  | ambiguous _ hst edit t | rewritten _ hst edit t =>
    cases reads.unique t
    exact edit.current (s _ hst)
  | opened _ hrec t | unopened _ hrec t =>
    cases reads.unique t
    exact hrec.current

/-- A complete entry of the snapshot file is there after the operation, and in the memory of a
ledger that had it there or was opened. -/
theorem Transition.stores (tr : Transition host root next ok)
    (hcpl : e.state.isIncomplete = false) (hst : root.Stores host e) :
    next.Stores host e ∧ (root.Holds e → next.Holds e) := by
  obtain ⟨bd, reads, hm, unique⟩ := hst
  have hrcv {hrcv : FabricLedgerBodyV1}
      (hrec : Recovers host root.snapshot hrcv) : e ∈ hrcv.entries := by
    cases hrec with
    | first hab =>
      obtain ⟨_, _, hp, _⟩ := reads
      rw [hab] at hp
      cases hp
    | next s hrcv =>
      cases reads.unique s
      exact nextIncarnation_mem_of_complete hrcv hcpl hm
  cases tr with
  | same => exact ⟨⟨bd, reads, hm, unique⟩, id⟩
  | closed => exact ⟨⟨bd, reads, hm, unique⟩, fun _ led live => by cases live⟩
  | @poisoned old wasLive =>
    refine ⟨⟨bd, reads, hm, unique⟩, fun hh led live => ?_⟩
    cases live
    exact hh old wasLive
  | @ambiguous old _ _ wasLive s edit t =>
    cases reads.unique s
    refine ⟨t.stores (edit.mem_of_complete hcpl hm), fun hh led live => ?_⟩
    cases live
    exact hh old wasLive
  | rewritten wasLive s edit t =>
    cases reads.unique s
    have kept := edit.mem_of_complete hcpl hm
    refine ⟨t.stores kept, fun _ led live => ?_⟩
    cases live
    exact kept
  | opened hab hrec t =>
    refine ⟨t.stores (hrcv hrec), fun _ led live => ?_⟩
    cases live
    exact hrcv hrec
  | unopened hab hrec t =>
    exact ⟨t.stores (hrcv hrec), fun _ led live => by cases live⟩

/-- A failed operation leaves the body in memory, and the file unless the ledger is poisoned. -/
theorem Transition.failed (tr : Transition host root next false)
    {led : FabricAttemptLedgerV1} (live : root.ledger = some led) :
    ∃ t, next.ledger = some t ∧ t.memory = led.memory ∧
      (next.snapshot = root.snapshot ∨ t.poisoned = true) := by
  cases tr with
  | same => exact ⟨led, live, rfl, .inl rfl⟩
  | poisoned wasLive =>
    cases live.symm.trans wasLive
    exact ⟨_, rfl, rfl, .inl rfl⟩
  | ambiguous wasLive =>
    cases live.symm.trans wasLive
    exact ⟨_, rfl, rfl, .inr rfl⟩
  | unopened hab =>
    rw [hab] at live
    cases live

end Root

/-! ## Whole runs -/

theorem run_consistent (host : FabricHost) (snap : Option Bytes)
    (evs : List (LedgerOperationV1 × LedgerIoV1)) :
    ∀ led, (LedgerRootV1.run host ⟨snap, none⟩ evs).ledger = some led →
      Consistent host (LedgerRootV1.run host ⟨snap, none⟩ evs) led := by
  have hkp (root : LedgerRootV1)
      (s : ∀ led, root.ledger = some led → Consistent host root led) :
      ∀ led, (root.run host evs).ledger = some led →
        Consistent host (root.run host evs) led := by
    induction evs generalizing root with
    | nil => exact s
    | cons ev evs ih => exact ih _ ((step_transition host root ev).consistent s)
  exact hkp ⟨snap, none⟩ fun led live => by cases live

theorem run_fileCurrent {host : FabricHost} {root : LedgerRootV1}
    (s : ∀ bd, Reads host root.snapshot bd → bd.Current)
    (evs : List (LedgerOperationV1 × LedgerIoV1)) :
    ∀ bd, Reads host (root.run host evs).snapshot bd → bd.Current := by
  induction evs generalizing root with
  | nil => exact s
  | cons ev evs ih => exact ih ((step_transition host root ev).fileCurrent s)

theorem run_stores (host : FabricHost) (hcpl : entry.state.isIncomplete = false)
    (evs : List (LedgerOperationV1 × LedgerIoV1)) {root : LedgerRootV1}
    (hst : root.Stores host entry) :
    (root.run host evs).Stores host entry ∧
      (root.Holds entry → (root.run host evs).Holds entry) := by
  induction evs generalizing root with
  | nil => exact ⟨hst, id⟩
  | cons ev evs ih =>
    obtain ⟨kept, held⟩ := (step_transition host root ev).stores hcpl hst
    obtain ⟨keptOn, heldOn⟩ := ih kept
    exact ⟨keptOn, fun hh => heldOn (held hh)⟩

/-- Along every run, over any number of reopenings: a complete entry of the snapshot file stays the
only entry of its attempt there, and one in the memory of the ledger stays in the file and in the
memory of every later ledger; an operation that fails leaves the body in memory as it was, and the
file too unless it poisons the ledger; an incomplete entry is of the current incarnation, and the
memory of a ledger that is not poisoned is the content of the file. -/
theorem ledger_history (host : FabricHost) (snapshot : Option Bytes)
    (events later : List (LedgerOperationV1 × LedgerIoV1)) :
    let root := LedgerRootV1.run host ⟨snapshot, none⟩ events
    (∀ entry, entry.state.isIncomplete = false → root.Stores host entry →
      (root.run host later).Stores host entry) ∧
    (∀ entry ledger, entry.state.isIncomplete = false → root.ledger = some ledger →
      entry ∈ ledger.memory.body.entries →
      (root.run host later).Stores host entry ∧ (root.run host later).Holds entry) ∧
    (∀ event ledger, (root.step host event).2.isOk = false → root.ledger = some ledger →
      ∃ after, (root.step host event).1.ledger = some after ∧ after.memory = ledger.memory ∧
        ((root.step host event).1.snapshot = root.snapshot ∨ after.poisoned = true)) ∧
    (∀ ledger, root.ledger = some ledger → ledger.memory.body.Current ∧
      (ledger.poisoned = false → Reads host root.snapshot ledger.memory.body)) ∧
    ((∀ body, Reads host snapshot body → body.Current) →
      ∀ body, Reads host root.snapshot body → body.Current) := by
  intro root
  have consistent := run_consistent host snapshot events
  refine ⟨fun entry complete stored => (run_stores host complete later stored).1, ?_, ?_, ?_,
    fun before => run_fileCurrent before events⟩
  · intro entry ledger complete live member
    obtain ⟨kept, held⟩ := run_stores host complete later
      ((consistent ledger live).stores complete member)
    refine ⟨kept, held ?_⟩
    intro other same
    cases live.symm.trans same
    exact member
  · intro event ledger failed live
    have transition := step_transition host root event
    rw [failed] at transition
    exact transition.failed live
  · intro ledger live
    obtain ⟨current, stored⟩ := consistent ledger live
    refine ⟨current, fun healthy => stored.resolve_right ?_⟩
    rintro ⟨poisoned, _⟩
    rw [healthy] at poisoned
    cases poisoned

/-- A body with one rejected attempt. -/
def rejectedBody : FabricLedgerBodyV1 :=
  ⟨⟨1, first_nonzero⟩, [{ FabricLedgerEntryV1.new sampleBinding .rejected with
    reasonCode := some "lease-expired", reasonMessage := some "lease expired" }]⟩

/-- The rejected attempt is still there, with its reason, after a reopening and an attempt to mark
it running. -/
theorem rejected_attempt_stays :
    ∀ entry ∈ rejectedBody.entries,
      (LedgerRootV1.run sampleHost ⟨some (encodeValue (toValue
        (⟨fabricLedgerSnapshotSchemaV1, rejectedBody, sampleDigest⟩ : FabricLedgerSnapshotV1))), none⟩
        [(.open, quietIo), (.markRunning sampleBinding, quietIo)]).Stores sampleHost entry := by
  intro entry member
  have complete : entry.state.isIncomplete = false := by
    cases List.mem_singleton.mp member
    rfl
  have persisted := @persistedBytes_short rejectedBody rfl (by decide +kernel)
  have reads : Reads sampleHost _ rejectedBody :=
    ⟨_, _, rfl, readSnapshot_persistedBytes persisted⟩
  exact (ledger_history sampleHost _ [] _).1 entry complete (Reads.stores reads member)

end Ostadix.Fabric
