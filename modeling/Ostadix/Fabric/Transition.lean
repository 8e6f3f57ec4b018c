import Ostadix.Fabric.Ledger

/-! # What an operation does to a ledger root

A mutation sets one incomplete entry or inserts an entry of the current incarnation (`Edit`). An
operation publishes such a change, opens or closes a ledger, or poisons it (`Transition`). What
holds along runs follows from these cases, never from the operations themselves. -/

namespace Ostadix.Fabric

open Ostadix.Lib Ostadix.CanonicalCbor

/-! ## Consumed entries -/

def FabricLedgerStateV1.isConsumed : FabricLedgerStateV1 → Bool
  | received | validated => false
  | accepted | running | terminalCandidate | rejected | abandoned => true

variable {host : FabricHost} {s : FabricLedgerStateV1} {body : FabricLedgerBodyV1}
  {snap : Option Bytes}

theorem FabricLedgerStateV1.isConsumed_of_complete (hcpl : s.isIncomplete = false) :
    s.isConsumed = true := by
  cases s <;> first | rfl | cases hcpl

/-- `entry` continues `old`: the same attempt, and consumed if `old` was. -/
def Continues (old entry : FabricLedgerEntryV1) : Prop :=
  entry.binding = old.binding ∧ (old.state.isConsumed = true → entry.state.isConsumed = true)

theorem Continues.refl (e : FabricLedgerEntryV1) : Continues e e :=
  ⟨rfl, id⟩

def Advances (body next : FabricLedgerBodyV1) : Prop :=
  ∀ old ∈ body.entries, ∃ entry ∈ next.entries, Continues old entry

/-! ## Entry updates -/

theorem setState_eq_ok {e next : FabricLedgerEntryV1} (set : e.setState s = .ok next) :
    next.binding = e.binding ∧ next.state = s := by
  simp only [FabricLedgerEntryV1.setState, bind_eq_ok] at set
  obtain ⟨_, _, ⟨⟩⟩ := set
  exact ⟨rfl, rfl⟩

theorem setReason_eq_ok {e next : FabricLedgerEntryV1} {reasonCode msg : String}
    (set : e.setReason s reasonCode msg = .ok next) :
    next.binding = e.binding ∧ next.state = s := by
  simp only [FabricLedgerEntryV1.setReason, bind_eq_ok] at set
  obtain ⟨_, _, _, moved, hret⟩ := set
  obtain ⟨bnd, hre⟩ := setState_eq_ok moved
  cases hret
  exact ⟨bnd, hre⟩

theorem setTerminal_eq_ok {e next : FabricLedgerEntryV1} {trm : FabricStoredTerminalV1}
    (set : e.setTerminal trm = .ok next) :
    next.binding = e.binding ∧ next.state = .terminalCandidate := by
  simp only [FabricLedgerEntryV1.setTerminal, bind_eq_ok] at set
  obtain ⟨_, moved, hret⟩ := set
  obtain ⟨bnd, hre⟩ := setState_eq_ok moved
  cases hret
  exact ⟨bnd, hre⟩

variable {body next : FabricLedgerBodyV1} {io : LedgerIoV1} {root : LedgerRootV1}
  {old e : FabricLedgerEntryV1} {bnd : FabricAttemptBindingV1}
  {acceptance : FabricLedgerAcceptanceV1}

theorem continues_of_consumed (hcs : s.isConsumed = true)
    (set : e.binding = old.binding ∧ e.state = s) : Continues old e :=
  ⟨set.1, fun _ => by rw [set.2]; exact hcs⟩

/-! ## Body updates -/

theorem mem_setEntry_of_ne {i : Fin body.entries.length} {old : FabricLedgerEntryV1}
    (e : FabricLedgerEntryV1) (hm : old ∈ body.entries)
    (o : old ≠ body.entries.get i) : old ∈ (body.setEntry i e).entries := by
  obtain ⟨pos, hloc⟩ := List.get_of_mem hm
  have apart : i.val ≠ pos.val := by
    intro he
    rw [Fin.ext he] at o
    exact o hloc.symm
  rw [FabricLedgerBodyV1.setEntry, List.mem_iff_getElem]
  refine ⟨pos, by simp, ?_⟩
  rw [List.getElem_set_ne apart]
  exact hloc

/-- What a mutation can make of a body. -/
inductive Edit (body : FabricLedgerBodyV1) : FabricLedgerBodyV1 → Prop
  | set (index : Fin body.entries.length) {entry : FabricLedgerEntryV1}
      (incomplete : (body.entries.get index).state.isIncomplete = true)
      (continues : Continues (body.entries.get index) entry) : Edit body (body.setEntry index entry)
  | insert {entry : FabricLedgerEntryV1} {entries : List FabricLedgerEntryV1}
      (current : entry.binding.executionCellIncarnation = body.executionCellIncarnation)
      (members : ∀ {other}, other ∈ entries ↔ other ∈ body.entries ∨ other = entry) :
      Edit body ⟨body.executionCellIncarnation, entries⟩

theorem insertEntry_edit {e : FabricLedgerEntryV1}
    (inserted : body.insertEntry e = .ok next) : Edit body next := by
  simp only [FabricLedgerBodyV1.insertEntry, requireCurrentIncarnation, bind_eq_ok, bailIf_eq_ok,
    bne_eq_false_iff_eq] at inserted
  obtain ⟨_, current, _, _, ⟨⟩⟩ := inserted
  exact .insert current fun {o} => by simp

theorem Edit.advances (edit : Edit body next) : Advances body next := by
  intro old hm
  cases edit with
  | set i hinc hcont =>
    by_cases he : old = body.entries.get i
    · subst he
      exact ⟨_, List.mem_set i.isLt _, hcont⟩
    · exact ⟨old, mem_setEntry_of_ne _ hm he, .refl old⟩
  | insert current ms => exact ⟨old, ms.mpr (.inl hm), .refl old⟩

/-! ## Mutations -/

/-- Whatever body a mutation produces is an edit of the one it got. -/
def Edits {α : Type} (mutation : FabricLedgerBodyV1 → Result (MutationV1 α)) : Prop :=
  ∀ {body next value}, mutation body = .ok (.changed next value) → Edit body next

theorem insertApplied_edits (e : FabricLedgerEntryV1) : Edits fun bd => insertApplied bd e := by
  intro bd next value hap
  simp only [insertApplied, bind_eq_ok] at hap
  obtain ⟨_, inserted, ⟨⟩⟩ := hap
  exact insertEntry_edit inserted

theorem writeBinding_edits (bnd : FabricAttemptBindingV1) (s : FabricLedgerStateV1) :
    Edits (writeBinding bnd s) := by
  intro bd next v hch
  rw [writeBinding] at hch
  cases hf : locateBinding bd.entries bnd with
  | exact | conflict => rw [hf] at hch; cases hch
  | unknown => rw [hf] at hch; exact insertApplied_edits _ hch

theorem transitionExact_edits (bnd : FabricAttemptBindingV1)
    {tr : FabricLedgerEntryV1 → Result (Option FabricLedgerEntryV1)}
    (moves : ∀ {old e}, tr old = .ok (some e) → old.state.isIncomplete = true ∧ Continues old e) :
    Edits (transitionExact bnd tr) := by
  intro bd next v hch
  rw [transitionExact] at hch
  cases hf : locateBinding bd.entries bnd with
  | conflict | unknown => rw [hf] at hch; cases hch
  | exact i =>
    simp only [hf, bind_eq_ok] at hch
    obtain ⟨moved, transitioned, hret⟩ := hch
    cases moved with
    | none => cases hret
    | some =>
      cases hret
      obtain ⟨hinc, hcont⟩ := moves transitioned
      exact .set i hinc hcont

theorem recordValidated_edits (bnd : FabricAttemptBindingV1) : Edits (recordValidated bnd) := by
  refine transitionExact_edits bnd ?_
  intro old e moved
  cases s : old.state <;> simp only [s, reduceCtorEq, Except.ok.injEq] at moved
  -- only a received entry moves, and it was not consumed before
  rw [bind_eq_ok] at moved
  obtain ⟨_, set, ⟨⟩⟩ := moved
  refine ⟨rfl, (setState_eq_ok set).1, ?_⟩
  intro consumed
  rw [s] at consumed
  cases consumed

theorem markRunning_edits (bnd : FabricAttemptBindingV1) : Edits (markRunning bnd) := by
  refine transitionExact_edits bnd ?_
  intro old e moved
  cases s : old.state <;> simp only [s, reduceCtorEq, Except.ok.injEq] at moved
  rw [bind_eq_ok] at moved
  obtain ⟨_, set, ⟨⟩⟩ := moved
  exact ⟨rfl, continues_of_consumed rfl (setState_eq_ok set)⟩

theorem recordTerminal_edits (bnd : FabricAttemptBindingV1)
    (trm : FabricStoredTerminalV1) : Edits (recordTerminal bnd trm) := by
  refine transitionExact_edits bnd ?_
  intro old e moved
  cases s : old.state <;> simp only [s, reduceCtorEq, bind_eq_ok] at moved
  · obtain ⟨_, set, ⟨⟩⟩ := moved
    exact ⟨rfl, continues_of_consumed rfl (setTerminal_eq_ok set)⟩
  · obtain ⟨_, _, ⟨⟩⟩ := moved

theorem recordRejected_edits (bnd : FabricAttemptBindingV1) (reasonCode msg : String) :
    Edits (recordReasonTerminal bnd .rejected reasonCode msg) := by
  intro bd next v hch
  rw [recordReasonTerminal] at hch
  cases hf : locateBinding bd.entries bnd with
  | conflict => rw [hf] at hch; cases hch
  | unknown => rw [hf] at hch; exact insertApplied_edits _ hch
  | exact i =>
    simp only [hf] at hch
    split at hch
    · rw [bind_eq_ok] at hch
      obtain ⟨_, _, ⟨⟩⟩ := hch
    · simp only [bind_eq_ok, bailIf_eq_ok, Bool.not_eq_false'] at hch
      obtain ⟨_, hinc, _, set, ⟨⟩⟩ := hch
      exact .set i hinc (continues_of_consumed rfl (setReason_eq_ok set))

theorem recordPreacceptRejected_edits (bnd : FabricAttemptBindingV1)
    (reasonCode msg : String) : Edits (recordPreacceptRejected bnd reasonCode msg) := by
  intro bd next v hch
  rw [recordPreacceptRejected] at hch
  cases hf : locateBinding bd.entries bnd with
  | conflict => rw [hf] at hch; cases hch
  | unknown => rw [hf] at hch; exact insertApplied_edits _ hch
  | exact i =>
    simp only [hf] at hch
    split at hch
    case h_3 => cases hch
    -- a received and a validated entry are rejected alike
    all_goals
      rename_i s
      simp only [bind_eq_ok] at hch
      obtain ⟨_, set, ⟨⟩⟩ := hch
      exact .set i (by rw [s]; rfl) (continues_of_consumed rfl (setReason_eq_ok set))

/-! ## Acceptance -/

/-- An acceptance that changes the body takes a validated entry to `accepted`. -/
theorem consumeAndAccept_changed (hch : consumeAndAccept bnd body = .ok (.changed next acceptance)) :
    ∃ i : Fin body.entries.length, (body.entries.get i).binding = acceptance.entry.binding ∧
      (body.entries.get i).state = .validated ∧
      acceptance.entry.state = .accepted ∧
      next = body.setEntry i acceptance.entry := by
  rw [consumeAndAccept] at hch
  cases hf : locateBinding body.entries bnd with
  | conflict | unknown => rw [hf] at hch; cases hch
  | exact i =>
    simp only [hf] at hch
    split at hch
    · rename_i validated
      simp only [bind_eq_ok] at hch
      obtain ⟨_, _, _, set, ⟨⟩⟩ := hch
      obtain ⟨kept, accepted⟩ := setState_eq_ok set
      exact ⟨i, kept.symm, validated, accepted, rfl⟩
    · cases hch

theorem consumeAndAccept_unchanged (hun : consumeAndAccept bnd body = .ok (.unchanged acceptance)) :
    acceptance.mayExecute = false := by
  rw [consumeAndAccept] at hun
  cases hf : locateBinding body.entries bnd with
  | conflict | unknown => rw [hf] at hun; cases hun
  | exact =>
    simp only [hf] at hun
    split at hun
    · simp only [bind_eq_ok] at hun
      obtain ⟨_, _, _, _, ⟨⟩⟩ := hun
    · cases hun
      rfl

theorem consumeAndAccept_edits (bnd : FabricAttemptBindingV1) : Edits (consumeAndAccept bnd) := by
  intro body next hacc hch
  obtain ⟨i, kept, validated, ha, rfl⟩ := consumeAndAccept_changed hch
  exact .set i (by rw [validated]; rfl) (continues_of_consumed rfl ⟨kept.symm, ha⟩)

/-! ## Recovery -/

theorem abandonIncomplete_eq_ok (hrcv : abandonIncomplete old = .ok e) :
    e.binding = old.binding ∧ e.state.isConsumed = true := by
  rw [abandonIncomplete] at hrcv
  split at hrcv
  · obtain ⟨kept, abandoned⟩ := setReason_eq_ok hrcv
    exact ⟨kept, by rw [abandoned]; rfl⟩
  · rename_i hinc
    cases hrcv
    exact ⟨rfl, FabricLedgerStateV1.isConsumed_of_complete (Bool.eq_false_of_not_eq_true hinc)⟩

/-- After a reopening every stored attempt is consumed. -/
theorem nextIncarnation_eq_ok (reopened : nextIncarnation body = .ok next)
    {old : FabricLedgerEntryV1} (hm : old ∈ body.entries) :
    ∃ e ∈ next.entries, e.binding = old.binding ∧ e.state.isConsumed = true := by
  simp only [nextIncarnation, bind_eq_ok] at reopened
  obtain ⟨_, _, _, _, _, hrcv, ⟨⟩⟩ := reopened
  obtain ⟨e, hrcv, hst⟩ := mapM_eq_ok_of_mem hrcv hm
  obtain ⟨kept, hcs⟩ := abandonIncomplete_eq_ok hrcv
  exact ⟨e, hst, kept, hcs⟩

/-! ## What an operation does to the snapshot file -/

/-- The snapshot file holds a readable snapshot of `body`. -/
def Reads (host : FabricHost) (snapshot : Option Bytes) (body : FabricLedgerBodyV1) : Prop :=
  ∃ bytes digest, snapshot = some bytes ∧ readSnapshot host bytes = .ok (body, digest)

theorem Reads.unique {bd o : FabricLedgerBodyV1} (reads : Reads host snap bd)
    (hag : Reads host snap o) : bd = o := by
  obtain ⟨_, _, rfl, read⟩ := reads
  obtain ⟨_, _, he, readAgain⟩ := hag
  cases he
  rw [read] at readAgain
  cases readAgain
  rfl

theorem reads_of_readSnapshotFile {dg : Sha256DigestV1}
    (read : readSnapshotFile host io snap = .ok (body, dg)) : Reads host snap body := by
  simp only [readSnapshotFile, bind_eq_ok, okOr_eq_ok] at read
  obtain ⟨_, _, bs, hp, read⟩ := read
  exact ⟨bs, dg, hp, read⟩

/-- A publication leaves the old file or a readable snapshot of the new body. -/
theorem persistSnapshot_fst (host : FabricHost) (io : LedgerIoV1) (snap : Option Bytes)
    (bd : FabricLedgerBodyV1) :
    (persistSnapshot host io snap bd).1 = snap ∨
      Reads host (persistSnapshot host io snap bd).1 bd := by
  rw [persistSnapshot]
  split
  · exact .inl rfl
  · exact .inl rfl
  · exact .inl rfl
  · rename_i hper
    exact .inr ⟨_, _, rfl, readSnapshot_persistedBytes hper⟩
  · rename_i hper
    exact .inr ⟨_, _, rfl, readSnapshot_persistedBytes hper⟩

theorem persistSnapshot_ok {dg : Sha256DigestV1}
    (hpub : (persistSnapshot host io snap body).2 = .ok dg) :
    Reads host (persistSnapshot host io snap body).1 body := by
  rw [persistSnapshot] at hpub ⊢
  split at hpub
  · cases hpub
  · cases hpub
  · cases hpub
  · cases hpub
  · rename_i hper
    exact ⟨_, _, rfl, readSnapshot_persistedBytes hper⟩

/-- The body an `open` publishes over the snapshot file. -/
inductive Recovers (host : FabricHost) (snapshot : Option Bytes) : FabricLedgerBodyV1 → Prop
  | first (absent : snapshot = none) : Recovers host snapshot firstBody
  | next {body next : FabricLedgerBodyV1} (before : Reads host snapshot body)
      (recovered : nextIncarnation body = .ok next) : Recovers host snapshot next

/-- What one operation can do to the root, and whether it succeeds. -/
inductive Transition (host : FabricHost) (root : LedgerRootV1) : LedgerRootV1 → Bool → Prop
  | same {ok : Bool} : Transition host root root ok
  | closed : Transition host root root.close true
  | poisoned {ledger : FabricAttemptLedgerV1} (live : root.ledger = some ledger) :
      Transition host root ⟨root.snapshot, some ledger.poison⟩ false
  | ambiguous {ledger : FabricAttemptLedgerV1} {next : FabricLedgerBodyV1} {snapshot : Option Bytes}
      (live : root.ledger = some ledger) (before : Reads host root.snapshot ledger.memory.body)
      (edit : Edit ledger.memory.body next) (after : Reads host snapshot next) :
      Transition host root ⟨snapshot, some ledger.poison⟩ false
  | rewritten {ledger : FabricAttemptLedgerV1} {next : FabricLedgerBodyV1} {snapshot : Option Bytes}
      {digest : Sha256DigestV1} (live : root.ledger = some ledger)
      (before : Reads host root.snapshot ledger.memory.body)
      (edit : Edit ledger.memory.body next) (after : Reads host snapshot next) :
      Transition host root ⟨snapshot, some { ledger with memory := ⟨next, digest⟩ }⟩ true
  | opened {next : FabricLedgerBodyV1} {snapshot : Option Bytes} {digest : Sha256DigestV1}
      (absent : root.ledger = none) (recovers : Recovers host root.snapshot next)
      (after : Reads host snapshot next) :
      Transition host root ⟨snapshot, some ⟨⟨next, digest⟩, false⟩⟩ true
  | unopened {next : FabricLedgerBodyV1} {snapshot : Option Bytes}
      (absent : root.ledger = none) (recovers : Recovers host root.snapshot next)
      (after : Reads host snapshot next) : Transition host root ⟨snapshot, none⟩ false

section Live

variable {host : FabricHost} {io : LedgerIoV1} {root : LedgerRootV1}
  {ledger : FabricAttemptLedgerV1} {α : Type}

/-- A verified ledger has the body of the snapshot file in memory. -/
theorem lockVerified_ok {memory : LedgerMemoryV1}
    (hlk : (ledger.lockVerified host io root.snapshot).2 = .ok memory) :
    memory = ledger.memory ∧ Reads host root.snapshot memory.body := by
  rw [FabricAttemptLedgerV1.lockVerified] at hlk
  split at hlk
  · cases hlk
  · split at hlk
    · cases hlk
    · rename_i hver
      cases hlk
      simp only [FabricAttemptLedgerV1.verifyCachedSnapshot, bind_eq_ok, bailIf_eq_ok,
        Bool.or_eq_false_iff, bne_eq_false_iff_eq] at hver
      obtain ⟨_, _, ⟨body, _⟩, read, sameBody, _⟩ := hver
      exact ⟨rfl, sameBody ▸ reads_of_readSnapshotFile read⟩

theorem lockVerified_error {err : String}
    (hlk : (ledger.lockVerified host io root.snapshot).2 = .error err) :
    (ledger.lockVerified host io root.snapshot).1 = ledger ∨
      (ledger.lockVerified host io root.snapshot).1 = ledger.poison := by
  rw [FabricAttemptLedgerV1.lockVerified] at hlk ⊢
  split at hlk
  · exact .inl rfl
  · split at hlk
    · exact .inr rfl
    · cases hlk

theorem withVerified_transition (live : root.ledger = some ledger)
    {access : LedgerMemoryV1 → LedgerRootV1 × Result α}
    (tr : Reads host root.snapshot ledger.memory.body →
      Transition host root (access ledger.memory).1 (access ledger.memory).2.isOk) :
    Transition host root (root.withVerified host io ledger access).1
      (root.withVerified host io ledger access).2.isOk := by
  rw [LedgerRootV1.withVerified]
  split
  · rename_i hlk
    obtain he | poisoned := lockVerified_error (congrArg Prod.snd hlk)
    · rw [hlk] at he
      cases he
      rw [← live]
      exact .same
    · rw [hlk] at poisoned
      cases poisoned
      exact .poisoned live
  · rename_i hlk
    obtain ⟨rfl, reads⟩ := lockVerified_ok (congrArg Prod.snd hlk)
    exact tr reads

theorem publish_transition (live : root.ledger = some ledger) {next : FabricLedgerBodyV1}
    (s : Reads host root.snapshot ledger.memory.body) (edit : Edit ledger.memory.body next)
    (v : α) :
    Transition host root (root.publish host io ledger next v).1
      (root.publish host io ledger next v).2.isOk := by
  -- a failed publication may or may not have replaced the file
  have failed : Transition host root
      ⟨(persistSnapshot host io root.snapshot next).1, some ledger.poison⟩ false := by
    obtain he | t := persistSnapshot_fst host io root.snapshot next
    · rw [he]
      exact .poisoned live
    · exact .ambiguous live s edit t
  rw [LedgerRootV1.publish]
  split
  · exact .same
  · split
    · rename_i hper
      rw [hper] at failed
      exact failed
    · rename_i hper
      have t := persistSnapshot_ok (congrArg Prod.snd hper)
      rw [hper] at failed t
      split
      · exact failed
      · exact .rewritten live s edit t

variable {mutation : FabricLedgerBodyV1 → Result (MutationV1 α)}

theorem withMutation_transition (live : root.ledger = some ledger) (edits : Edits mutation) :
    Transition host root (root.withMutation host io ledger mutation).1
      (root.withMutation host io ledger mutation).2.isOk := by
  refine withVerified_transition live ?_
  intro reads
  split
  · exact .same
  · exact .same
  · rename_i hch
    exact publish_transition live reads (edits hch) _

/-- A mutation that succeeds either left the body alone or made the new one durable. -/
theorem withMutation_ok {v : α} (hsuc : (root.withMutation host io ledger mutation).2 = .ok v) :
    ∃ bd, Reads host root.snapshot bd ∧ (mutation bd = .ok (.unchanged v) ∨
        ∃ next, mutation bd = .ok (.changed next v) ∧
          Reads host (root.withMutation host io ledger mutation).1.snapshot next) := by
  rw [LedgerRootV1.withMutation, LedgerRootV1.withVerified] at hsuc ⊢
  split at hsuc
  · cases hsuc
  · rename_i hlk
    refine ⟨_, (lockVerified_ok (congrArg Prod.snd hlk)).2, ?_⟩
    split at hsuc
    · cases hsuc
    · rename_i hun
      cases hsuc
      exact .inl hun
    · rename_i next _ hch
      refine .inr ⟨next, ?_⟩
      rw [LedgerRootV1.publish] at hsuc ⊢
      split at hsuc
      · cases hsuc
      · split at hsuc
        · cases hsuc
        · rename_i hpub
          have t := persistSnapshot_ok (congrArg Prod.snd hpub)
          rw [hpub] at t
          split at hsuc
          · cases hsuc
          · cases hsuc
            exact ⟨hch, t⟩

end Live

theorem recovers_of_openedBody {next : FabricLedgerBodyV1}
    (hop : LedgerRootV1.openedBody host io snap = .ok next) :
    Recovers host snap next := by
  cases snap with
  | none =>
    cases hop
    exact .first rfl
  | some =>
    simp only [LedgerRootV1.openedBody, bind_eq_ok] at hop
    obtain ⟨⟨_, _⟩, read, hrcv⟩ := hop
    exact .next (reads_of_readSnapshotFile read) hrcv

theorem openLedger_transition (host : FabricHost) (io : LedgerIoV1) (root : LedgerRootV1) :
    Transition host root (root.openLedger host io).1 (root.openLedger host io).2.isOk := by
  obtain ⟨snap, _⟩ := root
  rw [LedgerRootV1.openLedger]
  split
  · exact .same
  · split
    · exact .same
    · rename_i hab _ next hop
      rw [bind_eq_ok] at hop
      obtain ⟨_, _, hop⟩ := hop
      have hrec := recovers_of_openedBody hop
      split
      · rename_i hfl
        obtain he | t := persistSnapshot_fst host io snap next
        · rw [hfl] at he
          cases he
          cases hab
          exact .same
        · rw [hfl] at t
          exact .unopened hab hrec t
      · rename_i hpub
        have t := persistSnapshot_ok (congrArg Prod.snd hpub)
        rw [hpub] at t
        exact .opened hab hrec t

/-- The operation returned no error. -/
def LedgerOutputV1.isOk : LedgerOutputV1 → Bool
  | opened result => result.isOk
  | closed => true
  | written result => result.isOk
  | accepted result => result.isOk
  | queried result => result.isOk
  | notOpen => false

theorem operate_transition {led : FabricAttemptLedgerV1} (live : root.ledger = some led)
    (op : LedgerOperationV1) :
    Transition host root (root.operate host io led op).1 (root.operate host io led op).2.isOk := by
  cases op with try simp only [LedgerRootV1.operate]
  | «open» => exact openLedger_transition host io root
  | close => exact .closed
  | writeBinding bnd s => exact withMutation_transition live (writeBinding_edits bnd s)
  | recordValidated bnd => exact withMutation_transition live (recordValidated_edits bnd)
  | consumeAndAccept bnd => exact withMutation_transition live (consumeAndAccept_edits bnd)
  | markRunning bnd => exact withMutation_transition live (markRunning_edits bnd)
  | recordTerminalCandidate bnd =>
    split
    · exact .same
    · exact withMutation_transition live (recordTerminal_edits bnd _)
  | recordRejected bnd reasonCode msg =>
    split
    · exact .same
    · exact withMutation_transition live (recordRejected_edits bnd reasonCode msg)
  | recordPreacceptRejected bnd reasonCode msg =>
    split
    · exact .same
    · exact withMutation_transition live (recordPreacceptRejected_edits bnd reasonCode msg)
  | query =>
    exact withVerified_transition live fun _ => .same

theorem step_live {led : FabricAttemptLedgerV1} (live : root.ledger = some led)
    (op : LedgerOperationV1) (io : LedgerIoV1) :
    root.step host (op, io) = root.operate host io led op := by
  simp only [LedgerRootV1.step, live]

theorem step_closed (host : FabricHost) (hcl : root.ledger = none)
    (op : LedgerOperationV1) (io : LedgerIoV1) :
    root.step host (op, io) = (root.openLedger host io).map id .opened ∨
      root.step host (op, io) = (root, .notOpen) := by
  cases op <;> simp [LedgerRootV1.step, hcl]

theorem step_transition (host : FabricHost) (root : LedgerRootV1)
    (ev : LedgerOperationV1 × LedgerIoV1) :
    Transition host root (root.step host ev).1 (root.step host ev).2.isOk := by
  obtain ⟨op, io⟩ := ev
  cases s : root.ledger with
  | some =>
    rw [step_live s]
    exact operate_transition s op
  | none =>
    obtain hop | hrf := step_closed host s op io
    · rw [hop]
      exact openLedger_transition host io root
    · rw [hrf]
      exact .same

end Ostadix.Fabric
