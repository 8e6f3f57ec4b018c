import Ostadix.Hosted.Authority

/-! # The debit in memory and the debit of the journal

Every entry of the authority journal was admitted under a debit, so the debits of its entries add
up (`Books`). What can still make the recomputation at an open fail is a second authorization
while a collection is pending: the append of a completion asks for its authorization, but the
append of an authorization asks for nothing. -/

namespace Ostadix.Hosted

open Ostadix.Lib Ostadix.Fabric List Option

variable {host : JournalHost} {es : List SignedJournalEntryV2} {e : SignedJournalEntryV2} {db : Nat}

/-! ## Pending collections -/

theorem pendingGc_append (es : List SignedJournalEntryV2) (e : SignedJournalEntryV2) :
    pendingGc (es ++ [e]) = pendingGc es >>= fun pend => pendingAfter pend e := by
  simp [pendingGc, foldlM_append]

def JournalEventV2.authorizesGc : JournalEventV2 → Bool
  | .closedSessionGcAuthorized .. => true
  | _ => false

/-- No collection was authorized while another was pending. -/
def NoOverlap (entries : List SignedJournalEntryV2) : Prop :=
  ∀ before entry after, entries = before ++ entry :: after →
    entry.entry.event.authorizesGc = true → ∀ pending, pendingGc before = .ok pending →
      pending = none

theorem pendingAfter_overlap {pend : Option PendingClosedSessionGcV2} :
    pendingAfter pend e = .error overlappingIntents ↔
      e.entry.event.authorizesGc = true ∧ pend ≠ none := by
  rw [pendingAfter]
  split <;> rename_i ev <;> simp only [ev, JournalEventV2.authorizesGc]
  · cases pend <;> simp
  · simp only [bind_eq_error, PendingClosedSessionGcV2.requireCompletedBy, okOr_eq_error,
      bailIf_eq_error]
    simp [overlappingIntents, pure, Except.pure]
  · cases h : e.entry.event <;> simp_all

theorem noOverlap_append :
    NoOverlap (es ++ [e]) ↔ NoOverlap es ∧ (e.entry.event.authorizesGc = true →
        ∀ pend, pendingGc es = .ok pend → pend = none) := by
  constructor
  · intro apart
    refine ⟨fun s o t split => ?_, apart es e [] rfl⟩
    exact apart s o (t ++ [e]) (by simp [split])
  · rintro ⟨apart, last⟩ s o t split authorizes
    cases t using List.reverseRecOn with
    | nil =>
      obtain ⟨rfl, rfl⟩ := by simpa using append_inj' split rfl
      exact last authorizes
    | append_singleton t =>
      rw [← cons_append, ← append_assoc] at split
      obtain ⟨rfl, _⟩ := append_inj' split rfl
      exact apart s o t rfl authorizes

/-- The scan for a pending collection fails on a journal only for an overlap, if it fails there
for nothing else. -/
theorem pendingGc_ok_iff
    (intents : (∃ pend, pendingGc es = .ok pend) ∨ pendingGc es = .error overlappingIntents) :
    (∃ pend, pendingGc es = .ok pend) ↔ NoOverlap es := by
  have apart : NoOverlap es ↔ pendingGc es ≠ .error overlappingIntents := by
    clear intents
    induction es using List.reverseRecOn with
    | nil => exact ⟨fun _ => by simp [pendingGc, pure, Except.pure], fun _ => by simp [NoOverlap]⟩
    | append_singleton es e ih =>
      rw [noOverlap_append, ih, pendingGc_append]
      cases hf : pendingGc es with
      | error => simp [bind, Except.bind]
      | ok pend =>
        have overlap := @pendingAfter_overlap e pend
        simp only [bind, Except.bind, ne_eq, reduceCtorEq, not_false_eq_true, true_and, overlap,
          Except.ok.injEq, not_and, not_not, forall_eq']
  rw [apart]
  obtain ⟨pend, hf⟩ | overlap := intents
  · simp [hf]
  · simp [overlap]

/-! ## The books of a journal -/

/-- The debit of a journal, whatever its collections. -/
def runningDebit (host : JournalHost) (entries : List SignedJournalEntryV2) : Option Nat :=
  entries.foldlM (debitAfter host) 0

/-- Each entry was admitted under the debit of those before it. -/
structure Books (host : JournalHost) (entries : List SignedJournalEntryV2) (debit : Nat) : Prop where
  balance : runningDebit host entries = some debit
  intents : (∃ pending, pendingGc entries = .ok pending) ∨
    pendingGc entries = .error overlappingIntents

theorem Books.nil : Books host [] 0 :=
  ⟨rfl, .inl ⟨none, rfl⟩⟩

theorem debitAfter_le {cs : Nat} (fits : cs ≤ closedSessionGcAuthorityHeadroomBytesV2)
    (hadm : debitAfter host cs e = some db) :
    db ≤ closedSessionGcAuthorityHeadroomBytesV2 := by
  simp only [debitAfter, beginAuthorityControlTransition, bind_eq_bind, bind_eq_some_iff] at hadm
  obtain ⟨_, _, hadm⟩ := hadm
  split at hadm
  · simpa using (filter_eq_some_iff.mp hadm).2
  · cases hadm
    exact fits

theorem Books.fits (books : Books host es db) : db ≤ closedSessionGcAuthorityHeadroomBytesV2 := by
  have balance := books.balance
  clear books
  induction es using List.reverseRecOn generalizing db with
  | nil =>
    cases balance
    exact Nat.zero_le _
  | append_singleton es e ih =>
    simp only [runningDebit, foldlM_append, foldlM_cons, foldlM_nil,
      bind_eq_bind, bind_eq_some_iff] at balance
    obtain ⟨_, balance, _, hadm, ⟨⟩⟩ := balance
    exact debitAfter_le (ih balance) hadm

/-- On entries that were admitted one after the other the recomputation depends on the collections
only. -/
theorem foldlM_authorityControlDebitStep {first last : Nat} (pend : Option PendingClosedSessionGcV2)
    (balance : es.foldlM (debitAfter host) first = some last) :
    es.foldlM (authorityControlDebitStep host) (first, pend) =
      (es.foldlM pendingAfter pend).map fun pend => (last, pend) := by
  induction es generalizing first pend with
  | nil =>
    cases balance
    rfl
  | cons e es ih =>
    simp only [foldlM_cons, bind_eq_bind, bind_eq_some_iff] at balance
    obtain ⟨next, hadm, balance⟩ := balance
    have one : authorityControlDebitStep host (first, pend) e =
        (pendingAfter pend e).map fun pend => (next, pend) := by
      simp only [debitAfter, beginAuthorityControlTransition, bind_eq_bind,
        bind_eq_some_iff] at hadm
      obtain ⟨_, framed, hadm⟩ := hadm
      rw [authorityControlDebitStep]
      cases hf : pendingAfter pend e with
      | error => rfl
      | ok t =>
        split at hadm
        · rename_i emergency
          obtain ⟨db, fits⟩ := filter_eq_some_iff.mp hadm
          have hw : ¬ closedSessionGcAuthorityHeadroomBytesV2 < next := by simpa using fits
          simp [emergency, framed, db, okOr, bailIf, hw, Except.map]
        · rename_i ordinary
          cases hadm
          simp [ordinary, Except.map]
    rw [foldlM_cons, foldlM_cons, one]
    cases pendingAfter pend e with
    | error => rfl
    | ok t => exact ih t balance

theorem Books.authorityControlDebit_eq (books : Books host es db) :
    authorityControlDebit host es = (pendingGc es).map fun _ => db := by
  rw [authorityControlDebit, foldlM_authorityControlDebitStep none books.balance, ← pendingGc]
  cases pendingGc es <;> rfl

/-- The recomputed debit is the one of the books exactly if no authorizations overlap. -/
theorem Books.debit_iff (books : Books host es db) :
    authorityControlDebit host es = .ok db ↔ NoOverlap es := by
  rw [← pendingGc_ok_iff books.intents, books.authorityControlDebit_eq]
  cases pendingGc es <;> simp [Except.map]

/-- Opening succeeds in restoring the debit exactly then. -/
theorem Books.restores_iff (books : Books host es db) :
    (∃ restored, authorityControlDebit host es >>= restoreAuthorityControlHeadroom =
      .ok restored) ↔ NoOverlap es := by
  have fits : ¬ closedSessionGcAuthorityHeadroomBytesV2 < db := Nat.not_lt.mpr books.fits
  rw [← pendingGc_ok_iff books.intents, books.authorityControlDebit_eq]
  cases pendingGc es with
  | error => simp [Except.map, bind, Except.bind]
  | ok => simp [Except.map, restoreAuthorityControlHeadroom, bailIf, fits]

theorem Books.append {next : Nat} (books : Books host es db)
    (hadm : debitAfter host db e = some next) (credited : ∀ {sessionId terminalHead reclaimedBytes},
      e.entry.event = .closedSessionGcCompleted sessionId terminalHead reclaimedBytes →
      ∃ pend, pendingGc es = .ok pend ∧ PendingClosedSessionGcV2.requireCompletedBy
        pend sessionId terminalHead reclaimedBytes = .ok ()) :
    Books host (es ++ [e]) next := by
  refine ⟨?_, ?_⟩
  · have balance := books.balance
    rw [runningDebit] at balance ⊢
    simp [foldlM_append, balance, hadm]
  · rw [pendingGc_append]
    obtain ⟨pend, hf⟩ | overlap := books.intents
    · rw [hf]
      change (∃ t, pendingAfter pend e = .ok t) ∨ pendingAfter pend e = _
      rw [pendingAfter]
      split
      · cases pend <;> simp
      · rename_i ev
        obtain ⟨_, same, hcmp⟩ := credited ev
        cases hf.symm.trans same
        rw [hcmp]
        exact .inl ⟨none, rfl⟩
      · exact .inl ⟨pend, rfl⟩
    · rw [overlap]
      exact .inr rfl

/-! ## The open store -/

/-- A property of journals that no append of the entry ends. -/
def Kept (keeps : List SignedJournalEntryV2 → Prop) (entry : SignedJournalEntryV2) : Prop :=
  ∀ journal, keeps journal → keeps (journal ++ [entry])

/-- The journal of the store is in order, the debit in memory is that of its entries unless the
store has to be reopened, and an entry of which a prefix may be in the file was admitted. What
`keeps` says of the journal is kept by such an entry. -/
def AuthorityStoreV2.Sound (host : JournalHost) (keeps : List SignedJournalEntryV2 → Prop)
    (store : AuthorityStoreV2) : Prop :=
  ∃ journal pending last synced left debit,
    store.journal.Tracks host authorityJournalIdV2 journal pending last synced left ∧
    Books host journal debit ∧ keeps journal ∧
    (store.journal.reopenRequired = false → debit = store.authorityControlBytes) ∧
    ∀ entry ∈ pending, keeps (journal ++ [entry]) ∧ ∃ debit, Books host (journal ++ [entry]) debit

namespace AuthorityStoreV2

variable {st : AuthorityStoreV2}

/-- An entry the store admits keeps the books. -/
theorem books_of_transition {jn : List SignedJournalEntryV2} {next : Nat}
    (scanned : scanValidatedJournal host authorityJournalIdV2 st.journal.file =
      ⟨jn, st.journal.head, none, none⟩)
    (books : Books host jn st.authorityControlBytes)
    (hadm : st.transition host e = some next) : Books host (jn ++ [e]) next := by
  simp only [transition, bind_eq_bind, bind_eq_some_iff] at hadm
  obtain ⟨_, credit, hadm⟩ := hadm
  refine books.append hadm ?_
  intro sessionId terminalHead reclaimedBytes ev
  rw [ev] at credit
  have hv : st.validateGcCompletionCredit host
      (.closedSessionGcCompleted sessionId terminalHead reclaimedBytes) = .ok () := by
    cases r : st.validateGcCompletionCredit host
        (.closedSessionGcCompleted sessionId terminalHead reclaimedBytes) with
    | error => simp [r, Except.toOption] at credit
    | ok => rfl
  simp only [validateGcCompletionCredit, bind_eq_ok] at hv
  obtain ⟨pend, hf, hcmp⟩ := hv
  refine ⟨pend, ?_, hcmp⟩
  simpa [pendingClosedSessionGc, readAuthorityJournal, JournalStoreV2.readJournalFile,
    scanned] using hf

/-- What has to hold for a frame to be written. -/
theorem writes_only_if {io : AppendIoV2} {bs : Bytes}
    (writes : st.journal.frameToWrite host authorityJournalIdV2 (st.decided host e io) e = .ok bs) :
    st.journal.reopenRequired = false ∧ ∃ next, st.transition host e = some next := by
  simp only [JournalStoreV2.frameToWrite, bind_eq_ok, bailIf_eq_ok] at writes
  obtain ⟨_, hhe, _, _, _, _, _, _, _, _, _, hadm, _⟩ := writes
  exact ⟨hhe, isSome_iff_exists.mp (by simpa [decided] using hadm)⟩

theorem Sound.append {keep : List SignedJournalEntryV2 → Prop} (hsd : st.Sound host keep)
    (io : AppendIoV2) (e : SignedJournalEntryV2) (kept : Kept keep e) :
    (st.appendAuthorityEntry host io e).1.Sound host keep := by
  obtain ⟨jn, pend, last, hsy, left, db, htr, books, hh, memory, hadm⟩ := hsd
  cases writes : st.journal.frameToWrite host authorityJournalIdV2 (st.decided host e io) e with
  | error =>
    have he : (st.appendAuthorityEntry host io e).1 = st := by
      simp [appendAuthorityEntry, JournalStoreV2.appendJournalFile, writes]
    rw [he]
    exact ⟨jn, pend, last, hsy, left, db, htr, books, hh, memory, hadm⟩
  | ok bs =>
    obtain ⟨hhe, next, tr⟩ := writes_only_if writes
    obtain rfl := memory hhe
    have longer := books_of_transition (htr.scanned hhe) books tr
    obtain ⟨t, _, oc, hgn, _⟩ | ⟨_, oc, left, he⟩ := htr.append e (st.decided host e io)
    · have appended : (st.appendAuthorityEntry host io e).1 = ⟨(st.journal.appendJournalFile
          host authorityJournalIdV2 (st.decided host e io) e).1, next⟩ := by
        rw [appendAuthorityEntry, ← Prod.mk.eta (p := st.journal.appendJournalFile _ _ _ _), oc, tr]
        rfl
      rw [appended]
      exact ⟨_, [], t, _, [], next, ⟨hgn.file, hgn.frames, hgn.entries, hgn.head, .inl rfl⟩,
        longer, kept jn hh, fun _ => rfl, by simp⟩
    · have hrf : (st.appendAuthorityEntry host io e).1.journal =
          (st.journal.appendJournalFile host authorityJournalIdV2 (st.decided host e io) e).1 ∧
          ((st.appendAuthorityEntry host io e).1.journal.reopenRequired = false →
            (st.appendAuthorityEntry host io e).1.authorityControlBytes =
              st.authorityControlBytes) := by
        rw [appendAuthorityEntry, ← Prod.mk.eta (p := st.journal.appendJournalFile _ _ _ _), oc]
        dsimp only
        split
        · rename_i poisoned
          simp only [hhe, Bool.not_false, Bool.and_true] at poisoned
          exact ⟨rfl, fun sane => by rw [poisoned] at sane; cases sane⟩
        · exact ⟨rfl, fun _ => rfl⟩
      refine ⟨jn, pend ++ [e], last, hsy, left, _, ?_, books, hh, fun sane => (hrf.2 sane).symm, ?_⟩
      · rw [hrf.1]
        exact he
      · intro o hm
        obtain hear | he := mem_append.mp hm
        · exact hadm o hear
        · obtain rfl := mem_singleton.mp he
          exact ⟨kept jn hh, next, longer⟩

end AuthorityStoreV2

/-! ## Stopping and opening -/

/-- The file of a root without an open store: the frames of an orderly journal and at most an
incomplete frame. -/
def StoppedSound (host : JournalHost) (keeps : List SignedJournalEntryV2 → Prop) (file : Bytes) :
    Prop :=
  ∃ last synced left debit, AcceptedFrames host authorityJournalIdV2 .start synced last ∧
    file = synced ++ left ∧ (left ≠ [] → frameAt maxHostedFrameBytes left = .incomplete) ∧
    Books host last.entries debit ∧ keeps last.entries

variable {keeps : List SignedJournalEntryV2 → Prop}

theorem StoppedSound.reopens {file : Bytes} (hsd : StoppedSound host keeps file) :
    ∃ last hsy left db, AcceptedFrames host authorityJournalIdV2 .start hsy last ∧
      Books host last.entries db ∧ keeps last.entries ∧ hsy = journalBytes host last.entries ∧
      Reopens host authorityJournalIdV2 file last.entries left := by
  obtain ⟨last, hsy, left, db, frs, rfl, hinc, books, hh⟩ := hsd
  obtain ⟨added, es, bs⟩ := frs.entries
  obtain rfl : added = last.entries := by simp [es, ScanStateV2.start]
  refine ⟨last, hsy, left, db, frs, books, hh, bs, ?_⟩
  by_cases hno : left = []
  · rw [hno, append_nil]
    exact reopens_clean frs (.inl rfl)
  · exact reopens_torn frs (.inl rfl) hno (hinc hno)

theorem AuthorityStoreV2.Sound.stop {st : AuthorityStoreV2} (hsd : st.Sound host keeps)
    (inFlight : Option (SignedJournalEntryV2 × AppendIoV2)) (kept : Nat)
    (hg : ∀ append ∈ inFlight, Kept keeps append.1) :
    StoppedSound host keeps (st.journal.crash host authorityJournalIdV2
      (inFlight.map fun append => (append.1, st.decided host append.1 append.2)) kept) := by
  obtain ⟨_, _, last, hsy, left, db, htr, books, hh, memory, admitted⟩ := hsd
  obtain rfl := htr.entries
  -- a prefix of the frame of an admitted entry is cut off at the next open, or is one more entry
  have cut {file : Bytes} {list : List SignedJournalEntryV2}
      (longer : ∀ entry ∈ list, keeps (last.entries ++ [entry]) ∧
        ∃ db, Books host (last.entries ++ [entry]) db)
      (crashed : file = hsy ∨ ∃ left, JournalStoreV2.PrefixOf host authorityJournalIdV2 last list
        left ∧ file = hsy ++ left) : StoppedSound host keeps file := by
    obtain rfl | ⟨_, ⟨entry, hm, pl, next, kept, hsh, ha, es, rfl⟩, rfl⟩ := crashed
    · exact ⟨last, file, [], db, htr.frames, by simp, by simp, books, hh⟩
    · by_cases whole : (frame pl).length ≤ kept
      · obtain ⟨still, db, longer⟩ := longer entry hm
        rw [take_of_length_le whole]
        exact ⟨next, _, [], db, htr.frames.trans (.single hsh ha), by simp, by simp,
          es ▸ longer, es ▸ still⟩
      · refine ⟨last, hsy, _, db, htr.frames, rfl, fun _ => ?_, books, hh⟩
        exact frameAt_take_frame maxHostedFrameBytes_narrow hsh (Nat.lt_of_not_le whole)
  cases inFlight with
  | none => exact cut (by simpa using admitted) (htr.crash none kept)
  | some append =>
    obtain ⟨entry, io⟩ := append
    cases writes : st.journal.frameToWrite host authorityJournalIdV2
        (st.decided host entry io) entry with
    | error =>
      have idle : st.journal.crash host authorityJournalIdV2
          (some (entry, st.decided host entry io)) kept =
          st.journal.crash host authorityJournalIdV2 none kept := by
        simp [JournalStoreV2.crash, writes, Except.toOption]
      rw [map_some, idle]
      exact cut (by simpa using admitted) (htr.crash none kept)
    | ok =>
      obtain ⟨hhe, next, tr⟩ := AuthorityStoreV2.writes_only_if writes
      obtain rfl := memory hhe
      have longer := AuthorityStoreV2.books_of_transition (htr.scanned hhe) books tr
      refine cut ?_ (htr.crash (some (entry, st.decided host entry io)) kept)
      intro o hm
      obtain hear | he := mem_append.mp hm
      · exact admitted o hear
      · obtain rfl : o = entry := by simpa using he
        exact ⟨hg _ rfl _ hh, next, longer⟩

/-- The entries an event may add to the journal. -/
def AuthorityEventV2.entries : AuthorityEventV2 → List SignedJournalEntryV2
  | .append entry _ => [entry]
  | .stop inFlight _ => inFlight.toList.map Prod.fst
  | .open | .poisonedElsewhere => []

namespace AuthorityRootV2

def Sound (host : JournalHost) (keeps : List SignedJournalEntryV2 → Prop) : AuthorityRootV2 → Prop
  | .stopped file => StoppedSound host keeps file
  | .live store => store.Sound host keeps

theorem openAuthority_sound {file : Bytes} (hsd : StoppedSound host keeps file) :
    (openAuthority host file).Sound host keeps := by
  obtain ⟨last, hsy, _, db, frs, books, hh, bs, reopens⟩ := hsd.reopens
  obtain ⟨_, hop, registered⟩ := reopens.opens
  rw [openAuthority, hop, ← bs]
  rw [← bs] at registered
  dsimp only
  split
  · exact ⟨last, hsy, [], db, frs, by simp, by simp, books, hh⟩
  · rename_i restored hf
    have he : db = restored := by
      rw [books.authorityControlDebit_eq] at hf
      cases hk : pendingGc last.entries with
      | error => simp [hk, Except.map, bind, Except.bind] at hf
      | ok =>
        simp only [hk, Except.map, restoreAuthorityControlHeadroom, bind_eq_ok] at hf
        obtain ⟨_, ⟨⟩, _, _, ⟨⟩⟩ := hf
        rfl
    obtain ⟨final, htr⟩ := registered.tracks
    rw [scanValidatedJournal_clean frs] at htr
    exact ⟨last.entries, [], final, hsy, [], db, htr, books, hh, fun _ => he, by simp⟩

theorem step_sound {root : AuthorityRootV2} (hsd : root.Sound host keeps) (ev : AuthorityEventV2)
    (hg : ∀ e ∈ ev.entries, Kept keeps e) : (step host root ev).Sound host keeps := by
  cases root with
  | stopped =>
    cases ev with
    | «open» => exact openAuthority_sound hsd
    | append | poisonedElsewhere | stop => exact hsd
  | live =>
    cases ev with
    | «open» => exact hsd
    | append e io =>
      exact .append hsd io e (hg e (mem_singleton_self e))
    | stop inFlight kept =>
      refine AuthorityStoreV2.Sound.stop hsd inFlight kept fun append hm => hg _ ?_
      exact mem_map_of_mem (mem_toList.mpr hm)
    | poisonedElsewhere =>
      obtain ⟨jn, pend, last, hsy, left, db, htr, books, hh, _, hadm⟩ := hsd
      refine ⟨jn, pend, last, hsy, left, db, ?_, books, hh, nofun, hadm⟩
      exact ⟨htr.file, htr.frames, htr.entries, htr.head,
        htr.left.imp_right fun cut => ⟨rfl, cut.2⟩⟩

theorem foldl_sound {root : AuthorityRootV2} (hsd : root.Sound host keeps)
    (evs : List AuthorityEventV2) (hg : ∀ ev ∈ evs, ∀ e ∈ ev.entries, Kept keeps e) :
    (evs.foldl (step host) root).Sound host keeps := by
  induction evs generalizing root with
  | nil => exact hsd
  | cons ev evs ih =>
    obtain ⟨first, tl⟩ := forall_mem_cons.mp hg
    exact ih (step_sound hsd ev first) tl

theorem Sound.start (hh : keeps []) : (AuthorityRootV2.stopped []).Sound host keeps :=
  ⟨.start, [], [], 0, .nil _, rfl, by simp, .nil, hh⟩

theorem run_sound (host : JournalHost) (evs : List AuthorityEventV2) :
    (run host evs).Sound host fun _ => True :=
  foldl_sound (.start trivial) evs fun _ _ _ _ _ _ => trivial

/-- After every history the debit of a store that need not be reopened is the one an open would
recompute, and within the headroom, exactly if no collection was authorized while another was
pending; and the debit of a root without an open store can be restored exactly then. -/
theorem control_debit_iff (host : JournalHost) (events : List AuthorityEventV2) :
    (∀ store, run host events = .live store → store.journal.reopenRequired = false →
      let entries := (scanValidatedJournal host authorityJournalIdV2 store.journal.file).entries
      (authorityControlDebit host entries = .ok store.authorityControlBytes ∧
        store.authorityControlBytes ≤ closedSessionGcAuthorityHeadroomBytesV2 ↔
          NoOverlap entries)) ∧
    ∀ file, run host events = .stopped file → ∃ entries repaired head,
      initializeJournal host authorityJournalIdV2 file = .ok (entries, repaired, head) ∧
      ((∃ debit, authorityControlDebit host entries >>= restoreAuthorityControlHeadroom = .ok debit) ↔
        NoOverlap entries) := by
  have sound := run_sound host events
  constructor
  · intro store live healthy
    rw [live] at sound
    obtain ⟨journal, pending, last, synced, left, debit, tracks, books, _, memory, _⟩ := sound
    obtain rfl := memory healthy
    simp only [tracks.scanned healthy, books.debit_iff, books.fits, and_true]
  · intro file stopped
    rw [stopped] at sound
    change StoppedSound host (fun _ => True) file at sound
    obtain ⟨last, synced, left, debit, frames, books, _, bytes, reopens⟩ := sound.reopens
    obtain ⟨head, opened, _⟩ := reopens.opens
    exact ⟨_, _, head, opened, books.restores_iff⟩

/-! ## Two authorizations -/

def sampleSha256 : String :=
  "0000000000000000000000000000000000000000000000000000000000000000"

def sampleAuthorization (sequence : Nat) (previous : Option String) : SignedJournalEntryV2 :=
  ⟨"entry", ⟨"entry", authorityJournalIdV2, sequence, previous, 0,
    .closedSessionGcAuthorized sampleSha256 sampleSha256 0 sampleSha256 1⟩, "key", "", "sha", ""⟩

/-- A node that knows how to write two entries. -/
def pairHost (first second : SignedJournalEntryV2) : JournalHost where
  codec.encodeMessage entry :=
    if entry = first then some [1] else if entry = second then some [2] else none
  codec.decodeMessage bytes :=
    if bytes = [1] then some first else if bytes = [2] then some second else none
  codec.decode_encode {message bytes} encoded _ := by
    split at encoded
    · rename_i same
      cases encoded
      simp [same]
    · split at encoded
      · rename_i same
        cases encoded
        simp [same]
      · cases encoded
  verify _ := true
  publicKeyHex := "key"

def authorizingHost : JournalHost :=
  pairHost (sampleAuthorization 1 none) (sampleAuthorization 2 (some "sha"))

/-- Both authorizations are appended and paid for, but the journal cannot be opened any more. -/
theorem overlapping_authorizations_appended :
    ∃ store, run authorizingHost [.open, .append (sampleAuthorization 1 none) faultless,
        .append (sampleAuthorization 2 (some "sha")) faultless] = .live store ∧
      store.journal.reopenRequired = false ∧ store.authorityControlBytes = 10 ∧
      authorityControlDebit authorizingHost (scanValidatedJournal authorizingHost
        authorityJournalIdV2 store.journal.file).entries = .error overlappingIntents := by
  refine ⟨⟨⟨frame [1] ++ frame [2], ⟨3, some "sha", 10⟩, false⟩, 10⟩, ?_, rfl, rfl, ?_⟩
  · decide +kernel
  · decide +kernel

end AuthorityRootV2

end Ostadix.Hosted
