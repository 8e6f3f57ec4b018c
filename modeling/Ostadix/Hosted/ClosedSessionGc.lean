import Ostadix.Hosted.ControlDebit

/-! # Collecting a closed session

An operator collects a closed session in two phases: the authorization is recorded in the authority
journal, and after the session was removed its completion is. The authorization checks that both
records fit the headroom and the quota of the session at its own time; the completion checks them
again, against what was appended since. -/

namespace Ostadix.Hosted

open Ostadix.Lib Ostadix.Fabric

def hostedJournalEntrySchemaV2 : String := "ostadix.hosted-journal-entry/v2"

/-- The key of the node: what it signs is accepted by the checks of its journals. -/
structure HostedNodeSignerV2 (host : JournalHost) where
  issueJournalEntry : JournalEntryV2 → SignedJournalEntryV2
  entry_issue : ∀ entry, (issueJournalEntry entry).entry = entry
  verify_issue : ∀ entry, host.verify (issueJournalEntry entry) = true
  key_issue : ∀ entry, (issueJournalEntry entry).signerPublicKey = host.publicKeyHex

namespace AuthorityStoreV2

def appendReceipt (host : JournalHost) (io : AppendIoV2) (store : AuthorityStoreV2) (entry : SignedJournalEntryV2) :
    AuthorityStoreV2 × Result SignedJournalEntryV2 :=
  match store.appendAuthorityEntry host io entry with
  | (store, .appended _) => (store, .ok entry)
  | (store, .refused detail) => (store, .error detail)

variable {host : JournalHost} (signer : HostedNodeSignerV2 host)

end AuthorityStoreV2

variable {host : JournalHost}

/-- The next entry of a scanned journal continues it, and its events stand where they may. -/
structure ScanStateV2.Chained (journalId : String) (state : ScanStateV2) : Prop where
  sequence : state.expectedSequence = state.entries.length + 1
  previous : state.expectedPrevious = state.entries.getLast?.map (·.entrySha256)
  located : ∀ entry ∈ state.entries, validateJournalEventLocation journalId entry.entry.event = .ok ()

theorem AcceptedFrames.chained {journalId : String} {first last : ScanStateV2} {bs : Bytes}
    (frs : AcceptedFrames host journalId first bs last) (chained : first.Chained journalId) :
    last.Chained journalId := by
  induction frs with
  | nil => exact chained
  | cons short ha _ ih =>
    obtain ⟨_, facts, rfl⟩ := ScanStateV2.accept_eq_ok.mp ha
    refine ih ⟨?_, by simp [ScanStateV2.after], fun o hm => ?_⟩
    · simp [ScanStateV2.after, chained.sequence]
    · obtain hear | he := List.mem_append.mp hm
      · exact chained.located o hear
      · exact List.mem_singleton.mp he ▸ facts.located

namespace AuthorityStoreV2

variable {st : AuthorityStoreV2}

theorem readAuthorityJournal_eq {jn : List SignedJournalEntryV2}
    (scanned : scanValidatedJournal host authorityJournalIdV2 st.journal.file =
      ⟨jn, st.journal.head, none, none⟩) : st.readAuthorityJournal host = ⟨jn, none⟩ := by
  simp [readAuthorityJournal, JournalStoreV2.readJournalFile, scanned]

variable {io : AppendIoV2} {sessionId : String} {signer : HostedNodeSignerV2 host}
  {recordedUnixMs previewUnixMs durableBytes : Nat} {session : Result ClosedSessionV2}

section Next

variable {jn pend : List SignedJournalEntryV2} {last : ScanStateV2} {sb left : Bytes}
  (htr : st.journal.Tracks host authorityJournalIdV2 jn pend last sb left)
  (hhe : st.journal.reopenRequired = false)
include htr hhe

end Next

section Completion

variable {jn unsynced : List SignedJournalEntryV2} {last : ScanStateV2} {sb left : Bytes}
  {pend : PendingClosedSessionGcV2}
  (htr : st.journal.Tracks host authorityJournalIdV2 jn unsynced last sb left)
  (hhe : st.journal.reopenRequired = false)
  (opt : pendingGc jn = .ok (some pend))
include htr hhe opt

end Completion

/-! ## From the authorization to the completion -/

variable {keeps : List SignedJournalEntryV2 → Prop}

theorem Sound.holds (hsd : st.Sound host keeps) (hhe : st.journal.reopenRequired = false) :
    keeps (st.readAuthorityJournal host).entries := by
  obtain ⟨_, _, _, _, _, _, htr, _, _, _⟩ := hsd
  rwa [readAuthorityJournal_eq (htr.scanned hhe)]

theorem Sound.of_healthy {s : List SignedJournalEntryV2 → Prop}
    (hsd : st.Sound host s) (hhe : st.journal.reopenRequired = false)
    (hh : keeps (st.readAuthorityJournal host).entries) : st.Sound host keeps := by
  obtain ⟨jn, _, last, hsy, _, db, htr, books, _, memory, _⟩ := hsd
  rw [readAuthorityJournal_eq (htr.scanned hhe)] at hh
  obtain rfl := htr.left_eq_nil hhe
  exact ⟨jn, [], last, hsy, [], db, ⟨htr.file, htr.frames, htr.entries, htr.head,
    .inl rfl⟩, books, hh, memory, by simp⟩

theorem appendReceipt_fst (io : AppendIoV2) (e : SignedJournalEntryV2) :
    (st.appendReceipt host io e).1 = (st.appendAuthorityEntry host io e).1 := by
  rw [appendReceipt]
  split <;> simp_all

theorem appendReceipt_eq_ok {e rcpt : SignedJournalEntryV2} {appended : AuthorityStoreV2}
    (hsd : st.Sound host keeps) (kept : Kept keeps e)
    (done : st.appendReceipt host io e = (appended, .ok rcpt)) :
    rcpt = e ∧ appended.journal.reopenRequired = false ∧
      appended.Sound host keeps ∧ (appended.readAuthorityJournal host).entries =
        (st.readAuthorityJournal host).entries ++ [e] := by
  have t := hsd.append io e kept
  rw [← appendReceipt_fst, done] at t
  obtain ⟨_, _, _, _, _, _, htr, _⟩ := hsd
  rw [appendReceipt, appendAuthorityEntry,
    ← Prod.mk.eta (p := st.journal.appendJournalFile _ _ _ _)] at done
  obtain ⟨_, _, oc, hgn, hhe, still⟩ | ⟨_, oc, _⟩ :=
    htr.append e (st.decided host e io) <;> rw [oc] at done
  · cases done
    rw [readAuthorityJournal_eq (htr.scanned hhe)]
    exact ⟨rfl, still, t, by rw [readAuthorityJournal_eq (hgn.scanned still)]⟩
  · dsimp only at done
    split at done
    · rename_i hrf
      split at hrf <;> cases hrf
    · cases done

end AuthorityStoreV2

namespace AuthorityRootV2

end AuthorityRootV2

end Ostadix.Hosted
