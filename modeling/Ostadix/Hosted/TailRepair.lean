import Ostadix.Hosted.ClosedSessionGc

/-! # The evidence of tail repairs

Opening a root cuts the torn tail of each journal and then records the cut in the authority
journal. These are two steps on two files: an open that stops between them leaves a clean journal,
and no later open knows of the cut. -/

namespace Ostadix.Hosted

open Ostadix.Lib Ostadix.Fabric List

structure JournalCutV2 where
  journalId : String
  torn : TornJournalTailV2
deriving DecidableEq

def JournalCutV2.event (cut : JournalCutV2) : JournalEventV2 :=
  .journalTailRepaired cut.journalId cut.torn.oldBytes cut.torn.newBytes
    cut.torn.recoveredHeadSha256

/-- The cut that initializing a journal makes. -/
def journalCut (host : JournalHost) (journalId : String) (file : Bytes) : Option JournalCutV2 :=
  (scanValidatedJournal host journalId file).tornTail.map (⟨journalId, ·⟩)

/-- A root, with the journal files of its sessions. While it is being opened some sessions are
`waiting`, and the last cut may be `unrecorded`. `cuts` and `abandoned` are no data of the source:
all cuts ever made, and those whose open stopped before it recorded them. -/
structure HostedRootV2 where
  authority : AuthorityRootV2
  sessions : List (String × Bytes)
  waiting : List String
  unrecorded : Option JournalCutV2
  cuts : List JournalCutV2
  abandoned : List JournalCutV2
deriving DecidableEq

/-- What can happen to a root. `stop` is a crash at any point and the end of an open that fails;
`sessionFiles` are the files that installs, appends and collections of sessions leave. -/
inductive HostedRootEventV2 where
  | openAuthority
  | openSession
  | recordRepair (recordedUnixMs : Nat) (io : AppendIoV2) (kept : Nat)
  | append (entry : SignedJournalEntryV2) (io : AppendIoV2)
  | poisonedElsewhere
  | stop (inFlight : Option (SignedJournalEntryV2 × AppendIoV2)) (kept : Nat)
  | sessionFiles (sessions : List (String × Bytes))

namespace HostedRootV2

variable {host : JournalHost} (signer : HostedNodeSignerV2 host)

/-- The root is open: `open` has returned. -/
def opened (root : HostedRootV2) : Bool :=
  root.waiting.isEmpty && root.unrecorded.isNone

def stopped (root : HostedRootV2) (authority : AuthorityRootV2) : HostedRootV2 :=
  { root with
    authority, waiting := [], unrecorded := none
    abandoned := root.abandoned ++ root.unrecorded.toList }

def cut (root : HostedRootV2) (cut : Option JournalCutV2) : HostedRootV2 :=
  { root with unrecorded := cut, cuts := root.cuts ++ cut.toList }

/-- `initialize_journal` at the authority journal. When the debit cannot be restored the cut has
been made already. -/
def openAuthority (host : JournalHost) (root : HostedRootV2) : HostedRootV2 :=
  match root.authority, root.unrecorded with
  | .stopped file, none =>
      match initializeJournal host authorityJournalIdV2 file with
      | .error _ => root
      | .ok _ =>
          let root := root.cut (journalCut host authorityJournalIdV2 file)
          match AuthorityRootV2.openAuthority host file with
          | .stopped file => root.stopped (.stopped file)
          | .live store =>
              { root with authority := .live store, waiting := root.sessions.map Prod.fst }
  | _, _ => root

/-- `initialize_journal` at the next session. -/
def openSession (host : JournalHost) (root : HostedRootV2) : HostedRootV2 :=
  match root.unrecorded, root.waiting with
  | none, sessionId :: waiting =>
      match root.sessions.lookup sessionId with
      | none => { root with waiting }
      | some file =>
          match initializeJournal host sessionId file with
          | .error _ => root.stopped (root.authority.step host (.stop none 0))
          | .ok (_, repaired, _) =>
              { root.cut (journalCut host sessionId file) with
                waiting, sessions := root.sessions.map fun session =>
                  if session.1 = sessionId then (sessionId, repaired) else session }
  | _, _ => root

def repairReceipt (recordedUnixMs : Nat) (store : AuthorityStoreV2) (cut : JournalCutV2) :
    SignedJournalEntryV2 :=
  signer.issueJournalEntry ⟨hostedJournalEntrySchemaV2, authorityJournalIdV2,
    store.journal.head.nextSequence, store.journal.head.headSha256, recordedUnixMs, cut.event⟩

/-- `record_journal_tail_repair`; when it fails, so does the open. -/
def recordRepair (recordedUnixMs : Nat) (io : AppendIoV2) (kept : Nat) (root : HostedRootV2) :
    HostedRootV2 :=
  match root.authority, root.unrecorded with
  | .live store, some cut =>
      match store.appendReceipt host io (repairReceipt signer recordedUnixMs store cut) with
      | (store, .ok _) => { root with authority := .live store, unrecorded := none }
      | (store, .error _) =>
          root.stopped ((AuthorityRootV2.live store).step host (.stop none kept))
  | _, _ => root

def step (root : HostedRootV2) : HostedRootEventV2 → HostedRootV2
  | .openAuthority => root.openAuthority host
  | .openSession => root.openSession host
  | .recordRepair recordedUnixMs io kept => root.recordRepair signer recordedUnixMs io kept
  | .append entry io =>
      if root.opened then { root with authority := root.authority.step host (.append entry io) }
      else root
  | .poisonedElsewhere =>
      if root.opened then { root with authority := root.authority.step host .poisonedElsewhere }
      else root
  | .stop inFlight kept => root.stopped (root.authority.step host (.stop inFlight kept))
  | .sessionFiles sessions => if root.opened then { root with sessions } else root

/-- The root after a history that starts with an empty one. -/
def run (events : List HostedRootEventV2) : HostedRootV2 :=
  events.foldl (step signer) ⟨.stopped [], [], [], none, [], []⟩

end HostedRootV2

/-! ## What is recorded stays -/

/-- A signed entry names the cut. -/
def Evidenced (host : JournalHost) (cut : JournalCutV2) (journal : List SignedJournalEntryV2) : Prop :=
  ∃ entry ∈ journal, host.verify entry = true ∧ entry.entry.event = cut.event

instance (host : JournalHost) (cut : JournalCutV2) (journal : List SignedJournalEntryV2) :
    Decidable (Evidenced host cut journal) :=
  inferInstanceAs (Decidable (∃ entry ∈ journal, _))

abbrev AllEvidenced (host : JournalHost) (cuts : List JournalCutV2)
    (journal : List SignedJournalEntryV2) : Prop :=
  ∀ cut ∈ cuts, Evidenced host cut journal

variable {host : JournalHost}

theorem allEvidenced_kept (host : JournalHost) (cuts : List JournalCutV2)
    (e : SignedJournalEntryV2) : Kept (AllEvidenced host cuts) e := by
  intro jn all cut hm
  obtain ⟨o, hls, facts⟩ := all cut hm
  exact ⟨o, mem_append_left _ hls, facts⟩

namespace HostedRootV2

/-- The cuts made are on record, abandoned, or about to be recorded. -/
structure Accounts (host : JournalHost) (root : HostedRootV2) : Prop where
  recorded : ∃ recorded, root.authority.Sound host (AllEvidenced host recorded) ∧
    ∀ cut ∈ root.cuts, cut ∈ recorded ∨ cut ∈ root.abandoned ∨ root.unrecorded = some cut
  abandoned : ∀ cut ∈ root.abandoned, cut ∈ root.cuts
  unrecorded : ∀ cut ∈ root.unrecorded, cut ∈ root.cuts

variable {root : HostedRootV2} {authority : AuthorityRootV2}

theorem step_evidenced {rs : List JournalCutV2}
    (hsd : authority.Sound host (AllEvidenced host rs)) (ev : AuthorityEventV2) :
    (authority.step host ev).Sound host (AllEvidenced host rs) :=
  AuthorityRootV2.step_sound hsd ev fun e _ => allEvidenced_kept host rs e

theorem Accounts.moved (accs : root.Accounts host)
    (hsd : ∀ {hr}, root.authority.Sound host (AllEvidenced host hr) →
      authority.Sound host (AllEvidenced host hr)) :
    ({ root with authority } : HostedRootV2).Accounts host := by
  obtain ⟨hr, s, hk⟩ := accs.recorded
  exact ⟨⟨hr, hsd s, hk⟩, accs.abandoned, accs.unrecorded⟩

theorem Accounts.stopped (accs : root.Accounts host)
    (hsd : ∀ {hr}, root.authority.Sound host (AllEvidenced host hr) →
      authority.Sound host (AllEvidenced host hr)) :
    (root.stopped authority).Accounts host := by
  obtain ⟨hr, s, hk⟩ := accs.recorded
  refine ⟨⟨hr, hsd s, fun cut made => ?_⟩, fun cut hgv => ?_, nofun⟩
  · obtain hls | hgv | waits := hk cut made
    · exact .inl hls
    · exact .inr (.inl (mem_append_left _ hgv))
    · exact .inr (.inl (mem_append_right _ (by simp [waits])))
  · obtain hgv | waits := mem_append.mp hgv
    · exact accs.abandoned cut hgv
    · exact accs.unrecorded cut (Option.mem_toList.mp waits)

theorem Accounts.cut (accs : root.Accounts host) (hno : root.unrecorded = none)
    (cut : Option JournalCutV2) : (root.cut cut).Accounts host := by
  obtain ⟨hr, hsd, hk⟩ := accs.recorded
  refine ⟨⟨hr, hsd, fun o made => ?_⟩, fun o hgv => ?_, fun o waits => ?_⟩
  · obtain hear | now := mem_append.mp made
    · obtain hls | hgv | waits := hk o hear
      · exact .inl hls
      · exact .inr (.inl hgv)
      · simp [hno] at waits
    · exact .inr (.inr (Option.mem_toList.mp now))
  · exact mem_append_left _ (accs.abandoned o hgv)
  · exact mem_append_right _ (Option.mem_toList.mpr waits)

theorem Accounts.recordRepair (sgn : HostedNodeSignerV2 host) (accs : root.Accounts host)
    (ms : Nat) (io : AppendIoV2) (kept : Nat) :
    (root.recordRepair sgn ms io kept).Accounts host := by
  rw [HostedRootV2.recordRepair]
  split
  · rename_i st cut live waits
    obtain ⟨hr, hsd, hk⟩ := accs.recorded
    rw [live] at hsd
    change st.Sound host _ at hsd
    split
    · rename_i appended receipt done
      obtain ⟨rfl, hhe, t, hgn⟩ :=
        AuthorityStoreV2.appendReceipt_eq_ok hsd (allEvidenced_kept host hr _) done
      refine ⟨⟨cut :: hr, t.of_healthy hhe ?_, fun o made => ?_⟩, accs.abandoned, nofun⟩
      · refine forall_mem_cons.mpr ⟨?_, t.holds hhe⟩
        rw [hgn]
        exact ⟨_, mem_append_right _ (mem_singleton_self _), sgn.verify_issue _,
          by rw [repairReceipt, sgn.entry_issue]⟩
      · obtain hls | hgv | same := hk o made
        · exact .inl (mem_cons_of_mem _ hls)
        · exact .inr (.inl hgv)
        · exact .inl (by simp_all)
    · rename_i refused error done
      refine accs.stopped fun {hr} s => step_evidenced ?_ _
      rw [live] at s
      have t := AuthorityStoreV2.Sound.append s io
        (repairReceipt sgn ms st cut) (allEvidenced_kept host hr _)
      rwa [← AuthorityStoreV2.appendReceipt_fst, done] at t
  · exact accs

theorem Accounts.openAuthority (accs : root.Accounts host) :
    (root.openAuthority host).Accounts host := by
  rw [HostedRootV2.openAuthority]
  split
  · rename_i file stopped hno
    split
    · exact accs
    · have made := accs.cut hno (journalCut host authorityJournalIdV2 file)
      have opens {hr : List JournalCutV2} (hsd : root.authority.Sound host (AllEvidenced host hr)) :
          (AuthorityRootV2.openAuthority host file).Sound host (AllEvidenced host hr) := by
        rw [stopped] at hsd
        exact AuthorityRootV2.openAuthority_sound hsd
      dsimp only
      split
      · rename_i after hop
        exact made.stopped fun hsd => hop ▸ opens hsd
      · rename_i store hop
        have moved := made.moved fun hsd => hop ▸ opens hsd
        exact ⟨moved.recorded, moved.abandoned, moved.unrecorded⟩
  · exact accs

theorem Accounts.openSession (accs : root.Accounts host) : (root.openSession host).Accounts host := by
  rw [HostedRootV2.openSession]
  split
  · rename_i sessionId hwt hno _
    split
    · exact ⟨accs.recorded, accs.abandoned, accs.unrecorded⟩
    · split
      · exact accs.stopped fun hsd => step_evidenced hsd _
      · rename_i file _ _ _ _ _ _
        have made := accs.cut hno (journalCut host sessionId file)
        exact ⟨made.recorded, made.abandoned, made.unrecorded⟩
  · exact accs

end HostedRootV2

end Ostadix.Hosted
