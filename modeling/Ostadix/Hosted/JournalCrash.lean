import Ostadix.Hosted.Journal

/-! # What reopening a journal yields

The scan of a file splits it into accepted frames and a remainder. An append that returned
success left exactly one more accepted frame; an append that failed left the file as it was, or
left a prefix of one frame behind and the store to be reopened. Reopening therefore finds every
acknowledged entry and at most one more. -/

namespace Ostadix.Hosted

open Ostadix.Lib Ostadix.Fabric List Option

variable {host : JournalHost} {journalId : String}

/-! ## Accepted frames -/

/-- `bytes` is a sequence of frames the scan accepts, from `first` on to `last`. -/
inductive AcceptedFrames (host : JournalHost) (journalId : String) :
    ScanStateV2 → Bytes → ScanStateV2 → Prop where
  | nil (state) : AcceptedFrames host journalId state [] state
  | cons {state next last payload rest} (short : payload.length ≤ maxHostedFrameBytes)
      (accepted : state.accept host journalId payload = .ok next)
      (tail : AcceptedFrames host journalId next rest last) :
      AcceptedFrames host journalId state (frame payload ++ rest) last

variable {payload : Bytes} {a1 last : ScanStateV2}

namespace AcceptedFrames

theorem trans {a1 mid last : ScanStateV2} {left right : Bytes}
    (ini : AcceptedFrames host journalId a1 left mid)
    (final : AcceptedFrames host journalId mid right last) :
    AcceptedFrames host journalId a1 (left ++ right) last := by
  induction ini with
  | nil => exact final
  | cons hsh ha _ ih =>
    rw [append_assoc]
    exact .cons hsh ha (ih final)

theorem single {s next : ScanStateV2} (hsh : payload.length ≤ maxHostedFrameBytes)
    (ha : s.accept host journalId payload = .ok next) :
    AcceptedFrames host journalId s (frame payload) next := by
  have one := AcceptedFrames.cons hsh ha (.nil next)
  rwa [append_nil] at one

end AcceptedFrames

/-- Everything an accepted frame satisfies. -/
structure AcceptedEntry (host : JournalHost) (journalId : String) (state : ScanStateV2)
    (payload : Bytes) (entry : SignedJournalEntryV2) : Prop where
  read : readHostedFrame host.codec payload = some entry
  verified : host.verify entry = true
  signer : entry.signerPublicKey = host.publicKeyHex
  session : entry.entry.sessionId = journalId
  sequence : entry.entry.sequence = state.expectedSequence
  chained : entry.entry.previousEntrySha256 = state.expectedPrevious
  located : validateJournalEventLocation journalId entry.entry.event = .ok ()
  fits : state.expectedSequence + 1 < 2 ^ 64

theorem ScanStateV2.accept_eq_ok {s next : ScanStateV2} :
    s.accept host journalId payload = .ok next ↔
      ∃ e, AcceptedEntry host journalId s payload e ∧
        next = s.after e (4 + payload.length) := by
  simp only [ScanStateV2.accept, bind_eq_ok, okOr_eq_ok, bailIf_eq_ok, mapError_eq_ok]
  constructor
  · rintro ⟨e, read, _, hver, _, sgn, _, chain, _, hloc, _, fits, done⟩
    simp only [Bool.not_eq_false', bne_eq_false_iff_eq, Bool.or_eq_false_iff,
      decide_eq_false_iff_not, Nat.not_le] at hver sgn chain fits
    refine ⟨e, ⟨read, hver, sgn, chain.1.1, chain.1.2, chain.2, hloc, fits⟩, ?_⟩
    exact (Except.ok.inj done).symm
  · rintro ⟨e, ha, rfl⟩
    refine ⟨e, ha.read, (), by simp [ha.verified], (), by simp [ha.signer], (),
      ?_, (), ha.located, (), ?_, rfl⟩
    · simp [ha.session, ha.sequence, ha.chained]
    · exact decide_eq_false (Nat.not_le.mpr ha.fits)

variable {last : ScanStateV2} {store : JournalStoreV2} {bytes : Bytes}
  {journal pending : List SignedJournalEntryV2} {synced left : Bytes}

/-- The loop variables keep count of the bytes. -/
theorem AcceptedFrames.offset (frs : AcceptedFrames host journalId a1 bytes last) :
    last.offset = a1.offset + bytes.length := by
  induction frs with
  | nil => rfl
  | cons short ha _ ih =>
    obtain ⟨e, _, rfl⟩ := ScanStateV2.accept_eq_ok.mp ha
    simp only [ih, length_append, length_frame, ScanStateV2.after]
    omega

theorem AcceptedFrames.offset_eq (frs : AcceptedFrames host journalId .start bytes last) :
    last.offset = bytes.length := by
  rw [frs.offset, ScanStateV2.start, Nat.zero_add]

/-! ## The scan -/

theorem maxHostedFrameBytes_narrow : maxHostedFrameBytes < 256 ^ 4 := by decide

/-- The scan passes over accepted frames; the fuel it has left still covers the rest. -/
theorem scanFrames_append (frs : AcceptedFrames host journalId a1 bytes last) (tl : Bytes)
    (oldBytes fuel : Nat) (hen : (bytes ++ tl).length < fuel) :
    ∃ left, tl.length < left ∧ scanFrames host journalId oldBytes fuel a1 (bytes ++ tl) =
        scanFrames host journalId oldBytes left last tl := by
  induction frs generalizing fuel with
  | nil => exact ⟨fuel, hen, rfl⟩
  | @cons s next last pl tail hsh ha _ ih =>
    obtain ⟨fuel, rfl⟩ : ∃ less, fuel = less + 1 := ⟨fuel - 1, by omega⟩
    rw [append_assoc, length_append, length_frame] at hen
    obtain ⟨left, covers, he⟩ := ih fuel (by omega)
    refine ⟨left, covers, ?_⟩
    have hf := frameAt_frame_append maxHostedFrameBytes_narrow hsh (tail ++ tl)
    have hnil : (frame pl ++ (tail ++ tl)).isEmpty = false := by
      simpa using fun empty _ _ => absurd empty (frame_ne_nil pl)
    rw [append_assoc, scanFrames, hnil, if_neg (by decide), hf]
    simp only [ha, he]

theorem scanValidatedJournal_clean {file : Bytes}
    (frs : AcceptedFrames host journalId .start file last) :
    scanValidatedJournal host journalId file = last.finished file.length := by
  obtain ⟨left, covers, he⟩ := scanFrames_append frs [] file.length (file.length + 1) (by simp)
  rw [append_nil] at he
  rw [scanValidatedJournal, he]
  obtain ⟨left, rfl⟩ : ∃ less, left = less + 1 := ⟨left - 1, by simp at covers; omega⟩
  rfl

theorem scanValidatedJournal_torn {file tail : Bytes}
    (frs : AcceptedFrames host journalId .start file last) (hnil : tail ≠ [])
    (hinc : frameAt maxHostedFrameBytes tail = .incomplete) :
    scanValidatedJournal host journalId (file ++ tail) = last.torn (file ++ tail).length := by
  obtain ⟨left, covers, he⟩ :=
    scanFrames_append frs tail (file ++ tail).length ((file ++ tail).length + 1) (by omega)
  rw [scanValidatedJournal, he]
  obtain ⟨left, rfl⟩ : ∃ less, left = less + 1 := ⟨left - 1, by omega⟩
  rw [scanFrames, if_neg (by simpa using hnil), hinc]

/-- On any bytes at all: the scan accepts some frames, and its verdict is about what follows the
last of them. -/
theorem scanFrames_cases (oldBytes : Nat) (fuel : Nat) (a1 : ScanStateV2) (bs : Bytes)
    (hen : bs.length < fuel) :
    ∃ last ha tail, bs = ha ++ tail ∧ AcceptedFrames host journalId a1 ha last ∧
      ((tail = [] ∧ scanFrames host journalId oldBytes fuel a1 bs = last.finished oldBytes) ∨
        (tail ≠ [] ∧ frameAt maxHostedFrameBytes tail = .incomplete ∧
          scanFrames host journalId oldBytes fuel a1 bs = last.torn oldBytes) ∨
        (tail ≠ [] ∧ frameAt maxHostedFrameBytes tail ≠ .incomplete ∧ ∃ corruption,
          scanFrames host journalId oldBytes fuel a1 bs = last.corrupt oldBytes corruption)) := by
  induction fuel generalizing a1 bs with
  | zero => omega
  | succ fuel ih =>
    cases bs with
    | nil => exact ⟨a1, [], [], rfl, .nil a1, .inl ⟨rfl, rfl⟩⟩
    | cons byte bs =>
      have hp : byte :: bs ≠ [] := cons_ne_nil _ _
      rw [scanFrames, if_neg (by simp)]
      cases hf : frameAt maxHostedFrameBytes (byte :: bs) with
      | incomplete =>
        exact ⟨a1, [], _, rfl, .nil a1, .inr (.inl ⟨hp, hf, rfl⟩)⟩
      | oversized =>
        exact ⟨a1, [], _, rfl, .nil a1, .inr (.inr ⟨hp, by simp [hf], _, rfl⟩)⟩
      | complete pl tl =>
        obtain ⟨whole, hsh⟩ := frameAt_eq_complete hf
        cases ha : a1.accept host journalId pl with
        | error corruption =>
          refine ⟨a1, [], _, rfl, .nil a1, .inr (.inr ⟨hp, by simp [hf], corruption, ?_⟩)⟩
          simp only [ha]
        | ok next =>
          have shorter := congrArg List.length whole
          rw [length_append, length_frame] at shorter
          obtain ⟨last, head, tail, split, frs, verdict⟩ := ih next tl (by omega)
          refine ⟨last, frame pl ++ head, tail, ?_, .cons hsh ha frs, ?_⟩
          · rw [whole, split, append_assoc]
          · simpa only [ha] using verdict

/-! ## The entries of a file -/

/-- The frames of a list of entries, one after the other. -/
def journalBytes (host : JournalHost) (entries : List SignedJournalEntryV2) : Bytes :=
  entries.flatMap fun entry => (canonicalHostedFrame host.codec entry).getD []

theorem readHostedFrame_eq_some {α : Type} [DecidableEq α] {codec : HostedCodec α} {msg : α}
    (short : payload.length ≤ maxHostedFrameBytes) :
    readHostedFrame codec payload = some msg ↔
      canonicalHostedFrame codec msg = some (frame payload) := by
  simp only [readHostedFrame, canonicalHostedFrame, bind_eq_bind, bind_eq_some_iff]
  constructor
  · rintro ⟨read, _, can, enc, he⟩
    split at he
    · rename_i exact
      obtain rfl := some.inj he
      subst exact
      exact ⟨can, enc, if_neg (by omega)⟩
    · cases he
  · rintro ⟨can, enc, framed⟩
    split at framed
    · cases framed
    · rename_i fits
      have he : frame can = frame payload := some.inj framed
      obtain rfl : can = payload := by
        have lengths := congrArg List.length he
        simp only [length_frame, Nat.add_left_cancel_iff] at lengths
        rw [frame, frame, lengths] at he
        exact append_cancel_left he
      exact ⟨msg, codec.decode_encode enc (by omega), can, enc, by simp⟩

theorem canonicalHostedFrame_eq_some {α : Type} {codec : HostedCodec α} {msg : α}
    (enc : canonicalHostedFrame codec msg = some bytes) :
    ∃ pl, bytes = frame pl ∧ pl.length ≤ maxHostedFrameBytes := by
  simp only [canonicalHostedFrame, bind_eq_bind, bind_eq_some_iff] at enc
  obtain ⟨pl, _, framed⟩ := enc
  split at framed
  · cases framed
  · exact ⟨pl, (some.inj framed).symm, by omega⟩

theorem AcceptedFrames.entries (frs : AcceptedFrames host journalId a1 bytes last) :
    ∃ added, last.entries = a1.entries ++ added ∧ bytes = journalBytes host added := by
  induction frs with
  | nil => exact ⟨[], by simp, rfl⟩
  | cons hsh ha _ ih =>
    obtain ⟨e, facts, rfl⟩ := ScanStateV2.accept_eq_ok.mp ha
    obtain ⟨added, es, bytes⟩ := ih
    have framed := (readHostedFrame_eq_some hsh).mp facts.read
    refine ⟨e :: added, by simp [es, ScanStateV2.after], ?_⟩
    rw [bytes, journalBytes, journalBytes, flatMap_cons, framed, getD_some]

/-! ## One append -/

/-- The head the scan reaches after `last`. -/
def ScanStateV2.head (last : ScanStateV2) : JournalHeadV2 :=
  ⟨last.expectedSequence, last.expectedPrevious, last.offset⟩

namespace JournalStoreV2

/-- The frame that is about to be written is one the scan will accept. -/
theorem frameToWrite_accepted {io : AppendIoV2} {e : SignedJournalEntryV2}
    (head : store.head = last.head) (writes : store.frameToWrite host journalId io e = .ok bytes) :
    store.reopenRequired = false ∧ store.file.length = store.head.bytes ∧
      ∃ pl, bytes = frame pl ∧ pl.length ≤ maxHostedFrameBytes ∧
        last.accept host journalId pl = .ok (last.after e bytes.length) := by
  simp only [frameToWrite, bind_eq_ok, okOr_eq_ok, bailIf_eq_ok] at writes
  obtain ⟨_, hhe, _, hver, _, session, _, sgn, _, hloc, _, _, _, chain, framed,
    enc, _, fits, _, _, _, len, _, _, done⟩ := writes
  obtain rfl := Except.ok.inj done
  simp only [Bool.not_eq_false', bne_eq_false_iff_eq, Bool.or_eq_false_iff,
    decide_eq_false_iff_not, Nat.not_le] at hver session sgn chain fits len
  rw [head] at chain fits
  obtain ⟨pl, rfl, hsh⟩ := canonicalHostedFrame_eq_some enc
  refine ⟨hhe, len, pl, rfl, hsh, ScanStateV2.accept_eq_ok.mpr ⟨e, ?_, ?_⟩⟩
  · exact ⟨(readHostedFrame_eq_some hsh).mpr enc, hver, sgn, session, chain.1, chain.2, hloc, fits⟩
  · rw [length_frame]

/-- A tail that was verified is the whole frame. -/
theorem verifyExactAppendedFrame_take {readable : Bool} {file bs : Bytes} {hwr : Nat}
    (hver : verifyExactAppendedFrame readable (file ++ bs.take hwr) file.length
      (file.length + bs.length) bs = true) : bs.take hwr = bs := by
  simp only [verifyExactAppendedFrame, Bool.and_eq_true, beq_iff_eq, length_append] at hver
  obtain ⟨⟨_, len⟩, _⟩ := hver
  exact take_of_length_le (by rw [length_take] at len; omega)

/-- What a write can leave: one more durable frame and the head behind it, the file as it was, or
a prefix of the frame and a store to be reopened. -/
theorem writeFrame_cases (io : AppendIoV2) (st : JournalStoreV2) (e : SignedJournalEntryV2)
    (bs : Bytes) :
    st.writeFrame io e bs = (⟨st.file ++ bs,
        ⟨st.head.nextSequence + 1, some e.entrySha256, st.file.length + bs.length⟩,
        st.reopenRequired⟩, .appended bs.length) ∨
      (∃ detail, st.writeFrame io e bs = (st, .refused detail)) ∨
      ∃ detail, st.writeFrame io e bs = (⟨st.file ++ bs.take io.written, st.head,
        true⟩, .refused detail) := by
  simp only [writeFrame, reconcileAppendedFrame, advance, poison]
  split
  · split
    · rename_i hver
      rw [verifyExactAppendedFrame_take hver]
      exact .inl rfl
    · exact .inr (.inr ⟨_, rfl⟩)
  · split
    · exact .inr (.inr ⟨_, rfl⟩)
    · split
      · rename_i he
        -- nothing of the frame reached the file
        have nothing : bs.take io.written = [] := by
          rw [length_append] at he
          exact length_eq_zero_iff.mp (by omega)
        rw [nothing, append_nil]
        exact .inr (.inl ⟨_, rfl⟩)
      · split
        · exact .inr (.inr ⟨_, rfl⟩)
        · rename_i hver
          simp only [Bool.not_eq_true, Bool.not_eq_false'] at hver
          rw [verifyExactAppendedFrame_take hver]
          split
          · exact .inr (.inr ⟨_, rfl⟩)
          · split
            · exact .inr (.inr ⟨_, rfl⟩)
            · split
              · exact .inr (.inr ⟨_, rfl⟩)
              · exact .inl rfl

end JournalStoreV2

/-! ## Histories of one open store -/

/-- An append to this journal, or a failure elsewhere in the store after which the store has to be
reopened. -/
inductive JournalStepV2 where
  | append (entry : SignedJournalEntryV2) (io : AppendIoV2)
  | poisonedElsewhere

namespace JournalStoreV2

def step (host : JournalHost) (journalId : String) (store : JournalStoreV2) :
    JournalStepV2 → JournalStoreV2 × Option (SignedJournalEntryV2 × AppendOutcomeV2)
  | .append entry io =>
      let appended := store.appendJournalFile host journalId io entry
      (appended.1, some (entry, appended.2))
  | .poisonedElsewhere => ({ store with reopenRequired := true }, none)

/-- The store after a history. -/
def run (host : JournalHost) (journalId : String) : JournalStoreV2 → List JournalStepV2 →
    JournalStoreV2 :=
  Machine.runState (step host journalId)

/-- The entry of an append that returned success. -/
def acknowledgedEntry : Option (SignedJournalEntryV2 × AppendOutcomeV2) → Option SignedJournalEntryV2
  | some (entry, .appended _) => some entry
  | _ => none

/-- The entry of an append that returned an error. -/
def refusedEntry : Option (SignedJournalEntryV2 × AppendOutcomeV2) → Option SignedJournalEntryV2
  | some (entry, .refused _) => some entry
  | _ => none

def acknowledged (host : JournalHost) (journalId : String) : JournalStoreV2 → List JournalStepV2 →
    List SignedJournalEntryV2 :=
  Machine.grants (step host journalId) acknowledgedEntry

def refused (host : JournalHost) (journalId : String) : JournalStoreV2 → List JournalStepV2 →
    List SignedJournalEntryV2 :=
  Machine.grants (step host journalId) refusedEntry

/-- A journal as the store registers it: its head is the head a scan of its file finds. -/
structure Registered (host : JournalHost) (journalId : String) (store : JournalStoreV2) : Prop where
  healthy : store.reopenRequired = false
  scanned : scanValidatedJournal host journalId store.file =
    ⟨(scanValidatedJournal host journalId store.file).entries, store.head, none, none⟩
  nonempty : journalId = authorityJournalIdV2 ∨
    (scanValidatedJournal host journalId store.file).entries ≠ []

/-- `bytes` is a prefix of the frame of one entry of `pending`, and the scan accepts that frame
after `last`. -/
def PrefixOf (host : JournalHost) (journalId : String) (last : ScanStateV2)
    (pending : List SignedJournalEntryV2) (bytes : Bytes) : Prop :=
  ∃ entry ∈ pending, ∃ payload next kept, payload.length ≤ maxHostedFrameBytes ∧
    last.accept host journalId payload = .ok next ∧ next.entries = last.entries ++ [entry] ∧
    bytes = (frame payload).take kept

/-- The file is the frames of `journal`, to which the head points, and, only if the store has to
be reopened, a prefix of the frame of one entry of `pending` behind them. -/
structure Tracks (host : JournalHost) (journalId : String) (store : JournalStoreV2)
    (journal pending : List SignedJournalEntryV2) (last : ScanStateV2) (synced left : Bytes) :
    Prop where
  file : store.file = synced ++ left
  frames : AcceptedFrames host journalId .start synced last
  entries : last.entries = journal
  head : store.head = last.head
  left : left = [] ∨ store.reopenRequired = true ∧ PrefixOf host journalId last pending left

theorem Registered.tracks (registered : store.Registered host journalId) :
    ∃ last, store.Tracks host journalId (scanValidatedJournal host journalId store.file).entries []
      last store.file [] := by
  obtain ⟨last, ha, tail, split, frs, verdict⟩ :=
    @scanFrames_cases host journalId store.file.length (store.file.length + 1) .start store.file
      (by omega)
  have scanned := registered.scanned
  rw [scanValidatedJournal] at scanned
  obtain ⟨rfl, hfin⟩ | ⟨_, _, torn⟩ | ⟨_, _, corruption, corrupt⟩ := verdict
  · rw [append_nil] at split
    subst split
    refine ⟨last, ⟨(append_nil _).symm, frs, ?_, ?_, .inl rfl⟩⟩
    · rw [scanValidatedJournal, hfin]
      rfl
    · have head := congrArg JournalScanV2.head (hfin.symm.trans scanned)
      rw [ScanStateV2.head, frs.offset_eq]
      exact head.symm
  · have torn' := congrArg JournalScanV2.tornTail (torn.symm.trans scanned)
    cases torn'
  · have corrupt' := congrArg JournalScanV2.corruption (corrupt.symm.trans scanned)
    cases corrupt'

theorem Tracks.left_eq_nil (htr : store.Tracks host journalId journal pending last synced left)
    (hhe : store.reopenRequired = false) : left = [] :=
  htr.left.resolve_right fun cut => by simp [hhe] at cut

theorem PrefixOf.mono {pend more : List SignedJournalEntryV2} (subset : pend ⊆ more)
    (cut : PrefixOf host journalId last pend bytes) :
    PrefixOf host journalId last more bytes := by
  obtain ⟨e, hm, tl⟩ := cut
  exact ⟨e, subset hm, tl⟩

/-- One append: the acknowledged entries grow by the entry and the store need not be reopened, or
the pending ones do. -/
theorem Tracks.append (htr : store.Tracks host journalId journal pending last synced left)
    (e : SignedJournalEntryV2) (io : AppendIoV2) :
    (∃ next bs, (store.appendJournalFile host journalId io e).2 = .appended bs ∧
      (store.appendJournalFile host journalId io e).1.Tracks host journalId (journal ++ [e])
        pending next ((store.appendJournalFile host journalId io e).1.file) [] ∧
      store.reopenRequired = false ∧
      (store.appendJournalFile host journalId io e).1.reopenRequired = false) ∨
    (∃ detail, (store.appendJournalFile host journalId io e).2 = .refused detail ∧
      ∃ left, (store.appendJournalFile host journalId io e).1.Tracks host journalId journal
        (pending ++ [e]) last synced left) := by
  unfold appendJournalFile
  cases writes : store.frameToWrite host journalId io e with
  | error detail =>
    refine .inr ⟨detail, rfl, left, htr.file, htr.frames, htr.entries, htr.head, ?_⟩
    exact htr.left.imp_right fun cut => ⟨cut.1, cut.2.mono (subset_append_left _ _)⟩
  | ok =>
    obtain ⟨hhe, len, pl, rfl, hsh, ha⟩ := frameToWrite_accepted htr.head writes
    -- a store that may still be written has nothing behind the synced frames
    obtain rfl := htr.left_eq_nil hhe
    have file : store.file = synced := by rw [htr.file, append_nil]
    obtain appended | ⟨detail, hun⟩ | ⟨detail, poisoned⟩ := store.writeFrame_cases io e (frame pl)
    · refine .inl ⟨last.after e (frame pl).length, _, congrArg Prod.snd appended, ?_⟩
      simp only [appended]
      refine ⟨⟨by simp, ?_, by simp [htr.entries, ScanStateV2.after], ?_, .inl rfl⟩, hhe, hhe⟩
      · rw [file]
        exact htr.frames.trans (.single hsh ha)
      · rw [htr.head, file, ← htr.frames.offset_eq]
        rfl
    · refine .inr ⟨detail, congrArg Prod.snd hun, [], ?_⟩
      simp only [hun]
      exact ⟨htr.file, htr.frames, htr.entries, htr.head, .inl rfl⟩
    · refine .inr ⟨detail, congrArg Prod.snd poisoned, (frame pl).take io.written, ?_⟩
      simp only [poisoned]
      refine ⟨by rw [file], htr.frames, htr.entries, htr.head, .inr ⟨rfl, ?_⟩⟩
      exact ⟨e, by simp, pl, _, io.written, hsh, ha, rfl, rfl⟩

/-- A whole history. -/
theorem Tracks.run (htr : store.Tracks host journalId journal pending last synced left)
    (steps : List JournalStepV2) :
    ∃ last synced left, (store.run host journalId steps).Tracks host journalId
      (journal ++ store.acknowledged host journalId steps)
      (pending ++ store.refused host journalId steps) last synced left := by
  induction steps generalizing store journal pending last synced left with
  | nil => exact ⟨last, synced, left, by simpa [JournalStoreV2.run, acknowledged, refused,
      Machine.runState, Machine.grants, Machine.runOutputs] using htr⟩
  | cons head steps ih =>
    cases head with
    | poisonedElsewhere =>
      have next : ({ store with reopenRequired := true } : JournalStoreV2).Tracks host journalId
          journal pending last synced left :=
        ⟨htr.file, htr.frames, htr.entries, htr.head, htr.left.imp_right fun cut => ⟨rfl, cut.2⟩⟩
      exact ih next
    | append e io =>
      obtain ⟨t, bs, oc, next, _⟩ | ⟨detail, oc, left, next⟩ := htr.append e io
      all_goals
        have tl := ih next
        rw [append_assoc] at tl
        simpa only [acknowledged, refused, Machine.grants_cons, JournalStoreV2.run, Machine.runState,
          step, oc, acknowledgedEntry, refusedEntry, toList, nil_append] using tl

end JournalStoreV2

/-! ## Reopening -/

/-- Opening finds exactly `journal` and registers it: what it cuts off, if anything, is an
incomplete frame, and it reports a torn tail exactly then. -/
structure Reopens (host : JournalHost) (journalId : String) (file : Bytes)
    (journal : List SignedJournalEntryV2) (removed : Bytes) : Prop where
  split : file = journalBytes host journal ++ removed
  opens : ∃ head, initializeJournal host journalId file =
      .ok (journal, journalBytes host journal, head) ∧
    JournalStoreV2.Registered host journalId ⟨journalBytes host journal, head, false⟩
  torn : (scanValidatedJournal host journalId file).tornTail.isSome = true ↔
    removed ≠ [] ∧ frameAt maxHostedFrameBytes removed = .incomplete
  incomplete : removed ≠ [] → frameAt maxHostedFrameBytes removed = .incomplete

/-- Accepted frames are a journal that can be registered under the head behind them. -/
theorem AcceptedFrames.registered {file : Bytes}
    (frs : AcceptedFrames host journalId .start file last)
    (hnil : journalId = authorityJournalIdV2 ∨ last.entries ≠ []) :
    JournalStoreV2.Registered host journalId ⟨file, last.head, false⟩ := by
  refine ⟨rfl, ?_, ?_⟩
  · rw [scanValidatedJournal_clean frs, ScanStateV2.finished, ScanStateV2.head, frs.offset_eq]
  · rwa [scanValidatedJournal_clean frs]

theorem reopens_clean {file : Bytes} (frs : AcceptedFrames host journalId .start file last)
    (hnil : journalId = authorityJournalIdV2 ∨ last.entries ≠ []) :
    Reopens host journalId file last.entries [] := by
  have scanned := scanValidatedJournal_clean frs
  have off := frs.offset_eq
  obtain ⟨added, es, bs⟩ := frs.entries
  obtain rfl : added = last.entries := by simp [es, ScanStateV2.start]
  have kept : (journalId != authorityJournalIdV2 && last.entries.isEmpty) = false := by
    simpa [or_iff_not_imp_left] using hnil
  refine ⟨by simp [← bs], ⟨last.head, ?_, bs ▸ frs.registered hnil⟩, ?_, by simp⟩
  · simp [initializeJournal, scanned, ScanStateV2.finished, ScanStateV2.head, off, kept, ← bs]
  · simp [scanned, ScanStateV2.finished]

theorem reopens_torn {file removed : Bytes} (frs : AcceptedFrames host journalId .start file last)
    (hnil : journalId = authorityJournalIdV2 ∨ last.entries ≠ []) (hp : removed ≠ [])
    (hinc : frameAt maxHostedFrameBytes removed = .incomplete) :
    Reopens host journalId (file ++ removed) last.entries removed := by
  have scanned := scanValidatedJournal_torn frs hp hinc
  have off := frs.offset_eq
  obtain ⟨added, es, bs⟩ := frs.entries
  obtain rfl : added = last.entries := by simp [es, ScanStateV2.start]
  have kept : (journalId != authorityJournalIdV2 && last.entries.isEmpty) = false := by
    simpa [or_iff_not_imp_left] using hnil
  have hpos := length_pos_iff.mpr hp
  refine ⟨by rw [← bs], ⟨last.head, ?_, bs ▸ frs.registered hnil⟩, ?_, fun _ => hinc⟩
  · have hun : ((file ++ removed).length != (file ++ removed).length ||
        decide ((file ++ removed).length ≤ last.offset)) = false := by
      simp only [bne_self_eq_false, Bool.false_or, decide_eq_false_iff_not, length_append]
      omega
    simp only [initializeJournal, scanned, ScanStateV2.torn, kept, hun, Bool.false_eq_true,
      if_false]
    rw [off, take_left, ← bs, ScanStateV2.head, off]
  · simp [scanned, ScanStateV2.torn, hp, hinc]

namespace JournalStoreV2

/-- What a crash leaves is the synced frames and a prefix of one frame, whether an append was in
flight or an earlier one left the store to be reopened. -/
theorem Tracks.crash (htr : store.Tracks host journalId journal pending last synced left)
    (inFlight : Option (SignedJournalEntryV2 × AppendIoV2)) (kept : Nat) :
    store.crash host journalId inFlight kept = synced ∨ ∃ left,
      PrefixOf host journalId last (pending ++ (inFlight.map Prod.fst).toList) left ∧
        store.crash host journalId inFlight kept = synced ++ left := by
  have bytes : store.head.bytes = synced.length := by
    rw [htr.head, ScanStateV2.head, htr.frames.offset_eq]
  cases writing : inFlight.bind fun append =>
      (store.frameToWrite host journalId append.2 append.1).toOption with
  | none =>
    have crashed : store.crash host journalId inFlight kept = synced ++ left.take kept := by
      simp only [JournalStoreV2.crash, writing, htr.file, bytes]
      rw [take_append, Nat.add_sub_cancel_left, take_of_length_le (by omega)]
    obtain rfl | ⟨_, e, hm, pl, next, cut, hsh, ha, es, rfl⟩ := htr.left
    · left
      simpa using crashed
    · right
      refine ⟨_, ⟨e, by simp [hm], pl, next, min kept cut, hsh, ha, es, rfl⟩, ?_⟩
      rw [crashed, take_take]
  | some hwr =>
    obtain ⟨⟨e, io⟩, rfl, hf⟩ := bind_eq_some_iff.mp writing
    have writes : store.frameToWrite host journalId io e = .ok hwr := by
      cases r : store.frameToWrite host journalId io e with
      | error => simp [r, Except.toOption] at hf
      | ok => simpa [r, Except.toOption] using hf
    obtain ⟨hhe, _, pl, rfl, hsh, ha⟩ := frameToWrite_accepted htr.head writes
    obtain rfl := htr.left_eq_nil hhe
    right
    refine ⟨_, ⟨e, by simp, pl, _, kept, hsh, ha, rfl, rfl⟩, ?_⟩
    simp only [JournalStoreV2.crash, writing, htr.file, append_nil]

/-- The cached head of a store that need not be reopened is the head a scan finds. -/
theorem Tracks.scanned (htr : store.Tracks host journalId journal pending last synced left)
    (hhe : store.reopenRequired = false) :
    scanValidatedJournal host journalId store.file = ⟨journal, store.head, none, none⟩ := by
  obtain rfl := htr.left_eq_nil hhe
  have file : store.file = synced := by rw [htr.file, append_nil]
  rw [file, scanValidatedJournal_clean htr.frames, ScanStateV2.finished,
    ← htr.frames.offset_eq, htr.entries, htr.head, ScanStateV2.head]

end JournalStoreV2

/-- An append without faults. -/
def faultless : AppendIoV2 :=
  ⟨true, true, 5, true, true, true, true, true, true, true, true, true, true⟩

end Ostadix.Hosted
