import Ostadix.Fabric.Replay

/-! # What a query answers

A query scans the entries and answers at the first that shares its issuer and its nonce or attempt.
In a valid body no two entries share either, so the position of an entry does not matter: the entry
a query names decides its answer. -/

namespace Ostadix.Fabric

open Ostadix.Lib List

/-- The entry has the issuer, the attempt and the nonce of the query. -/
structure FabricAttemptQueryV1.Names (query : FabricAttemptQueryV1) (entry : FabricLedgerEntryV1) :
    Prop where
  issuer : entry.binding.issuerKeyId = query.issuerKeyId
  attempt : entry.binding.attempt = query.attempt
  nonce : entry.binding.leaseNonce = query.leaseNonce

/-- The answer that a named entry decides. -/
def FabricAttemptQueryV1.answer (query : FabricAttemptQueryV1) (principal : SemanticDigestV1)
    (entry : FabricLedgerEntryV1) : FabricLedgerQueryOutcomeV1 :=
  if entry.binding.submissionBindingSha256 = query.submissionBindingSha256 then
    if entry.binding.tlsClientPrincipalSha256 = principal then .found entry
    else .conflict ⟨.tlsPrincipalMismatch, entry.binding⟩
  else .conflict ⟨.queryBindingMismatch, entry.binding⟩

/-- The entries agree in all that a principal may learn: what is bound, and everything else of the
entries recorded for the principal. -/
def Indistinguishable (principal : SemanticDigestV1) (left right : FabricLedgerEntryV1) : Prop :=
  left.binding = right.binding ∧
    (left.binding.tlsClientPrincipalSha256 = principal → left = right)

section Query

variable {query : FabricAttemptQueryV1} {principal : SemanticDigestV1}
  {e : FabricLedgerEntryV1} {es : List FabricLedgerEntryV1}

/-- The scan stops at the first entry that names the query, or shares its nonce or attempt. -/
theorem queryEntries_cons_of_names (names : query.Names e) :
    queryEntries query principal (e :: es) = query.answer principal e := by
  simp only [queryEntries, names.issuer, names.attempt, names.nonce, beq_self_eq_true,
    Bool.and_self, if_true, FabricAttemptQueryV1.answer, beq_iff_eq, bne_iff_ne, ite_not]

theorem queryEntries_cons_of_apart (apart : e.binding.issuerKeyId = query.issuerKeyId →
      e.binding.leaseNonce ≠ query.leaseNonce ∧ e.binding.attempt ≠ query.attempt) :
    queryEntries query principal (e :: es) = queryEntries query principal es := by
  by_cases issuer : e.binding.issuerKeyId = query.issuerKeyId
  · obtain ⟨nonce, att⟩ := apart issuer
    simp [queryEntries, issuer, nonce, att]
  · simp [queryEntries, issuer]

/-- A named entry decides the answer wherever it stands. -/
theorem queryEntries_of_names (names : query.Names e) (given : e ∈ es)
    (unique : ∀ other ∈ es, Replays other.binding e.binding → other = e) :
    queryEntries query principal es = query.answer principal e := by
  induction es with
  | nil => cases given
  | cons first rest ih =>
    by_cases he : first = e
    · rw [he]
      exact queryEntries_cons_of_names names
    · have hl : e ∈ rest := (mem_cons.mp given).resolve_left fun equal =>
        he equal.symm
      rw [queryEntries_cons_of_apart]
      · exact ih hl (forall_mem_cons.mp unique).2
      · -- a shared nonce or attempt would make the first entry the named one
        intro issuer
        have issuer := issuer.trans names.issuer.symm
        constructor
        · intro nonce
          exact he (unique first mem_cons_self (.inl ⟨issuer, nonce.trans names.nonce.symm⟩))
        · intro attempt
          exact he (unique first mem_cons_self (.inr ⟨issuer, attempt.trans names.attempt.symm⟩))

theorem found_of_queryEntries (hf : queryEntries query principal es = .found e) :
    e ∈ es ∧ query.Names e ∧ e.binding.submissionBindingSha256 = query.submissionBindingSha256 ∧
      e.binding.tlsClientPrincipalSha256 = principal := by
  induction es with
  | nil => cases hf
  | cons first rest ih =>
    rw [queryEntries] at hf
    simp only [Bool.and_eq_true, beq_iff_eq, bne_iff_ne, ne_eq, ite_not] at hf
    split at hf
    · rename_i he
      split at hf
      · split at hf
        · cases hf
          exact ⟨mem_cons_self, ⟨he.1.1, he.1.2, he.2⟩, ‹_›, ‹_›⟩
        · cases hf
      · cases hf
    · split at hf
      · cases hf
      · split at hf
        · cases hf
        · obtain ⟨hm, answers⟩ := ih hf
          exact ⟨mem_cons_of_mem _ hm, answers⟩

theorem queryEntries_indistinguishable {oths : List FabricLedgerEntryV1}
    (same : List.Forall₂ (Indistinguishable principal) es oths) :
    queryEntries query principal oths = queryEntries query principal es := by
  induction same with
  | nil => rfl
  | @cons left right _ _ agree _ ih =>
    obtain ⟨hb, equal⟩ := agree
    rw [queryEntries, queryEntries, ih, ← hb]
    by_cases own : left.binding.tlsClientPrincipalSha256 = principal
    · rw [equal own]
    · simp [own]

end Query

/-- A query finds an entry exactly when the entry has its issuer, attempt, nonce and submission and
was recorded for the caller; an entry that the query names decides the answer; and the state of the
entries of other principals does not matter. -/
theorem query_answers {host : FabricHost} {body : FabricLedgerBodyV1}
    (valid : validateBody host body = .ok ()) (query : FabricAttemptQueryV1)
    (principal : SemanticDigestV1) :
    (∀ entry, queryEntries query principal body.entries = .found entry ↔
      entry ∈ body.entries ∧ query.Names entry ∧
        entry.binding.submissionBindingSha256 = query.submissionBindingSha256 ∧
        entry.binding.tlsClientPrincipalSha256 = principal) ∧
    (∀ entry ∈ body.entries, query.Names entry →
      queryEntries query principal body.entries = query.answer principal entry) ∧
    ∀ others, List.Forall₂ (Indistinguishable principal) body.entries others →
      queryEntries query principal others = queryEntries query principal body.entries := by
  have decides : ∀ entry ∈ body.entries, query.Names entry →
      queryEntries query principal body.entries = query.answer principal entry := by
    intro entry given names
    exact queryEntries_of_names names given fun other member replays =>
      eq_of_replays valid member given replays
  refine ⟨fun entry => ⟨found_of_queryEntries, ?_⟩, decides,
    fun others => queryEntries_indistinguishable⟩
  rintro ⟨given, names, submission, own⟩
  rw [decides entry given names, FabricAttemptQueryV1.answer, if_pos submission, if_pos own]

/-- The caller of the sample attempt finds it. -/
theorem sample_query_finds :
    validateBody sampleHost sampleBody = .ok () ∧
      queryEntries ⟨sampleSemanticDigest, sampleBinding.attempt, sampleSemanticDigest, sampleDigest⟩
        sampleSemanticDigest sampleBody.entries = .found (.new sampleBinding .received) := by
  have valid : validateBody sampleHost sampleBody = .ok () := rfl
  exact ⟨valid, ((query_answers valid _ _).1 _).mpr
    ⟨mem_cons_self, ⟨rfl, rfl, rfl⟩, rfl, rfl⟩⟩

end Ostadix.Fabric
