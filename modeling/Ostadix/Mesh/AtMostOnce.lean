import Ostadix.Mesh.Dispatch
import Ostadix.Mesh.Provenance

/-! # A route is run at most once

In a dispatch whose island is not declared idempotent every attempt before the last was proven not
to have started: its request was never sent, the only call of it was rejected, or its coordinate
was fenced. The histories of the nodes are whole
histories, so a request that arrives after the dispatch has moved on is among their events. -/

namespace Ostadix.Mesh

open Ostadix.Lib Ostadix.Fabric MeshNodeV1 List

/-! ## The island of a route -/

/-- A route names a prerequisite. -/
def ProjectBundle.Requires (bundle : ProjectBundle) (routeId prerequisite : String) : Prop :=
  ∃ route, bundle.route routeId = some route ∧ prerequisite ∈ route.prerequisites

/-- A member of the island of the route does not declare idempotent continuation. -/
def ProjectBundle.IslandUnproven (bundle : ProjectBundle) (routeId : String) : Prop :=
  ∃ member route, Relation.ReflTransGen bundle.Requires routeId member ∧
    bundle.route member = some route ∧ route.failureContinuation ≠ .declaredIdempotent

/-- Every id that was seen on the way was collected, with its prerequisites seen as well. -/
structure RouteVisit.Follows (bundle : ProjectBundle) (before after : RouteVisit) : Prop where
  seen : before.seen ⊆ after.seen
  routes : before.routes ⊆ after.routes
  followed : ∀ id ∈ after.seen, id ∈ before.seen ∨ ∃ route, bundle.route id = some route ∧
    route ∈ after.routes ∧ ∀ prerequisite ∈ route.prerequisites, prerequisite ∈ after.seen

section Island

variable {bundle : ProjectBundle}

theorem RouteVisit.Follows.trans {first x2 third : RouteVisit}
    (s : Follows bundle first x2) (t : Follows bundle x2 third) :
    Follows bundle first third := by
  refine ⟨s.seen.trans t.seen, fun _ hgv => t.routes (s.routes hgv), ?_⟩
  intro id seen
  obtain hear | hf := t.followed id seen
  · obtain first | ⟨route, hf, collected, hcl⟩ := s.followed id hear
    · exact .inl first
    · exact .inr ⟨route, hf, t.routes collected, fun _ hgv => t.seen (hcl _ hgv)⟩
  · exact .inr hf

variable {s t : RouteVisit}

theorem foldlM_follows {step : RouteVisit → String → Result RouteVisit} {ids : List String}
    (follows : ∀ s id t, step s id = .ok t → RouteVisit.Follows bundle s t ∧ id ∈ t.seen)
    (hvis : ids.foldlM step s = .ok t) :
    RouteVisit.Follows bundle s t ∧ ∀ id ∈ ids, id ∈ t.seen := by
  induction ids generalizing s with
  | nil =>
    cases hvis
    exact ⟨⟨subset_rfl, fun _ hgv => hgv, fun _ seen => .inl seen⟩, nofun⟩
  | cons id ids ih =>
    rw [foldlM_cons] at hvis
    obtain ⟨_, first, tl⟩ := bind_eq_ok.mp hvis
    obtain ⟨toMiddle, hh⟩ := follows _ _ _ first
    obtain ⟨toAfter, hl⟩ := ih tl
    refine ⟨toMiddle.trans toAfter, ?_⟩
    intro o hgv
    obtain rfl | hgv := mem_cons.mp hgv
    · exact toAfter.seen hh
    · exact hl o hgv

theorem visit_follows {d : Nat} {id : String} (hvis : visit bundle d s id = .ok t) :
    RouteVisit.Follows bundle s t ∧ id ∈ t.seen := by
  induction d generalizing s t id with
  | zero => cases hvis
  | succ d ih =>
    rw [visit] at hvis
    split at hvis
    · rename_i already
      cases hvis
      exact ⟨⟨subset_rfl, fun _ hgv => hgv, fun _ seen => .inl seen⟩, already⟩
    · split at hvis
      · cases hvis
      · rename_i route hf
        obtain ⟨mid, walked, he⟩ := bind_eq_ok.mp hvis
        cases he
        obtain ⟨follows, hcl⟩ := foldlM_follows (fun _ _ _ => ih) walked
        have hh : id ∈ mid.seen := follows.seen (Finset.mem_insert_self _ _)
        refine ⟨⟨(Finset.subset_insert _ _).trans follows.seen,
          fun _ hgv => mem_append_left _ (follows.routes hgv), ?_⟩, hh⟩
        intro o seen
        obtain hear | ⟨next, foundNext, collected, prerequisites⟩ := follows.followed o seen
        · obtain rfl | hear := Finset.mem_insert.mp hear
          · exact .inr ⟨route, hf, by simp, hcl⟩
          · exact .inl hear
        · exact .inr ⟨next, foundNext, mem_append_left _ collected, prerequisites⟩

/-- Every member of the island was found and collected. -/
theorem collected_of_visit {d : Nat} {routeId id : String} {island : RouteVisit}
    (hvis : visit bundle d ⟨∅, []⟩ routeId = .ok island)
    (reaches : Relation.ReflTransGen bundle.Requires routeId id) :
    ∃ route, bundle.route id = some route ∧ route ∈ island.routes := by
  obtain ⟨follows, st0⟩ := visit_follows hvis
  have seen : id ∈ island.seen := by
    induction reaches with
    | refl => exact st0
    | tail _ requires ih =>
      obtain ⟨route, hf, hls⟩ := requires
      obtain hear | ⟨_, foundOther, _, hcl⟩ := follows.followed _ ih
      · cases hear
      · cases hf.symm.trans foundOther
        exact hcl _ hls
  obtain hear | ⟨route, hf, hgv, _⟩ := follows.followed _ seen
  · cases hear
  · exact ⟨route, hf, hgv⟩

/-- A contract other than `unproven` covers the whole island. -/
theorem unproven_of_island {routeId : String} {replay : BranchReplayContract}
    (unproven : bundle.IslandUnproven routeId)
    (contract : branchReplayContract bundle routeId = .ok replay) : replay = .unproven := by
  obtain ⟨_, route, hre, hf, undeclared⟩ := unproven
  obtain ⟨island, hvis, he⟩ := bind_eq_ok.mp contract
  obtain ⟨_, foundOther, hgv⟩ := collected_of_visit hvis hre
  cases hf.symm.trans foundOther
  have notAll : island.routes.all
      (fun route => route.failureContinuation = .declaredIdempotent) = false := by
    rw [all_eq_false]
    exact ⟨route, hgv, by simpa using undeclared⟩
  rw [notAll] at he
  cases he
  rfl

/-- The routes of the bundle that were not seen. -/
def RouteVisit.unseen (bundle : ProjectBundle) (before : RouteVisit) : Nat :=
  ((bundle.routes.map RouteSpec.id).toFinset \ before.seen).card

theorem unseen_le_of_subset (seen : s.seen ⊆ t.seen) : t.unseen bundle ≤ s.unseen bundle :=
  Finset.card_le_card (Finset.sdiff_subset_sdiff subset_rfl seen)

/-- The walk met a route that is missing, or collected only routes of the island. -/
def Walked (bundle : ProjectBundle) (island : String → Prop) : Result RouteVisit → Prop
  | .error message => ∃ missing, island missing ∧ bundle.route missing = none ∧
      message = s!"mesh route `{missing}` is missing from its bundle"
  | .ok after => ∀ route ∈ after.routes, ∃ member, island member ∧ bundle.route member = some route

theorem Walked.bind {island : String → Prop} {act : Result RouteVisit}
    {next : RouteVisit → Result RouteVisit} (walked : Walked bundle island act)
    (rest : ∀ t, act = .ok t → Walked bundle island (.ok t) → Walked bundle island (next t)) :
    Walked bundle island (act >>= next) := by
  cases act with
  | error => exact walked
  | ok t => exact rest t rfl walked

/-- The bound on the depth is never met: `visit` fails only at a route that is missing. -/
theorem walked_visit {island : String → Prop}
    (closed : ∀ id next, island id → bundle.Requires id next → island next) {d : Nat} {id : String}
    (hen : s.unseen bundle < d) (walked : Walked bundle island (.ok s)) (hid : island id) :
    Walked bundle island (visit bundle d s id) := by
  induction d generalizing s id with
  | zero => omega
  | succ d ih =>
    rw [visit]
    split
    · exact walked
    · rename_i new
      split
      · rename_i missing
        exact ⟨id, hid, missing, rfl⟩
      · rename_i route hf
        have hls : id ∈ bundle.routes.map RouteSpec.id :=
          mem_map.mpr ⟨route, mem_of_find?_eq_some hf, by simpa using find?_some hf⟩
        have fewer : RouteVisit.unseen bundle ⟨insert id s.seen, s.routes⟩ < d := by
          have lt := Finset.card_erase_lt_of_mem (Finset.mem_sdiff.mpr ⟨mem_toFinset.mpr hls, new⟩)
          rw [← Finset.sdiff_insert] at lt
          exact lt.trans_le (Nat.le_of_lt_succ hen)
        -- a prerequisite is visited after others, which only adds to what was seen
        have walks (ids) (named : ids ⊆ route.prerequisites) (st0 : RouteVisit)
            (fewer : st0.unseen bundle < d) (walked : Walked bundle island (.ok st0)) :
            Walked bundle island (ids.foldlM (visit bundle d) st0) := by
          induction ids generalizing st0 with
          | nil => exact walked
          | cons first rest loop =>
            have hreq := closed id first hid ⟨route, hf, named mem_cons_self⟩
            rw [foldlM_cons]
            refine (ih fewer walked hreq).bind fun next visited => ?_
            exact loop (fun _ hm => named (mem_cons_of_mem _ hm)) next
              ((unseen_le_of_subset (visit_follows visited).1.seen).trans_lt fewer)
        refine (walks _ (Subset.refl _) _ fewer walked).bind fun t _ walked o hgv => ?_
        obtain hgv | hgv := mem_append.mp hgv
        · exact walked o hgv
        · cases mem_singleton.mp hgv
          exact ⟨id, hid, hf⟩

/-- The contract of a branch fails exactly at an island with a missing route, and is `unproven`
exactly if a member of the island does not declare idempotent continuation. -/
theorem branchReplayContract_exact (bundle : ProjectBundle) (routeId : String) :
    (∃ missing, Relation.ReflTransGen bundle.Requires routeId missing ∧
      bundle.route missing = none ∧ branchReplayContract bundle routeId =
        .error s!"mesh route `{missing}` is missing from its bundle") ∨
    (∀ member, Relation.ReflTransGen bundle.Requires routeId member → bundle.route member ≠ none) ∧
      ∃ replay, branchReplayContract bundle routeId = .ok replay ∧
        (replay = .unproven ↔ bundle.IslandUnproven routeId) := by
  have bounded : RouteVisit.unseen bundle ⟨∅, []⟩ ≤ bundle.routes.length := by
    simpa [RouteVisit.unseen] using (bundle.routes.map RouteSpec.id).toFinset_card_le
  have walked := walked_visit (fun _ _ => Relation.ReflTransGen.tail)
    (Nat.lt_succ_of_le bounded) (forall_mem_nil _) (.refl : Relation.ReflTransGen _ routeId routeId)
  have contract := branchReplayContract.eq_1 bundle routeId
  cases hvis : visit bundle (bundle.routes.length + 1) ⟨∅, []⟩ routeId with
  | error err =>
    rw [hvis] at walked contract
    obtain ⟨missing, reaches, hab, rfl⟩ := walked
    exact .inl ⟨missing, reaches, hab, contract⟩
  | ok island =>
    rw [hvis] at walked contract
    refine .inr ⟨fun member reaches => ?_, _, contract, ?_, fun unproven =>
      unproven_of_island unproven contract⟩
    · obtain ⟨route, hf, -⟩ := collected_of_visit hvis reaches
      simp [hf]
    · split
      · rintro ⟨⟩
      · rename_i notAll
        simp only [all_eq_true, not_forall, decide_eq_true_eq] at notAll
        obtain ⟨route, hgv, undeclared⟩ := notAll
        obtain ⟨member, reaches, hf⟩ := walked route hgv
        exact fun _ => ⟨member, route, reaches, hf, undeclared⟩

end Island

/-! ## Answers and what they prove -/

/-- The answer was given by the node: to a call of the request, or for a stream that it could not
read and closed. -/
def Served (digests : MeshDigestsV1) (history : List MeshEventV1) (request : MeshRequestV1)
    (answer : MeshNodeResult MeshResponseV1) : Prop :=
  (∃ id, .invoked id request ∈ outputs digests fresh history ∧
    .response id answer ∈ outputs digests fresh history) ∨
  ∃ message, answer = .error (meshError "invalid-frame" message false)

def ServedStream (digests : MeshDigestsV1) (history : List MeshEventV1) (stream : MeshStreamV1) :
    Prop :=
  ∀ request answer, stream request = .answered answer → Served digests history request answer

/-- The streams of one attempt. -/
def MeshAttemptInputV1.streams (input : MeshAttemptInputV1) : List MeshStreamV1 :=
  input.submit :: input.fence ::
    input.polls.flatMap fun poll => [poll.actorStream, poll.recoveredStream]

def MeshRequestV1.actor : MeshRequestV1 → MeshActorIdV1
  | .executeActor spec => spec.actor
  | .actorStatus actorRef | .cancelActor actorRef | .fenceActorIfAbsent actorRef => actorRef.actor

/-- The node answered with the status of the actor. -/
def Reported (digests : MeshDigestsV1) (history : List MeshEventV1) (actor : MeshActorIdV1)
    (status : MeshActorStatusV1) : Prop :=
  status.actor = actor ∧ ∃ id response, response.status = some status ∧
    .response id (.ok response) ∈ outputs digests fresh history

/-- The result is what a run of the actor left: the bytes it stored decode to it. -/
def Produced {Output : Type} (digests : MeshDigestsV1) (results : RouteResultsV1 Output)
    (history : List MeshEventV1) (actor : MeshActorIdV1) (result : Output) : Prop :=
  ∃ spec stored, spec.actor = actor ∧ Ran digests history spec stored ∧
    ∀ bytes, results.forBytes bytes = stored.artifact → results.fromSlice bytes = .ok result

section Calls

variable {ds : MeshDigestsV1} {history : List MeshEventV1} {req : MeshRequestV1}
  {call : MeshCallV1} {stream : MeshStreamV1} {spec : MeshActorSpecV1} {ref : MeshActorRefV1}

variable {resp : MeshResponseV1} {failure : MeshClientRequestError} {st : MeshActorStatusV1}

theorem answered_of_sendRequest (sent : sendRequest ds req call = .ok resp) :
    call = .answered (.ok resp) ∧ validateMeshResponse ds req (.ok resp) = .ok () := by
  obtain ⟨_, _, sent⟩ := bind_eq_ok.mp sent
  cases call with
  | unsent | lost => cases sent
  | answered =>
    obtain ⟨_, hv, hgv⟩ := bind_eq_ok.mp sent
    rw [mapError_eq_ok] at hv hgv
    subst hgv
    exact ⟨rfl, hv⟩

theorem rejected_of_sendRequest {stage : MeshRejectionStageV1}
    (sent : sendRequest ds req call = .error failure) (hrej : failure.rejectionStage = some stage) :
    ∃ err, call = .answered (.error err) ∧ err.stage = stage := by
  obtain unfit | ⟨_, _, sent⟩ := bind_eq_error.mp sent
  · obtain ⟨err, _, rfl⟩ := mapError_eq_error.mp unfit
    cases hrej
  · cases call with
    | unsent | lost => cases sent; cases hrej
    | answered =>
      obtain unmatched | ⟨_, _, hgv⟩ := bind_eq_error.mp sent
      · obtain ⟨err, _, rfl⟩ := mapError_eq_error.mp unmatched
        cases hrej
      · obtain ⟨err, rfl, rfl⟩ := mapError_eq_error.mp hgv
        cases hrej
        exact ⟨err, rfl, rfl⟩

theorem unsent_of_sendRequest (hv : req.validate = .ok ())
    (sent : sendRequest ds req call = .error failure)
    (preSend : failure.disposition = .preSend) : call.onWire = false := by
  simp only [sendRequest, hv, mapError_ok, ok_bind] at sent
  cases call with
  | unsent => rfl
  | lost => cases sent; cases preSend
  | answered =>
    obtain unmatched | ⟨_, _, hgv⟩ := bind_eq_error.mp sent
    · obtain ⟨err, _, rfl⟩ := mapError_eq_error.mp unmatched
      cases preSend
    · obtain ⟨err, _, rfl⟩ := mapError_eq_error.mp hgv
      cases preSend

theorem response_of_served (served : Served ds history req (.ok resp)) :
    ∃ id, .response id (.ok resp) ∈ outputs ds fresh history := by
  obtain ⟨id, _, hgv⟩ | ⟨_, bad⟩ := served
  · exact ⟨id, hgv⟩
  · cases bad

theorem actor_of_validateMeshResponse (hv : validateMeshResponse ds req (.ok resp) = .ok ())
    (hcar : resp.status = some st) : st.actor = req.actor := by
  have actorOf {st : MeshActorStatusV1} {ref : MeshActorRefV1}
      (he : st.actorRef = ref) : st.actor = ref.actor :=
    congrArg MeshActorRefV1.actor he
  cases req <;> rcases resp with st | cancellation | fence | fence <;> cases hcar <;>
    simp only [validateMeshResponse, bind_eq_ok, bailIf_eq_ok, bne_eq_false_iff_eq,
      reduceCtorEq] at hv
  · exact hv.choose_spec.1
  · exact actorOf hv.choose_spec.1
  · exact actorOf hv.choose_spec.1
  · exact actorOf hv.choose_spec.1

section

variable (served : ServedStream ds history stream)

include served

theorem reported_of_sendRequest (sent : sendRequest ds req (stream req) = .ok resp)
    (hcar : resp.status = some st) : Reported ds history req.actor st := by
  obtain ⟨hans, hv⟩ := answered_of_sendRequest sent
  obtain ⟨id, hgv⟩ := response_of_served (served _ _ hans)
  exact ⟨actor_of_validateMeshResponse hv hcar, id, resp, hcar, hgv⟩

theorem reported_of_executeActor (sent : executeActor ds stream spec = .ok st) :
    Reported ds history spec.actor st := by
  obtain ⟨resp, sent, matched⟩ := bind_eq_ok.mp sent
  cases resp <;> cases matched
  exact reported_of_sendRequest served sent rfl

theorem reported_of_actorStatus (sent : actorStatus ds stream ref = .ok st) :
    Reported ds history ref.actor st := by
  obtain ⟨resp, sent, matched⟩ := bind_eq_ok.mp sent
  cases resp <;> cases matched
  exact reported_of_sendRequest served sent rfl

theorem reported_of_cancelActor {cancellation : MeshActorCancellationV1}
    (sent : cancelActor ds stream ref = .ok cancellation) :
    Reported ds history ref.actor cancellation.status := by
  obtain ⟨resp, sent, matched⟩ := bind_eq_ok.mp sent
  cases resp <;> cases matched
  exact reported_of_sendRequest served sent rfl

/-- A fence reports the actor, or proves that it never starts. -/
theorem fenced_of_fenceActorIfAbsent {fence : MeshActorFenceV1}
    (sent : fenceActorIfAbsent ds stream ref = .ok fence) :
    match fence with
    | .existing st => Reported ds history ref.actor st
    | .fencedAbsent _ => ref.actor ∉ startedActors ds history := by
  obtain ⟨resp, sent, matched⟩ := bind_eq_ok.mp sent
  cases resp <;> cases matched
  cases fence with
  | existing => exact reported_of_sendRequest served sent rfl
  | fencedAbsent =>
    obtain ⟨hans, hv⟩ := answered_of_sendRequest sent
    obtain ⟨_, hgv⟩ := response_of_served (served _ _ hans)
    simp only [validateMeshResponse, bind_eq_ok, bailIf_eq_ok, bne_eq_false_iff_eq] at hv
    obtain rfl := hv.choose_spec.1
    exact not_started_of_fenced hgv

end

/-- The threads of a node that were called to execute the spec. -/
def executions (digests : MeshDigestsV1) (history : List MeshEventV1) (spec : MeshActorSpecV1) :
    List Nat :=
  (outputs digests fresh history).filterMap fun
    | .invoked id (.executeActor given) => if given = spec then some id else none
    | _ => none

theorem mem_executions {id : Nat} : id ∈ executions ds history spec ↔
    .invoked id (.executeActor spec) ∈ outputs ds fresh history := by
  rw [executions, mem_filterMap]
  constructor
  · rintro ⟨_, hgv, he⟩
    split at he
    · split at he
      · rename_i heq
        cases he
        exact heq ▸ hgv
      · cases he
    · cases he
  · intro hgv
    exact ⟨_, hgv, if_pos rfl⟩

theorem unsent_of_executeActor (named : spec.actorRef ds = .ok ref)
    (sent : executeActor ds stream spec = .error failure)
    (preSend : failure.disposition = .preSend) :
    (stream (.executeActor spec)).onWire = false := by
  obtain ⟨_, dg, _⟩ := bind_eq_ok.mp named
  obtain ⟨_, hv, _⟩ := bind_eq_ok.mp dg
  have hv : MeshRequestV1.validate (.executeActor spec) = .ok () := hv
  obtain hfl | ⟨resp, _, unreachable⟩ := bind_eq_error.mp sent
  · exact unsent_of_sendRequest hv hfl preSend
  · cases resp <;> cases unreachable <;> cases preSend

/-- The spec is called at most once, and no other spec under its actor. -/
structure Sole (digests : MeshDigestsV1) (history : List MeshEventV1) (spec : MeshActorSpecV1) :
    Prop where
  once : (executions digests history spec).length ≤ 1
  only : ∀ other : MeshActorSpecV1, other.actor = spec.actor →
    executions digests history other ≠ [] → other = spec

/-- The rejection of the only call for a spec proves that it never starts. -/
theorem not_started_of_executeActor (served : ServedStream ds history stream)
    (sole : Sole ds history spec) (sent : executeActor ds stream spec = .error failure)
    (hrej : failure.rejectionStage = some .preAdmission) :
    spec.actor ∉ startedActors ds history := by
  have hfl : sendRequest ds (.executeActor spec) (stream (.executeActor spec)) =
      .error failure := by
    obtain hfl | ⟨resp, _, unreachable⟩ := bind_eq_error.mp sent
    · exact hfl
    · cases resp <;> cases unreachable <;> cases hrej
  obtain ⟨_, hans, stage⟩ := rejected_of_sendRequest hfl hrej
  intro hstd
  obtain ⟨o, hgv, begun, he⟩ := mem_startedActors.mp hstd
  have called := mem_executions.mpr (invoked_of_started begun)
  obtain rfl := sole.only hgv he (ne_nil_of_mem called)
  obtain ⟨id, invoked, resp⟩ | ⟨_, hcl⟩ := served _ _ hans
  · have alone : id = o := by
      have first := mem_executions.mpr invoked
      have once := sole.once
      generalize executions ds history hgv = calls at once first called
      match calls, once with
      | [call], _ => exact (mem_singleton.mp first).trans (mem_singleton.mp called).symm
    subst alone
    exact not_started_of_error resp hgv begun
  · cases hcl
    cases stage

end Calls

/-! ## One attempt -/

variable {actor : MeshActorIdV1}

section Attempt

variable {Node Output : Type} {ds : MeshDigestsV1} {rs : RouteResultsV1 Output}
  {history : List MeshEventV1} {ref : MeshActorRefV1} {policy : RemotePollPolicy}
  {responses : Nat → Result MeshResultChunkV1} {st : MeshActorStatusV1} {peer : ResolvedMeshPeer Node}

/-- What is fetched for a stored result is what its bytes decode to. -/
theorem decoded_of_fetchActorResult {hst : MeshActorResultV1} {r : Output}
    (fetched : fetchActorResult rs ref hst policy responses = .ok r)
    (bs : List UInt8) (named : rs.forBytes bs = hst.artifact) :
    rs.fromSlice bs = .ok r := by
  simp only [fetchActorResult, bind_eq_ok, bailIf_eq_ok, bne_eq_false_iff_eq, mapError_eq_ok, pure,
    Except.pure, Except.ok.injEq] at fetched
  obtain ⟨_, _, _, _, _, hobs, _, read, _, _, rfl⟩ := fetched
  rw [rs.forBytes_injective (named.trans hobs.symm)]
  exact read

theorem produced_of_reported {res : MeshActorResultV1}
    {r : Output} (reported : Reported ds history actor st) (hsuc : st.phase = .succeeded res)
    (fetched : fetchActorResult rs ref res policy responses = .ok r) :
    Produced ds rs history actor r := by
  obtain ⟨rfl, _, _, hcar, hgv⟩ := reported
  obtain ⟨spec, he, ran⟩ := ran_of_response hgv hcar hsuc
  exact ⟨spec, res, he, ran, decoded_of_fetchActorResult fetched⟩

/-- Polling ends with the result of a run, or with a failure that claims no absence. -/
def Conclusive (digests : MeshDigestsV1) (results : RouteResultsV1 Output)
    (history : List MeshEventV1) (actor : MeshActorIdV1) : RemoteAttemptOutcome Output → Prop
  | .settled result => Produced digests results history actor result
  | .failed delivery _ => delivery ≠ .provenNotStarted
  | .cancelled => True

theorem reconciled_eq_ok {Response : Type} {poll : MeshPollInputV1} {resp : Response}
    {req : MeshStreamV1 → Except MeshClientRequestError Response}
    (hgv : poll.reconciled req = .ok resp) :
    req poll.actorStream = .ok resp ∨ req poll.recoveredStream = .ok resp := by
  unfold MeshPollInputV1.reconciled at hgv
  split at hgv
  · rename_i first
    cases hgv
    exact .inl first
  · obtain ⟨_, _, x2⟩ := bind_eq_ok.mp hgv
    exact .inr (mapError_eq_ok.mp x2)

variable {inp : MeshAttemptInputV1} {oc : RemoteAttemptOutcome Output}
  {reqs : MeshRouteRequirementsV1}

theorem conclusive_of_settledOutcome {stop : Option ActorStopReason}
    (reported : Reported ds history ref.actor st)
    (hset : settledOutcome rs ref policy responses stop st.phase = some oc) :
    Conclusive ds rs history ref.actor oc := by
  cases ph : st.phase with
  | running => simp [settledOutcome, ph] at hset
  | indeterminate =>
    simp only [settledOutcome, ph, Option.some.injEq] at hset
    subst hset
    nofun
  | succeeded hst =>
    simp only [settledOutcome, ph, Option.some.injEq] at hset
    subst hset
    split
    · rename_i fetched
      exact produced_of_reported reported ph fetched
    · nofun
  | failed =>
    simp only [settledOutcome, ph, Option.some.injEq] at hset
    subst hset
    unfold failedOutcome
    split
    · split <;> simp [Conclusive]
    · simp [Conclusive]

theorem conclusive_of_pollRemoteActor {polls : List MeshPollInputV1} {stop : Option ActorStopReason}
    (served : ∀ poll ∈ polls, ServedStream ds history poll.actorStream ∧
      ServedStream ds history poll.recoveredStream)
    (reported : Reported ds history ref.actor st)
    (ended : pollRemoteActor ds rs ref policy responses st stop polls = some oc) :
    Conclusive ds rs history ref.actor oc := by
  induction polls generalizing st stop with
  | nil => exact conclusive_of_settledOutcome reported ended
  | cons poll rest ih =>
    obtain ⟨onActor, onRecovered⟩ := served poll mem_cons_self
    have hl := (forall_mem_cons.mp served).2
    unfold pollRemoteActor at ended
    split at ended
    · rename_i hset
      cases ended
      exact conclusive_of_settledOutcome reported hset
    · split at ended
      · split at ended
        · cases ended
          nofun
        · rename_i cancellation hgv
          refine ih hl ?_ ended
          obtain first | x2 := reconciled_eq_ok hgv
          · exact reported_of_cancelActor onActor first
          · exact reported_of_cancelActor onRecovered x2
      · split at ended
        · cases ended
          nofun
        · split at ended
          · cases ended
            nofun
          · rename_i next hgv
            refine ih hl ?_ ended
            obtain first | x2 := reconciled_eq_ok hgv
            · exact reported_of_actorStatus onActor first
            · exact reported_of_actorStatus onRecovered x2

theorem prepared_of_prepareAttempt {spec : MeshActorSpecV1}
    (prepared : prepareAttempt ds peer reqs actor inp =
      (.ok (spec, ref) : Except (RemoteAttemptOutcome Output) _)) :
    spec.actor = actor ∧ spec.actorRef ds = .ok ref := by
  simp only [prepareAttempt, bind_eq_ok, bailIf_eq_ok, mapError_eq_ok, pure, Except.pure,
    Except.ok.injEq, Prod.mk.injEq] at prepared
  obtain ⟨_, _, _, _, _, _, _, _, _, _, _, _, _, _, _, _, _, _, _, _, _, hf, _, _, rfl, rfl⟩ :=
    prepared
  exact ⟨rfl, hf⟩

theorem prepareAttempt_ne_settled (peer : ResolvedMeshPeer Node)
    (reqs : MeshRouteRequirementsV1) (actor : MeshActorIdV1) (inp : MeshAttemptInputV1)
    (r : Output) :
    prepareAttempt ds peer reqs actor inp ≠ .error (.settled r) := by
  intro hfl
  simp [prepareAttempt, bind_eq_error, bailIf_eq_error, mapError_eq_error, -bind_pure_comp, pure,
    Except.pure] at hfl

/-- A submission ends conclusively, or with a proof that the actor never starts. -/
theorem conclusive_or_absent_of_submitActor {spec : MeshActorSpecV1}
    (named : spec.actorRef ds = .ok ref)
    (served : ∀ stream ∈ inp.streams, ServedStream ds history stream)
    (sole : (inp.submit (.executeActor spec)).onWire = true → Sole ds history spec)
    (ended : submitActor ds rs policy spec ref inp = some oc) :
    Conclusive ds rs history spec.actor oc ∨ (∃ detail, oc = .failed .provenNotStarted detail) ∧
        ((inp.submit (.executeActor spec)).onWire = false ∨
          spec.actor ∉ startedActors ds history) := by
  have he : ref.actor = spec.actor := actor_of_actorRef named
  have onSubmit := served inp.submit (by simp [MeshAttemptInputV1.streams])
  have onFence := served inp.fence (by simp [MeshAttemptInputV1.streams])
  have polled {st : MeshActorStatusV1} {oc : RemoteAttemptOutcome Output}
      (reported : Reported ds history spec.actor st)
      (ended : pollRemoteActor ds rs ref policy inp.chunks st none
        inp.polls = some oc) : Conclusive ds rs history spec.actor oc := by
    rw [← he] at reported ⊢
    refine conclusive_of_pollRemoteActor (fun poll hgv => ?_) reported ended
    have hls : ∀ stream ∈ [poll.actorStream, poll.recoveredStream], stream ∈ inp.streams := by
      intro stream either
      simp only [MeshAttemptInputV1.streams, mem_cons, mem_flatMap]
      exact .inr (.inr ⟨poll, hgv, by simpa using either⟩)
    exact ⟨served _ (hls _ (by simp)), served _ (hls _ (by simp))⟩
  dsimp only [submitActor] at ended
  split at ended
  · rename_i st submitted
    exact .inl (polled (reported_of_executeActor onSubmit submitted) ended)
  · rename_i failure submitted
    split at ended
    · rename_i proven
      cases ended
      refine .inr ⟨⟨_, rfl⟩, ?_⟩
      simp only [submitFailureProvesNotStarted, Option.some.injEq, Bool.or_eq_true,
        decide_eq_true_eq] at proven
      cases sent : (inp.submit (.executeActor spec)).onWire with
      | false => exact .inl rfl
      | true =>
        obtain preSend | hrej := proven
        · exact .inl (sent ▸ unsent_of_executeActor named submitted preSend)
        · exact .inr (not_started_of_executeActor onSubmit (sole sent) submitted hrej)
    · split at ended
      · rename_i st hfn
        obtain ⟨_, _, hfn⟩ := bind_eq_ok.mp hfn
        have reported := fenced_of_fenceActorIfAbsent onFence (mapError_eq_ok.mp hfn)
        exact .inl (polled (he ▸ reported) ended)
      · rename_i o hfn
        cases ended
        obtain ⟨_, _, hfn⟩ := bind_eq_ok.mp hfn
        have hab := fenced_of_fenceActorIfAbsent onFence (mapError_eq_ok.mp hfn)
        exact .inr ⟨⟨_, rfl⟩, .inr (he ▸ hab)⟩
      · cases ended
        exact .inl nofun

/-- What an attempt proves about the node of its peer. -/
structure Attempted (digests : MeshDigestsV1) (results : RouteResultsV1 Output)
    (history : List MeshEventV1) (actor : MeshActorIdV1) (attempt : RemoteAttempt Node Output) :
    Prop where
  settled : ∀ result, attempt.outcome = some (.settled result) →
    Produced digests results history actor result
  absent : ∀ detail, attempt.outcome = some (.failed .provenNotStarted detail) →
    attempt.sent = [] ∨ actor ∉ startedActors digests history

theorem sent_executeRemoteAttempt :
    (executeRemoteAttempt ds rs peer reqs actor inp).sent = [] ∨ ∃ spec, spec.actor = actor ∧
        (executeRemoteAttempt ds rs peer reqs actor inp).sent = [(peer.node, spec)] := by
  unfold executeRemoteAttempt
  split
  · exact .inl rfl
  · rename_i spec ref prepared
    obtain ⟨he, _⟩ := prepared_of_prepareAttempt prepared
    split
    · exact .inr ⟨spec, he, rfl⟩
    · exact .inl rfl

theorem attempted_executeRemoteAttempt
    (served : ∀ stream ∈ inp.streams, ServedStream ds history stream)
    (sole : ∀ sub ∈ (executeRemoteAttempt ds rs peer reqs actor inp).sent, Sole ds history sub.2) :
    Attempted ds rs history actor (executeRemoteAttempt ds rs peer reqs actor inp) := by
  unfold executeRemoteAttempt at sole ⊢
  split at sole
  · rename_i oc prepared
    refine ⟨fun r hset => ?_, fun _ _ => .inl rfl⟩
    cases hset
    exact absurd prepared (prepareAttempt_ne_settled _ _ _ _ _)
  · rename_i spec ref prepared
    obtain ⟨rfl, named⟩ := prepared_of_prepareAttempt prepared
    have alone : (inp.submit (.executeActor spec)).onWire = true → Sole ds history spec := by
      intro sent
      exact sole (peer.node, spec) (by simp [sent])
    refine ⟨fun r hset => ?_, fun detail hfl => ?_⟩
    · obtain produced | ⟨⟨_, hfl⟩, _⟩ := conclusive_or_absent_of_submitActor named served alone hset
      · exact produced
      · cases hfl
    · obtain claimed | ⟨_, unsent | hab⟩ :=
        conclusive_or_absent_of_submitActor named served alone hfl
      · exact absurd rfl claimed
      · exact .inl (by simp [unsent])
      · exact .inr hab

end Attempt

/-! ## The loop -/

namespace MeshDispatchV1

section Loop

variable {Node Output : Type} {ds : MeshDigestsV1} {rs : RouteResultsV1 Output}
  {disp : MeshDispatchV1 Node Output} {reqs : MeshRouteRequirementsV1}
  {replay : BranchReplayContract} {histories : Node → List MeshEventV1}

/-- The attempt of a dispatch at an offset. -/
def attemptAt (digests : MeshDigestsV1) (results : RouteResultsV1 Output)
    (dispatch : MeshDispatchV1 Node Output) (requirements : MeshRouteRequirementsV1)
    (peer : ResolvedMeshPeer Node) (offset : Nat) : RemoteAttempt Node Output :=
  executeRemoteAttempt digests results peer requirements ⟨dispatch.actorId, offset + 1⟩
    (dispatch.attempts offset)

/-- What one round of the loop does, with the report of the rounds after it. -/
inductive Round (digests : MeshDigestsV1) (results : RouteResultsV1 Output)
    (dispatch : MeshDispatchV1 Node Output) (requirements : MeshRouteRequirementsV1)
    (replay : BranchReplayContract) (offset : Nat) (progress : DispatchProgress Output)
    (rest : DispatchProgress Output → DispatchReport Node Output) :
    DispatchReport Node Output → Prop
  | stopped (error : String) :
      Round digests results dispatch requirements replay offset progress rest
        ⟨[], false, some (.error error)⟩
  | concluded :
      Round digests results dispatch requirements replay offset progress rest
        (dispatch.conclude replay progress)
  | ended {peer : ResolvedMeshPeer Node} {returned : Option (Result Output)}
      (chosen : dispatch.peer offset = some peer)
      (allowed : offset = 0 ∨ mayMigrateAfter progress.lastDelivery replay = true)
      (settled : ∀ result, returned = some (.ok result) →
        (attemptAt digests results dispatch requirements peer offset).outcome =
          some (.settled result)) :
      Round digests results dispatch requirements replay offset progress rest
        ⟨(attemptAt digests results dispatch requirements peer offset).sent, false, returned⟩
  | failed {peer : ResolvedMeshPeer Node} {next : DispatchProgress Output}
      {delivery : AttemptDeliveryState}
      (chosen : dispatch.peer offset = some peer)
      (allowed : offset = 0 ∨ mayMigrateAfter progress.lastDelivery replay = true)
      (merged : next.lastDelivery = mergeDeliveryState progress.lastDelivery delivery)
      (absent : delivery = .provenNotStarted → ∃ detail,
        (attemptAt digests results dispatch requirements peer offset).outcome =
          some (.failed .provenNotStarted detail))
      (kept : ∀ result, next.lastSettledFailure = some result →
        progress.lastSettledFailure = some result ∨
        (attemptAt digests results dispatch requirements peer offset).outcome =
          some (.settled result)) :
      Round digests results dispatch requirements replay offset progress rest
        ((rest next).after (attemptAt digests results dispatch requirements peer offset).sent)

@[simp] theorem sent_conclude (prg : DispatchProgress Output) :
    (disp.conclude replay prg).sent = [] := by
  unfold conclude
  split
  · rfl
  · split
    · rfl
    · split <;> rfl

theorem round_dispatchFrom (rem off : Nat) (prg : DispatchProgress Output) :
    Round ds rs disp reqs replay off prg (disp.dispatchFrom ds rs reqs replay rem (off + 1))
      (disp.dispatchFrom ds rs reqs replay (rem + 1) off prg) := by
  unfold dispatchFrom
  split
  · exact .stopped _
  · split
    · exact .concluded
    · rename_i peer chosen
      split
      · exact .concluded
      · rename_i permitted
        have hal : off = 0 ∨ mayMigrateAfter prg.lastDelivery replay = true := by
          simp only [Bool.and_eq_true, decide_eq_true_eq, Bool.not_eq_true', not_and,
            Bool.not_eq_false] at permitted
          by_cases first : off = 0
          · exact .inl first
          · exact .inr (permitted (by omega))
        dsimp only
        split
        · exact .ended chosen hal nofun
        · rename_i r hset
          split
          · refine .ended chosen hal fun o he => ?_
            cases he
            exact hset
          · refine .failed chosen hal rfl nofun fun o he => ?_
            cases he
            exact .inr hset
        · exact .ended chosen hal nofun
        · rename_i delivery detail hfl
          refine .failed chosen hal rfl (fun proven => ⟨detail, proven ▸ hfl⟩) ?_
          intro r he
          dsimp only at he
          split at he
          · exact .inl he
          · cases he

theorem sent_attemptAt (ds : MeshDigestsV1) (rs : RouteResultsV1 Output)
    (disp : MeshDispatchV1 Node Output) (reqs : MeshRouteRequirementsV1)
    (peer : ResolvedMeshPeer Node) (off : Nat) :
    (attemptAt ds rs disp reqs peer off).sent = [] ∨ ∃ spec, spec.actor = ⟨disp.actorId, off + 1⟩ ∧
        (attemptAt ds rs disp reqs peer off).sent = [(peer.node, spec)] :=
  sent_executeRemoteAttempt

/-- Every attempt submits a generation of its own. -/
theorem generations_dispatchFrom (rem off : Nat) (prg : DispatchProgress Output) :
    (∀ sub ∈ (disp.dispatchFrom ds rs reqs replay rem off
        prg).sent, sub.2.actor.actorId = disp.actorId ∧
          off < sub.2.actor.generation) ∧
      ((disp.dispatchFrom ds rs reqs replay rem off
        prg).sent.map fun sub => sub.2.actor).Nodup := by
  induction rem generalizing off prg with
  | zero => simp [dispatchFrom]
  | succ rem ih =>
    have round : Round ds rs disp reqs replay off prg _ _ := round_dispatchFrom rem off prg
    generalize disp.dispatchFrom ds rs reqs replay (rem + 1) off prg = report at round ⊢
    cases round with
    | stopped | concluded => simp
    | ended chosen hal hset =>
      rename_i peer hret
      obtain none | ⟨spec, he, sent⟩ := sent_attemptAt ds rs disp reqs peer off
      · simp [none]
      · simp [sent, he]
    | failed chosen hal hmg hab kept =>
      rename_i peer next delivery
      obtain ⟨named, hne⟩ := ih (off + 1) next
      obtain none | ⟨spec, he, sent⟩ := sent_attemptAt ds rs disp reqs peer off
      · simp only [DispatchReport.after, none, nil_append]
        exact ⟨fun sub hgv => ⟨(named _ hgv).1, by have := (named _ hgv).2; omega⟩, hne⟩
      · simp only [DispatchReport.after, sent, singleton_append, map_cons,
          nodup_cons, mem_map, forall_mem_cons, he]
        refine ⟨⟨⟨trivial, by omega⟩, fun sub hgv =>
          ⟨(named _ hgv).1, by have := (named _ hgv).2; omega⟩⟩, ?_, hne⟩
        rintro ⟨sub, hgv, hag⟩
        have hl := (named _ hgv).2
        simp only [hag] at hl
        omega

/-- The actor of a submission never starts on its node. -/
def Quiet (digests : MeshDigestsV1) (histories : Node → List MeshEventV1)
    (submission : Node × MeshActorSpecV1) : Prop :=
  submission.2.actor ∉ startedActors digests (histories submission.1)

/-- What a report accounts for, after the given delivery: all but the last submission are quiet,
and all of them if the route was run locally. -/
structure Accounted (digests : MeshDigestsV1) (results : RouteResultsV1 Output)
    (histories : Node → List MeshEventV1) (actorId : String) (delivery : AttemptDeliveryState)
    (report : DispatchReport Node Output) : Prop where
  quiet : report.sent.Pairwise fun first _ => Quiet digests histories first
  barred : delivery ≠ .provenNotStarted → report.sent = []
  fallback : report.fellBack = true → delivery = .provenNotStarted ∧
    ∀ submission ∈ report.sent, Quiet digests histories submission
  produced : ∀ result, report.fellBack = false → report.returned = some (.ok result) →
    ∃ node actor, actor.actorId = actorId ∧
      Produced digests results (histories node) actor result

theorem mayMigrateAfter_unproven {delivery : AttemptDeliveryState} :
    mayMigrateAfter delivery .unproven = true ↔ delivery = .provenNotStarted := by
  cases delivery <;> simp [mayMigrateAfter, BranchReplayContract.allowsReplay]

variable {prg : DispatchProgress Output} {peer : ResolvedMeshPeer Node}

theorem accounted_conclude {actorId : String}
    (produced : ∀ r, prg.lastSettledFailure = some r → ∃ n actor,
      actor.actorId = actorId ∧ Produced ds rs (histories n) actor r) :
    Accounted ds rs histories actorId prg.lastDelivery (disp.conclude .unproven prg) := by
  unfold conclude
  split
  · exact ⟨.nil, fun _ => rfl, nofun, nofun⟩
  · split
    · rename_i hal
      refine ⟨.nil, fun _ => rfl, fun _ => ⟨?_, nofun⟩, nofun⟩
      simp only [mayFallbackLocally] at hal
      split at hal
      · cases hal
      · split at hal
        · simpa using hal
        · exact mayMigrateAfter_unproven.mp hal
        · cases hal
    · split
      · rename_i r hf
        refine ⟨.nil, fun _ => rfl, nofun, fun o _ he => ?_⟩
        cases he
        exact produced r (Option.filter_eq_some_iff.mp hf).1
      · exact ⟨.nil, fun _ => rfl, nofun, nofun⟩

/-- The attempt of a round, where the submissions of the round are sole. -/
theorem attempted_attemptAt {off : Nat}
    (served : ∀ stream ∈ (disp.attempts off).streams, ServedStream ds (histories peer.node) stream)
    (sole : ∀ sub ∈ (attemptAt ds rs disp reqs peer off).sent,
      Sole ds (histories sub.1) sub.2) :
    Attempted ds rs (histories peer.node) ⟨disp.actorId, off + 1⟩
      (attemptAt ds rs disp reqs peer off) := by
  refine attempted_executeRemoteAttempt served fun sub hgv => ?_
  obtain none | ⟨_, _, sent⟩ := sent_attemptAt ds rs disp reqs peer off
  · exact absurd hgv (by simp only [attemptAt] at none; simp [none])
  · have hh := hgv
    simp only [attemptAt] at sent
    rw [sent, mem_singleton] at hh
    have alone := sole sub hgv
    rw [hh] at alone ⊢
    exact alone

/-- An attempt that failed before a start leaves its submissions quiet. -/
theorem quiet_attemptAt {off : Nat} {detail : String}
    (attempted : Attempted ds rs (histories peer.node) ⟨disp.actorId, off + 1⟩
      (attemptAt ds rs disp reqs peer off))
    (hfl : (attemptAt ds rs disp reqs peer off).outcome =
      some (.failed .provenNotStarted detail)) :
    ∀ sub ∈ (attemptAt ds rs disp reqs peer off).sent, Quiet ds histories sub := by
  intro sub hgv
  obtain none | ⟨_, he, sent⟩ := sent_attemptAt ds rs disp reqs peer off
  · rw [none] at hgv
    cases hgv
  · rw [sent, mem_singleton] at hgv
    subst hgv
    obtain unsent | hab := attempted.absent detail hfl
    · rw [sent] at unsent
      cases unsent
    · rw [← he] at hab
      exact hab

theorem accounted_dispatchFrom {rem off : Nat} (served : ∀ off peer, disp.peer off = some peer →
      ∀ stream ∈ (disp.attempts off).streams, ServedStream ds (histories peer.node) stream)
    (sole : ∀ sub ∈ (disp.dispatchFrom ds rs reqs .unproven rem
      off prg).sent, Sole ds (histories sub.1) sub.2)
    (first : off = 0 → prg.lastDelivery = .provenNotStarted)
    (produced : ∀ r, prg.lastSettledFailure = some r → ∃ n actor,
      actor.actorId = disp.actorId ∧ Produced ds rs (histories n) actor r) :
    Accounted ds rs histories disp.actorId prg.lastDelivery
      (disp.dispatchFrom ds rs reqs .unproven rem off prg) := by
  induction rem generalizing off prg with
  | zero => exact accounted_conclude produced
  | succ rem ih =>
    have round : Round ds rs disp reqs .unproven off prg _ _ := round_dispatchFrom rem off prg
    generalize disp.dispatchFrom ds rs reqs .unproven (rem + 1) off prg = report at round sole ⊢
    cases round with
    | stopped => exact ⟨.nil, fun _ => rfl, nofun, nofun⟩
    | concluded => exact accounted_conclude produced
    | ended chosen hal hset =>
      rename_i peer hret
      have start := hal.elim first mayMigrateAfter_unproven.mp
      have attempted := attempted_attemptAt (served off peer chosen) sole
      refine ⟨?_, fun barred => absurd start barred, nofun, ?_⟩
      · obtain none | ⟨spec, _, sent⟩ := sent_attemptAt ds rs disp reqs peer off
        · simp [none]
        · simp [sent]
      · intro r _ he
        exact ⟨peer.node, _, rfl, attempted.settled r (hset r he)⟩
    | failed chosen hal hmg hab kept =>
      rename_i peer next delivery
      have start := hal.elim first mayMigrateAfter_unproven.mp
      have attempted := attempted_attemptAt (served off peer chosen)
        fun sub hgv => sole sub (mem_append_left _ hgv)
      have delivered : next.lastDelivery = delivery := by
        rw [hmg, start]
        cases delivery <;> rfl
      have tl : Accounted ds rs histories disp.actorId next.lastDelivery
          (disp.dispatchFrom ds rs reqs .unproven rem (off + 1)
            next) :=
        ih (fun sub hgv => sole sub (mem_append_right _ hgv)) nofun <| by
          intro r he
          obtain s | hset := kept r he
          · exact produced r s
          · exact ⟨peer.node, _, rfl, attempted.settled r hset⟩
      rw [delivered] at tl
      -- another attempt, or the local run, follows only an attempt that was proven not to start
      have quiet : delivery = .provenNotStarted → ∀ sub ∈
          (attemptAt ds rs disp reqs peer off).sent,
          Quiet ds histories sub := by
        intro proven
        obtain ⟨_, failed⟩ := hab proven
        exact quiet_attemptAt attempted failed
      refine ⟨?_, fun barred => absurd start barred, ?_, tl.produced⟩
      · refine pairwise_append.mpr ⟨?_, tl.quiet, ?_⟩
        · obtain none | ⟨spec, _, sent⟩ := sent_attemptAt ds rs disp reqs peer off
          · simp [none]
          · simp [sent]
        · intro sub hgv hl more
          by_cases proven : delivery = .provenNotStarted
          · exact quiet proven sub hgv
          · rw [tl.barred proven] at more
            cases more
      · intro fell
        obtain ⟨proven, oths⟩ := tl.fallback fell
        refine ⟨start, fun sub hgv => ?_⟩
        obtain hh | hl := mem_append.mp hgv
        · exact quiet proven sub hh
        · exact oths sub hl

/-- All but the last are quiet, so one that is not is the last. -/
theorem getLast?_of_not_quiet {sent : List (Node × MeshActorSpecV1)} {sub : Node × MeshActorSpecV1}
    (quiet : sent.Pairwise fun first _ => Quiet ds histories first)
    (hgv : sub ∈ sent) (loud : ¬ Quiet ds histories sub) :
    sent.getLast? = some sub := by
  induction sent with
  | nil => cases hgv
  | cons first tl ih =>
    obtain ⟨s, hl⟩ := pairwise_cons.mp quiet
    obtain rfl | hgv := mem_cons.mp hgv
    · cases tl with
      | nil => rfl
      | cons next => exact absurd (s next mem_cons_self) loud
    · rw [getLast?_cons, ih hl hgv]
      rfl

/-- The runs of the route on a node, under the actor id of the dispatch. -/
def routeRuns (digests : MeshDigestsV1) (dispatch : MeshDispatchV1 Node Output)
    (history : List MeshEventV1) : List MeshActorIdV1 :=
  (startedActors digests history).filter fun actor => actor.actorId = dispatch.actorId

theorem nodup_routeRuns (hist : List MeshEventV1) : (disp.routeRuns ds hist).Nodup :=
  (nodup_startedActors hist).filter _

end Loop

/-! ## Whole dispatches -/

section Whole

variable {Node Output : Type} [DecidableEq Node] {digests : MeshDigestsV1}
  {results : RouteResultsV1 Output} {dispatch : MeshDispatchV1 Node Output}
  {histories : Node → List MeshEventV1}

/-- The nodes behind a dispatch. Under the actor id of the dispatch, which is its own, a node is
called at most as often as requests were sent to it; and each response that is read was given by
the node. -/
structure Network (digests : MeshDigestsV1) (results : RouteResultsV1 Output)
    (dispatch : MeshDispatchV1 Node Output) (histories : Node → List MeshEventV1) : Prop where
  delivered : ∀ node spec, spec.actor.actorId = dispatch.actorId →
    (executions digests (histories node) spec).length ≤
      (dispatch.dispatchRouteActor digests results).sent.count (node, spec)
  served : ∀ offset peer, dispatch.peer offset = some peer →
    ∀ stream ∈ (dispatch.attempts offset).streams,
      ServedStream digests (histories peer.node) stream

section

variable (network : Network digests results dispatch histories)

include network

theorem Network.submitted {n : Node} {spec : MeshActorSpecV1}
    (named : spec.actor.actorId = dispatch.actorId)
    (called : executions digests (histories n) spec ≠ []) :
    (n, spec) ∈ (dispatch.dispatchRouteActor digests results).sent := by
  apply count_pos_iff.mp
  have bounded := network.delivered n spec named
  have := length_pos_of_ne_nil called
  omega

theorem Network.submitted_of_run {n : Node}
    (run : actor ∈ dispatch.routeRuns digests (histories n)) :
    ∃ spec, spec.actor = actor ∧ ¬ Quiet digests histories (n, spec) ∧
      (n, spec) ∈ (dispatch.dispatchRouteActor digests results).sent := by
  simp only [routeRuns, mem_filter, decide_eq_true_eq] at run
  obtain ⟨_, spec, hgv, rfl⟩ := mem_startedActors.mp run.1
  have called := mem_executions.mpr (invoked_of_started hgv)
  exact ⟨spec, rfl, fun quiet => quiet run.1, network.submitted run.2 (ne_nil_of_mem called)⟩

theorem Network.sole (named : ∀ sub ∈ (dispatch.dispatchRouteActor digests results).sent,
      sub.2.actor.actorId = dispatch.actorId)
    (hne : ((dispatch.dispatchRouteActor digests results).sent.map
      fun sub => sub.2.actor).Nodup)
    {sub : Node × MeshActorSpecV1}
    (sent : sub ∈ (dispatch.dispatchRouteActor digests results).sent) :
    Sole digests (histories sub.1) sub.2 := by
  constructor
  · have alone := nodup_iff_count_le_one.mp (hne.of_map _) sub
    exact (network.delivered sub.1 sub.2 (named sub sent)).trans alone
  · intro o he called
    have also : (sub.1, o) ∈ (dispatch.dispatchRouteActor digests results).sent :=
      network.submitted (he ▸ named sub sent) called
    have heq := inj_on_of_nodup_map hne also sent he
    exact congrArg Prod.snd heq

/-- A dispatch of an island that is not declared idempotent is accounted for. -/
theorem Network.accounted (unproven : dispatch.bundle.IslandUnproven dispatch.routeId) :
    Accounted digests results histories dispatch.actorId .provenNotStarted
      (dispatch.dispatchRouteActor digests results) := by
  cases planned : dispatch.plan with
  | error =>
    simp only [dispatchRouteActor, planned]
    exact ⟨.nil, fun _ => rfl, nofun, nofun⟩
  | ok plan =>
    obtain ⟨_, reqs, _⟩ := plan
    obtain ⟨_, agreed, tl⟩ := bind_eq_ok.mp planned
    obtain ⟨_, _, tl⟩ := bind_eq_ok.mp tl
    obtain ⟨_, _, he⟩ := bind_eq_ok.mp tl
    cases he
    obtain rfl := unproven_of_island unproven agreed
    have report : dispatch.dispatchRouteActor digests results =
        dispatch.dispatchFrom digests results reqs .unproven (dispatch.config.maxRetries + 1) 0
          ⟨.provenNotStarted, "no eligible remote mesh peer was discovered", none⟩ := by
      simp only [dispatchRouteActor, planned]
    have sole := @network.sole
    rw [report] at sole ⊢
    obtain ⟨named, hne⟩ := generations_dispatchFrom (dispatch.config.maxRetries + 1) 0 _
    exact accounted_dispatchFrom network.served
      (fun _ sent => sole (fun o hgv => (named o hgv).1) hne sent)
      (fun _ => rfl) nofun

end

/-- Over all nodes, all generations and the local fallback the route is run at most once, and a
result that is returned without the fallback is the result of this run. -/
theorem dispatchRouteActor_at_most_once [Fintype Node] (digests : MeshDigestsV1)
    (results : RouteResultsV1 Output) (dispatch : MeshDispatchV1 Node Output)
    (histories : Node → List MeshEventV1) (network : Network digests results dispatch histories)
    (unproven : dispatch.bundle.IslandUnproven dispatch.routeId) :
    (∑ node, (dispatch.routeRuns digests (histories node)).length) +
        (if (dispatch.dispatchRouteActor digests results).fellBack then 1 else 0) ≤ 1 ∧
      ∀ result, (dispatch.dispatchRouteActor digests results).fellBack = false →
        (dispatch.dispatchRouteActor digests results).returned = some (.ok result) →
        ∃ node actor, (∀ other, dispatch.routeRuns digests (histories other) =
            if other = node then [actor] else []) ∧
          Produced digests results (histories node) actor result := by
  have accounted := network.accounted unproven
  -- every run is a run of the last submission
  have last : ∀ {node actor}, actor ∈ dispatch.routeRuns digests (histories node) →
      ∃ spec, spec.actor = actor ∧
        (dispatch.dispatchRouteActor digests results).sent.getLast? = some (node, spec) := by
    intro node actor run
    obtain ⟨spec, same, loud, sent⟩ := network.submitted_of_run run
    exact ⟨spec, same, getLast?_of_not_quiet accounted.quiet sent loud⟩
  have alone : ∀ {node actor}, actor ∈ dispatch.routeRuns digests (histories node) →
      ∀ other, dispatch.routeRuns digests (histories other) =
        if other = node then [actor] else [] := by
    intro node actor run other
    obtain ⟨spec, rfl, here⟩ := last run
    have only : ∀ more ∈ dispatch.routeRuns digests (histories other),
        other = node ∧ more = spec.actor := by
      intro more given
      obtain ⟨found, rfl, there⟩ := last given
      cases here.symm.trans there
      exact ⟨rfl, rfl⟩
    split
    · rename_i same
      subst same
      apply perm_singleton.mp
      rw [perm_ext_iff_of_nodup (nodup_routeRuns _) (nodup_singleton _)]
      intro more
      rw [mem_singleton]
      constructor
      · intro given
        exact (only more given).2
      · rintro rfl
        exact run
    · rename_i different
      exact eq_nil_iff_forall_not_mem.mpr fun more given => different (only more given).1
  constructor
  · by_cases some : ∃ node actor, actor ∈ dispatch.routeRuns digests (histories node)
    · obtain ⟨node, actor, run⟩ := some
      have fell : (dispatch.dispatchRouteActor digests results).fellBack = false := by
        by_contra fell
        obtain ⟨_, quiet⟩ := accounted.fallback (Bool.not_eq_false _ ▸ fell)
        obtain ⟨spec, _, loud, sent⟩ := network.submitted_of_run run
        exact loud (quiet _ sent)
      simp [alone run, fell, apply_ite List.length]
    · have none : ∀ node, dispatch.routeRuns digests (histories node) = [] := by
        intro node
        exact eq_nil_iff_forall_not_mem.mpr fun actor given => some ⟨node, actor, given⟩
      simp only [none, length_nil, Finset.sum_const_zero, zero_add]
      split <;> omega
  · intro result fell returned
    obtain ⟨node, actor, named, produced⟩ := accounted.produced result fell returned
    refine ⟨node, actor, alone ?_, produced⟩
    obtain ⟨spec, stored, rfl, ran, _⟩ := produced
    simp only [routeRuns, mem_filter, decide_eq_true_eq]
    exact ⟨ran.started, named⟩

end Whole

/-! ## A dispatch that settles

One peer runs the route, answers the submission with a Running status, and the next poll with the
result. -/

namespace Settled

open MeshNodeV1.Overlap

def results : RouteResultsV1 Unit where
  exitCode _ := some 0
  succeeded _ := true
  wasGuardSkipped _ := false
  fromSlice _ := .ok ()
  forBytes bytes := ⟨digest ++ hexEncode bytes, bytes.length⟩
  forBytes_injective := by
    intro first second same
    simp only [MeshArtifactIdV1.mk.injEq, String.append_right_inj] at same
    simpa [hexDecode_hexEncode] using congrArg hexDecode same.1

def status (phase : MeshActorPhaseV1) : MeshNodeResult MeshResponseV1 :=
  .ok (.actorStatus ⟨⟨"actor", 1⟩, digest, phase, 1⟩)

def stored : MeshActorPhaseV1 :=
  .succeeded ⟨⟨digest, 0⟩, [], true, some 0⟩

/-- Only the given request is answered. -/
def answering (request : MeshRequestV1) (answer : MeshNodeResult MeshResponseV1) : MeshStreamV1 :=
  fun other => if other = request then .answered answer else .lost "closed"

theorem answer_of_answering {req o : MeshRequestV1} {ans r : MeshNodeResult MeshResponseV1}
    (hans : answering req ans o = .answered r) :
    o = req ∧ r = ans := by
  unfold answering at hans
  split at hans
  · rename_i he
    cases hans
    exact ⟨he, rfl⟩
  · cases hans

def attempt : MeshAttemptInputV1 where
  cancelled _ := false
  connect := .ok ()
  upload := .ok ()
  probe := .ok ⟨"node", spec.requirements, true, [], 1⟩
  submit := answering (.executeActor spec) (status .running)
  reconnect := .ok ()
  fence _ := .lost "closed"
  polls := [⟨false, false, false, false, answering (.actorStatus actorRef) (status stored),
    .ok (), fun _ => .lost "closed"⟩]
  chunks _ := .error "no chunk"

def dispatch : MeshDispatchV1 Unit Unit where
  bundle := ⟨[⟨"route", [], .unproven⟩]⟩
  routeId := "route"
  actorId := "actor"
  requirements := .ok spec.requirements
  peers := [⟨(), "node", 0, 0⟩]
  preferredPeer := 0
  config := ⟨.prefer, .preSend, 1⟩
  attempts _ := attempt
  cancelled _ := false
  cancelledAfter := false
  localRun := .ok ()

/-- The call is thread 0, its worker thread 1 and the poll thread 2. -/
def history : List MeshEventV1 :=
  started ++ [.resume 0 input, .resume 1 input, .resume 1 input,
    .request true (.actorStatus actorRef), .resume 2 input, .resume 2 input]

theorem outputs_history : outputs plainDigests fresh history =
    [.silent, .invoked 0 (.executeActor spec), .silent, .silent, .silent, .started 0 spec,
      .response 0 (status .running), .silent, .silent, .invoked 2 (.actorStatus actorRef), .silent,
      .response 2 (status stored)] := rfl

theorem network : Network plainDigests results dispatch fun _ => history := by
  constructor
  · intro n o named
    by_cases he : o = spec
    · subst he
      have called : executions plainDigests history spec = [0] := rfl
      have sent : (dispatch.dispatchRouteActor plainDigests results).sent = [((), spec)] := rfl
      simp [called, sent]
    · have none : executions plainDigests history o = [] := by
        simp [executions, outputs_history, Ne.symm he]
      simp [none]
  · intro off peer chosen stream hgv req ans hans
    simp only [dispatch, attempt, MeshAttemptInputV1.streams, flatMap_cons, flatMap_nil,
      mem_cons, mem_append, not_mem_nil, or_false] at hgv
    obtain rfl | rfl | rfl | rfl := hgv
    · obtain ⟨rfl, rfl⟩ := answer_of_answering hans
      exact .inl ⟨0, by simp [outputs_history], by simp [outputs_history]⟩
    · cases hans
    · obtain ⟨rfl, rfl⟩ := answer_of_answering hans
      exact .inl ⟨2, by simp [outputs_history], by simp [outputs_history]⟩
    · cases hans

end Settled

/-- The hypotheses hold of a dispatch that returns the result of its single run. -/
theorem dispatchRouteActor_settled_once :
    (Settled.dispatch.dispatchRouteActor Overlap.plainDigests Settled.results).returned =
        some (.ok ()) ∧
      ∃ node actor, (∀ other : Unit, Settled.dispatch.routeRuns Overlap.plainDigests
          Settled.history = if other = node then [actor] else []) ∧
        Produced Overlap.plainDigests Settled.results Settled.history actor () := by
  refine ⟨rfl, ?_⟩
  apply (dispatchRouteActor_at_most_once Overlap.plainDigests Settled.results Settled.dispatch
    (fun _ => Settled.history) Settled.network ?_).2 () rfl rfl
  exact ⟨"route", _, .refl, rfl, nofun⟩

end MeshDispatchV1

end Ostadix.Mesh
