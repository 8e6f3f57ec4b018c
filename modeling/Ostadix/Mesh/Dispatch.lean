import Ostadix.Mesh.Node

/-! # Dispatch of a route to mesh peers

`dispatch_route_actor` on the client: the replay contract of the island of a route, the requests of
one attempt on one peer, and the loop over attempts up to the local fallback. What the network and
the peers make of each request is an input. -/

namespace Ostadix.Mesh

open Ostadix.Lib Ostadix.Fabric

/-! ## Replay contract -/

inductive RouteFailureContinuation
  | unproven
  | declaredIdempotent
deriving DecidableEq

structure RouteSpec where
  id : String
  prerequisites : List String
  failureContinuation : RouteFailureContinuation
deriving DecidableEq

structure ProjectBundle where
  routes : List RouteSpec

def ProjectBundle.route (bundle : ProjectBundle) (id : String) : Option RouteSpec :=
  bundle.routes.find? fun route => route.id = id

inductive BranchReplayContract
  | unproven
  | declaredIdempotent
deriving DecidableEq

def BranchReplayContract.allowsReplay : BranchReplayContract → Bool
  | .unproven => false
  | .declaredIdempotent => true

/-- The ids that `visit` has seen and the routes it has collected. -/
structure RouteVisit where
  seen : Finset String
  routes : List RouteSpec

/-- `depth` bounds the recursion, which goes deeper only at a route of the bundle that it has not
seen before. -/
def visit (bundle : ProjectBundle) : Nat → RouteVisit → String → Result RouteVisit
  | 0, _, _ => .error "mesh route island is deeper than its bundle"
  | depth + 1, before, routeId =>
      if routeId ∈ before.seen then .ok before
      else
        match bundle.route routeId with
        | none => .error s!"mesh route `{routeId}` is missing from its bundle"
        | some route => do
            let after ← route.prerequisites.foldlM (visit bundle depth)
              { before with seen := insert routeId before.seen }
            return { after with routes := after.routes ++ [route] }

def branchReplayContract (bundle : ProjectBundle) (routeId : String) :
    Result BranchReplayContract := do
  let island ← visit bundle (bundle.routes.length + 1) ⟨∅, []⟩ routeId
  return if island.routes.all fun route => route.failureContinuation = .declaredIdempotent
    then .declaredIdempotent else .unproven

/-! ## Delivery -/

inductive AttemptDeliveryState
  | provenNotStarted
  | ambiguous
  | executed
deriving DecidableEq

def mergeDeliveryState : AttemptDeliveryState → AttemptDeliveryState → AttemptDeliveryState
  | .ambiguous, _ | _, .ambiguous => .ambiguous
  | .executed, _ | _, .executed => .executed
  | .provenNotStarted, .provenNotStarted => .provenNotStarted

inductive MeshClientFailureDisposition
  | preSend
  | serverRejected
  | ambiguous
deriving DecidableEq

def submitFailureProvesNotStarted (disposition : Option MeshClientFailureDisposition)
    (rejectionStage : Option MeshRejectionStageV1) : Bool :=
  disposition = some .preSend || rejectionStage = some .preAdmission

def mayMigrateAfter (delivery : AttemptDeliveryState) (replay : BranchReplayContract) : Bool :=
  delivery = .provenNotStarted || (delivery = .executed && replay.allowsReplay)

inductive MeshRequirement
  | prefer
  | required
deriving DecidableEq

inductive MeshLocalFallback
  | preSend
  | idempotent
  | never
deriving DecidableEq

def mayFallbackLocally (requirement : MeshRequirement) (policy : MeshLocalFallback)
    (delivery : AttemptDeliveryState) (replay : BranchReplayContract) : Bool :=
  if requirement = .required then false
  else
    match policy with
    | .preSend => delivery = .provenNotStarted
    | .idempotent => mayMigrateAfter delivery replay
    | .never => false

/-! ## Requests of the client -/

structure MeshClientRequestError where
  disposition : MeshClientFailureDisposition
  code : Option String
  rejectionStage : Option MeshRejectionStageV1
  message : String

def clientError (disposition : MeshClientFailureDisposition) (code : Option String)
    (message : String) : MeshClientRequestError :=
  ⟨disposition, code, none, message⟩

/-- What becomes of a request on an authenticated connection: it does not fit a frame, it is
written at least in part and no response is read, or a response is read. -/
inductive MeshCallV1
  | unsent (error : String)
  | lost (error : String)
  | answered (answer : MeshNodeResult MeshResponseV1)

/-- The request may reach the node, now or later. -/
def MeshCallV1.onWire : MeshCallV1 → Bool
  | .unsent _ => false
  | .lost _ | .answered _ => true

/-- What becomes of the next request on a connection, whichever it is. -/
abbrev MeshStreamV1 := MeshRequestV1 → MeshCallV1

section Client

variable (digests : MeshDigestsV1)

def validateMeshResponse (request : MeshRequestV1) : MeshNodeResult MeshResponseV1 → Result Unit
  | .error error => do
      validateIdentifier "mesh error code" error.code
      bailIf (maxHostedErrorBytes < error.message.utf8ByteSize)
        "mesh error message exceeds protocol maximum"
  | .ok response =>
      let mismatch := "mesh response kind or identity does not match request"
      let mismatchedFence := "mesh actor-fence response names a different actor"
      match request, response with
      | .executeActor spec, .actorStatus status => do
          bailIf (status.actor != spec.actor) mismatch
          let specSha256 ← spec.sha256 digests
          bailIf (status.specSha256 != specSha256) mismatch
          status.validate
      | .actorStatus actorRef, .actorStatus status => do
          bailIf (status.actorRef != actorRef) mismatch
          status.validate
      | .cancelActor actorRef, .actorCancellation cancellation => do
          bailIf (cancellation.status.actorRef != actorRef) mismatch
          cancellation.status.validate
      | .fenceActorIfAbsent actorRef, .actorFence (.existing status) => do
          bailIf (status.actorRef != actorRef) mismatchedFence
          status.validate
      | .fenceActorIfAbsent actorRef, .actorFence (.fencedAbsent responseRef) => do
          bailIf (responseRef != actorRef) mismatchedFence
          responseRef.validate
      | _, _ => .error mismatch

/-- `MeshNodeConnection::request`. -/
def sendRequest (request : MeshRequestV1) (call : MeshCallV1) :
    Except MeshClientRequestError MeshResponseV1 := do
  request.validate.mapError fun error =>
    clientError .preSend none s!"invalid mesh request before send: {error}"
  match call with
  | .unsent error =>
      .error (clientError .preSend none
        s!"mesh request cannot fit a canonical hosted frame: {error}")
  | .lost error => .error (clientError .ambiguous none error)
  | .answered answer => do
      (validateMeshResponse digests request answer).mapError fun error =>
        clientError .ambiguous none s!"mesh response does not correlate to its request: {error}"
      answer.mapError fun error =>
        let retryable := if error.retryable then " (retryable)" else ""
        ⟨.serverRejected, some error.code, some error.stage,
          s!"mesh node rejected request [{error.code}]{retryable}: {error.message}"⟩

/-- A response of another kind does not pass `validateMeshResponse`. -/
def unreachableResponse : MeshClientRequestError :=
  clientError .ambiguous none "response correlation validated another response"

def executeActor (stream : MeshStreamV1) (spec : MeshActorSpecV1) :
    Except MeshClientRequestError MeshActorStatusV1 := do
  match ← sendRequest digests (.executeActor spec) (stream (.executeActor spec)) with
  | .actorStatus status => return status
  | _ => .error unreachableResponse

def actorStatus (stream : MeshStreamV1) (actorRef : MeshActorRefV1) :
    Except MeshClientRequestError MeshActorStatusV1 := do
  match ← sendRequest digests (.actorStatus actorRef) (stream (.actorStatus actorRef)) with
  | .actorStatus status => return status
  | _ => .error unreachableResponse

def cancelActor (stream : MeshStreamV1) (actorRef : MeshActorRefV1) :
    Except MeshClientRequestError MeshActorCancellationV1 := do
  match ← sendRequest digests (.cancelActor actorRef) (stream (.cancelActor actorRef)) with
  | .actorCancellation cancellation => return cancellation
  | _ => .error unreachableResponse

def fenceActorIfAbsent (stream : MeshStreamV1) (actorRef : MeshActorRefV1) :
    Except MeshClientRequestError MeshActorFenceV1 := do
  match ← sendRequest digests (.fenceActorIfAbsent actorRef)
      (stream (.fenceActorIfAbsent actorRef)) with
  | .actorFence fence => return fence
  | _ => .error unreachableResponse

end Client

/-! ## Results -/

/-- What the client reads of an `OExecutionResult`, its JSON, and the content id of bytes, under
which no two byte strings collide. -/
structure RouteResultsV1 (Output : Type) where
  exitCode : Output → Option Int
  succeeded : Output → Bool
  wasGuardSkipped : Output → Bool
  fromSlice : List UInt8 → Result Output
  forBytes : List UInt8 → MeshArtifactIdV1
  forBytes_injective : Function.Injective forBytes

structure MeshResultChunkV1 where
  actor : MeshActorIdV1
  specSha256 : String
  index : Nat
  totalChunks : Nat
  chunk : MeshChunkIdV1
  bytes : List UInt8

structure RemotePollPolicy where
  maxResultBytes : Nat
  maxResultChunkBytes : Nat

def validateResultReceiveManifest (result : MeshActorResultV1) (policy : RemotePollPolicy) :
    Result Unit := do
  validateArtifactManifest result.artifact result.chunks
  bailIf (policy.maxResultBytes < result.artifact.bytes)
    s!"mesh actor result declares {result.artifact.bytes} bytes; authenticated node profile maximum is {policy.maxResultBytes}"
  match result.chunks.find? fun chunk => policy.maxResultChunkBytes < chunk.bytes with
  | some chunk => .error s!"mesh actor result chunk declares {chunk.bytes} bytes; authenticated node profile maximum is {policy.maxResultChunkBytes}"
  | none => .ok ()

def receiveChunk (actorRef : MeshActorRefV1) (result : MeshActorResultV1)
    (policy : RemotePollPolicy) (responses : Nat → Result MeshResultChunkV1)
    (encoded : List UInt8) (expected : MeshChunkIdV1 × Nat) : Result (List UInt8) := do
  let response ← responses expected.2
  bailIf (response.actor != actorRef.actor || response.specSha256 != actorRef.specSha256 ||
      response.index != expected.2 || response.totalChunks != result.chunks.length ||
      response.chunk != expected.1)
    s!"mesh result chunk {expected.2} does not match the terminal actor manifest"
  let assembled := encoded.length + response.bytes.length
  bailIf (policy.maxResultBytes < assembled || result.artifact.bytes < assembled)
    "mesh result chunks exceed the bound terminal artifact length"
  return encoded ++ response.bytes

/-- `responses` is what the requests for the chunks return, on the stream of the actor or on a
recovered one. -/
def fetchActorResult {Output : Type} (results : RouteResultsV1 Output)
    (actorRef : MeshActorRefV1) (result : MeshActorResultV1) (policy : RemotePollPolicy)
    (responses : Nat → Result MeshResultChunkV1) : Result Output := do
  validateResultReceiveManifest result policy
  let encoded ← result.chunks.zipIdx.foldlM (receiveChunk actorRef result policy responses) []
  let observed := results.forBytes encoded
  bailIf (observed != result.artifact)
    s!"mesh actor result artifact mismatch: expected {result.artifact.sha256} bytes {result.artifact.bytes}, received {observed.sha256} bytes {observed.bytes}"
  let decoded ← (results.fromSlice encoded).mapError fun error =>
    s!"mesh actor result JSON is malformed: {error}"
  bailIf (results.succeeded decoded != result.routeSucceeded ||
      results.exitCode decoded != result.exitCode)
    "mesh actor terminal summary disagrees with its decoded route result"
  return decoded

/-! ## Polling -/

inductive RemoteAttemptOutcome (Output : Type)
  | settled (result : Output)
  | failed (delivery : AttemptDeliveryState) (detail : String)
  | cancelled

inductive ActorStopReason
  | requestCancellation
  | raceCancellation
  | wallClockDeadline
deriving DecidableEq

/-- What one round of the loop reads and meets: the tokens and the clock, the stream of the actor,
and the recovered one if the request on the first fails. -/
structure MeshPollInputV1 where
  requestCancelled : Bool
  raceCancelled : Bool
  deadlinePassed : Bool
  gracePassed : Bool
  actorStream : MeshStreamV1
  reconnect : Result Unit
  recoveredStream : MeshStreamV1

namespace MeshPollInputV1

def stopReason (poll : MeshPollInputV1) : Option ActorStopReason :=
  if poll.requestCancelled then some .requestCancellation
  else if poll.raceCancelled then some .raceCancellation
  else if poll.deadlinePassed then some .wallClockDeadline
  else none

/-- A request on the actor stream, and again on a recovered one; the errors of both if it fails
twice. -/
def reconciled {Response : Type} (poll : MeshPollInputV1)
    (request : MeshStreamV1 → Except MeshClientRequestError Response) :
    Except (String × String) Response :=
  match request poll.actorStream with
  | .ok response => .ok response
  | .error first => do
      poll.reconnect.mapError fun error => (first.message, error)
      (request poll.recoveredStream).mapError fun error => (first.message, error.message)

end MeshPollInputV1

section Attempt

variable {Node Output : Type} (digests : MeshDigestsV1) (results : RouteResultsV1 Output)

/-- The answer to a Failed status. -/
def failedOutcome (stop : Option ActorStopReason) (code message : String) (retryable : Bool) :
    RemoteAttemptOutcome Output :=
  if code = "route-cancelled" then
    match stop with
    | some .requestCancellation | some .raceCancellation => .cancelled
    | some .wallClockDeadline => .failed .executed
        s!"mesh actor exceeded the route wall-clock deadline and durably settled cancellation: {message}"
    | none => .failed .executed s!"mesh actor recorded an unsolicited cancellation: {message}"
  else .failed .executed
    s!"mesh actor failed with {code} (retryable={retryable}): {message}"

def graceOutcome (stop : ActorStopReason) : RemoteAttemptOutcome Output :=
  .failed .ambiguous <| match stop with
    | .requestCancellation =>
        "request cancellation did not durably settle before its grace deadline"
    | .raceCancellation =>
        "race-loser cancellation did not durably settle before its grace deadline"
    | .wallClockDeadline =>
        "timed-out mesh actor did not durably settle cancellation before its grace deadline"

/-- The outcome that a status settles, unless the actor is running. -/
def settledOutcome (actorRef : MeshActorRefV1) (policy : RemotePollPolicy)
    (responses : Nat → Result MeshResultChunkV1) (stop : Option ActorStopReason) :
    MeshActorPhaseV1 → Option (RemoteAttemptOutcome Output)
  | .succeeded result => some <|
      match fetchActorResult results actorRef result policy responses with
      | .ok decoded => .settled decoded
      | .error error => .failed .executed s!"terminal mesh result validation failed: {error}"
  | .failed code message retryable => some (failedOutcome stop code message retryable)
  | .indeterminate =>
      some (.failed .ambiguous "destination retained an indeterminate actor record")
  | .running => none

/-- `poll_remote_actor`, empty while the loop goes on. -/
def pollRemoteActor (actorRef : MeshActorRefV1) (policy : RemotePollPolicy)
    (responses : Nat → Result MeshResultChunkV1) (status : MeshActorStatusV1)
    (stop : Option ActorStopReason) : List MeshPollInputV1 → Option (RemoteAttemptOutcome Output)
  | [] => settledOutcome results actorRef policy responses stop status.phase
  | poll :: rest =>
      match settledOutcome results actorRef policy responses stop status.phase with
      | some outcome => some outcome
      | none =>
          match stop, poll.stopReason with
          | none, some reason =>
              match poll.reconciled fun stream => cancelActor digests stream actorRef with
              | .error (first, second) => some (.failed .ambiguous
                  s!"mesh actor cancellation failed on the actor stream ({first}) and same-node reconciliation failed: {second}")
              | .ok cancellation =>
                  pollRemoteActor actorRef policy responses cancellation.status (some reason) rest
          | _, _ =>
              match stop.filter fun _ => poll.gracePassed with
              | some reason => some (graceOutcome reason)
              | none =>
                  match poll.reconciled fun stream => actorStatus digests stream actorRef with
                  | .error (first, second) => some (.failed .ambiguous
                      s!"running mesh actor status failed on the persistent stream ({first}) and same-node reconciliation failed: {second}")
                  | .ok status => pollRemoteActor actorRef policy responses status stop rest

/-! ## One attempt -/

/-- A peer, with the node that its pinned endpoints reach. -/
structure ResolvedMeshPeer (Node : Type) where
  node : Node
  nodeId : String
  maxResultBytes : Nat
  maxResultChunkBytes : Nat

/-- What one attempt reads and meets; `cancelled` is what its checks of the token read in turn. -/
structure MeshAttemptInputV1 where
  cancelled : Nat → Bool
  connect : Result Unit
  upload : Result Unit
  probe : Result MeshRouteProbeV1
  submit : MeshStreamV1
  reconnect : Result Unit
  fence : MeshStreamV1
  polls : List MeshPollInputV1
  chunks : Nat → Result MeshResultChunkV1

/-- `MeshActorSpecV1::new`. -/
def MeshActorSpecV1.ofRequirements (actor : MeshActorIdV1)
    (requirements : MeshRouteRequirementsV1) (targetNodeId : String) : MeshActorSpecV1 :=
  ⟨actor, targetNodeId, requirements.bundle, requirements.routeId,
    requirements.logicalGraphSha256, requirements.routeContractSha256, requirements.resources,
    requirements.executionLimits⟩

/-- An attempt up to the callback of its submission. -/
def prepareAttempt (peer : ResolvedMeshPeer Node) (requirements : MeshRouteRequirementsV1)
    (actor : MeshActorIdV1) (input : MeshAttemptInputV1) :
    Except (RemoteAttemptOutcome Output) (MeshActorSpecV1 × MeshActorRefV1) := do
  let notStarted := RemoteAttemptOutcome.failed .provenNotStarted
  bailIf (input.cancelled 0) .cancelled
  input.connect.mapError fun error =>
    notStarted s!"connection to {peer.nodeId} failed before actor submission: {error}"
  bailIf (input.cancelled 1) .cancelled
  input.upload.mapError fun error => notStarted s!"bundle upload to {peer.nodeId} failed: {error}"
  bailIf (input.cancelled 2) .cancelled
  let probe ← input.probe.mapError fun error =>
    notStarted s!"route probe on {peer.nodeId} failed: {error}"
  bailIf (input.cancelled 3) .cancelled
  bailIf (probe.nodeId != peer.nodeId || probe.requirements != requirements)
    (notStarted s!"route probe on {peer.nodeId} returned substituted identity")
  let missing := ", ".intercalate probe.missing
  bailIf (!probe.eligible) (notStarted s!"route is ineligible on {peer.nodeId}: {missing}")
  bailIf (probe.availableSlots == 0)
    (notStarted s!"route is eligible on {peer.nodeId} but has no free actor slot")
  let spec := MeshActorSpecV1.ofRequirements actor requirements peer.nodeId
  let actorRef ← (spec.actorRef digests).mapError fun error =>
    notStarted s!"mesh actor spec is invalid before submission: {error}"
  bailIf (input.cancelled 4) .cancelled
  return (spec, actorRef)

/-- The admission request of an attempt and what follows it. -/
def submitActor (policy : RemotePollPolicy) (spec : MeshActorSpecV1) (actorRef : MeshActorRefV1)
    (input : MeshAttemptInputV1) : Option (RemoteAttemptOutcome Output) :=
  let poll := fun status =>
    pollRemoteActor digests results actorRef policy input.chunks status none input.polls
  match executeActor digests input.submit spec with
  | .ok status => poll status
  | .error submitted =>
      if submitFailureProvesNotStarted (some submitted.disposition) submitted.rejectionStage then
        some (.failed .provenNotStarted
          s!"mesh node proved the actor request was not admitted: {submitted.message}")
      else
        let fenced := do
          input.reconnect
          (fenceActorIfAbsent digests input.fence actorRef).mapError
            MeshClientRequestError.message
        match fenced with
        | .ok (.existing status) => poll status
        | .ok (.fencedAbsent _) => some (.failed .provenNotStarted
            s!"mesh submit failed and destination durably fenced the actor absent: {submitted.message}")
        | .error error => some (.failed .ambiguous
            s!"mesh submit outcome is ambiguous ({submitted.message}); exact status reconciliation also failed: {error}")

/-- An attempt: the admission requests that went on the wire, and its outcome unless it is still
polling. -/
structure RemoteAttempt (Node Output : Type) where
  sent : List (Node × MeshActorSpecV1)
  outcome : Option (RemoteAttemptOutcome Output)

def executeRemoteAttempt (peer : ResolvedMeshPeer Node) (requirements : MeshRouteRequirementsV1)
    (actor : MeshActorIdV1) (input : MeshAttemptInputV1) : RemoteAttempt Node Output :=
  match prepareAttempt digests peer requirements actor input with
  | .error outcome => ⟨[], some outcome⟩
  | .ok (spec, actorRef) =>
      ⟨if (input.submit (.executeActor spec)).onWire then [(peer.node, spec)] else [],
        submitActor digests results ⟨peer.maxResultBytes, peer.maxResultChunkBytes⟩ spec actorRef
          input⟩

end Attempt

/-! ## Dispatch -/

structure MeshExecutionConfig where
  requirement : MeshRequirement
  localFallback : MeshLocalFallback
  maxRetries : Nat

/-- The arguments of a dispatch, and what it reads and meets: the requirements of the route, each
attempt, the checks of the token before each attempt and after the last, and the local run. -/
structure MeshDispatchV1 (Node Output : Type) where
  bundle : ProjectBundle
  routeId : String
  actorId : String
  requirements : Result MeshRouteRequirementsV1
  peers : List (ResolvedMeshPeer Node)
  preferredPeer : Nat
  config : MeshExecutionConfig
  attempts : Nat → MeshAttemptInputV1
  cancelled : Nat → Bool
  cancelledAfter : Bool
  localRun : Result Output

/-- What a dispatch did so far: the admission requests it sent, whether it ran the route locally,
and what it returned, empty while it polls. -/
structure DispatchReport (Node Output : Type) where
  sent : List (Node × MeshActorSpecV1)
  fellBack : Bool
  returned : Option (Result Output)

def debugExitCode : Option Int → String
  | some code => s!"Some({code})"
  | none => "None"

/-- The report with the requests that an earlier attempt sent. -/
def DispatchReport.after {Node Output : Type} (report : DispatchReport Node Output)
    (sent : List (Node × MeshActorSpecV1)) : DispatchReport Node Output :=
  { report with sent := sent ++ report.sent }

structure DispatchProgress (Output : Type) where
  lastDelivery : AttemptDeliveryState
  lastFailure : String
  lastSettledFailure : Option Output

namespace MeshDispatchV1

variable {Node Output : Type} (digests : MeshDigestsV1) (results : RouteResultsV1 Output)

def peer (dispatch : MeshDispatchV1 Node Output) (offset : Nat) :
    Option (ResolvedMeshPeer Node) :=
  dispatch.peers[(dispatch.preferredPeer + offset) % dispatch.peers.length]?

def cancelledActorError (dispatch : MeshDispatchV1 Node Output)
    (progress : DispatchProgress Output) : String :=
  if progress.lastDelivery = .ambiguous then
    s!"request or branch cancelled; remote outcome remains ambiguous: {progress.lastFailure}"
  else s!"route `{dispatch.routeId}` was canceled"

/-- What follows the loop. -/
def conclude (dispatch : MeshDispatchV1 Node Output) (replay : BranchReplayContract)
    (progress : DispatchProgress Output) : DispatchReport Node Output :=
  if dispatch.cancelledAfter then
    ⟨[], false, some (.error (dispatch.cancelledActorError progress))⟩
  else if mayFallbackLocally dispatch.config.requirement dispatch.config.localFallback
      progress.lastDelivery replay then
    ⟨[], true, some dispatch.localRun⟩
  else
    match progress.lastSettledFailure.filter fun _ => progress.lastDelivery = .executed with
    | some result => ⟨[], false, some (.ok result)⟩
    | none => ⟨[], false, some (.error s!"mesh actor `{dispatch.routeId}` did not settle and local fallback is not authorized: {progress.lastFailure}")⟩

/-- The loop over the attempts, from the given offset. -/
def dispatchFrom (dispatch : MeshDispatchV1 Node Output) (requirements : MeshRouteRequirementsV1)
    (replay : BranchReplayContract) :
    Nat → Nat → DispatchProgress Output → DispatchReport Node Output
  | 0, _, progress => dispatch.conclude replay progress
  | remaining + 1, offset, progress =>
      if dispatch.cancelled offset then
        ⟨[], false, some (.error (dispatch.cancelledActorError progress))⟩
      else
        match dispatch.peer offset with
        | none => dispatch.conclude replay progress
        | some peer =>
            if 0 < offset && !mayMigrateAfter progress.lastDelivery replay then
              dispatch.conclude replay progress
            else
              let attempt := executeRemoteAttempt digests results peer requirements
                ⟨dispatch.actorId, offset + 1⟩ (dispatch.attempts offset)
              let goOn := fun progress =>
                (dispatch.dispatchFrom requirements replay remaining (offset + 1) progress).after
                  attempt.sent
              match attempt.outcome with
              | none => ⟨attempt.sent, false, none⟩
              | some (.settled result) =>
                  let exit := debugExitCode (results.exitCode result)
                  if results.succeeded result || results.wasGuardSkipped result then
                    ⟨attempt.sent, false, some (.ok result)⟩
                  else goOn
                    ⟨mergeDeliveryState progress.lastDelivery .executed,
                      s!"mesh actor settled unsuccessfully on {peer.nodeId} with exit {exit}",
                      some result⟩
              | some .cancelled =>
                  ⟨attempt.sent, false, some (.error s!"route `{dispatch.routeId}` was canceled")⟩
              | some (.failed delivery detail) => goOn
                  ⟨mergeDeliveryState progress.lastDelivery delivery, detail,
                    if delivery = .provenNotStarted then progress.lastSettledFailure else none⟩

/-- The contract, the requirements and the number of attempts of a dispatch. -/
def plan (dispatch : MeshDispatchV1 Node Output) :
    Result (BranchReplayContract × MeshRouteRequirementsV1 × Nat) := do
  let replay ← branchReplayContract dispatch.bundle dispatch.routeId
  let requirements ← dispatch.requirements
  bailIf (2 ^ 32 ≤ dispatch.config.maxRetries + 1) "mesh attempt count overflowed"
  return (replay, requirements, dispatch.config.maxRetries + 1)

def dispatchRouteActor (dispatch : MeshDispatchV1 Node Output) : DispatchReport Node Output :=
  match dispatch.plan with
  | .error error => ⟨[], false, some (.error error)⟩
  | .ok (replay, requirements, attempts) =>
      dispatch.dispatchFrom digests results requirements replay attempts 0
        ⟨.provenNotStarted, "no eligible remote mesh peer was discovered", none⟩

end MeshDispatchV1

end Ostadix.Mesh
