import Ostadix.Lib.Machine
import Ostadix.Lib.OrderedMap
import Ostadix.Mesh.Actor

/-! # A mesh node

`MeshNodeRuntime` over one state directory. Every request and every worker is a thread; a thread
goes from one region to the next, where a region is what it does under one lock, or between two
locks. The regions of different threads interleave in any order, and a crash at any point keeps
only the directory. -/

namespace Ostadix.Mesh

open Ostadix.Lib Ostadix.Fabric

/-- The digests of canonical bytes: of a spec, and of a coordinate under the domain of the storage
keys. -/
structure MeshDigestsV1 where
  canonicalHostedSha256 : MeshActorSpecV1 → Result String
  actorStorageDigest : MeshActorIdV1 → Result String

structure MeshNodeRuntimeConfigV1 where
  nodeId : String
  maxStorageBytes : Nat
  maxConcurrentActors : Nat
  memoryCapacityBytes : Option Nat
  gpuDevices : List String
  availableBackends : List String
  maxProjectIrBytes : Nat
  executionLimitCeiling : MeshExecutionLimitsV1

variable (digests : MeshDigestsV1)

def MeshActorSpecV1.sha256 (spec : MeshActorSpecV1) : Result String := do
  spec.validate
  digests.canonicalHostedSha256 spec

def MeshActorSpecV1.actorRef (spec : MeshActorSpecV1) : Result MeshActorRefV1 := do
  let specSha256 ← spec.sha256 digests
  return ⟨spec.actor, specSha256⟩

def actorStorageKey (actor : MeshActorIdV1) : MeshNodeResult String := do
  actor.validate.mapError fun error => meshError "invalid-actor" error false
  (digests.actorStorageDigest actor).mapError fun error => meshError "invalid-actor" error false

def validateActorRecordIntegrity (record : MeshActorRecordV1) : Result MeshActorRefV1 := do
  record.spec.validate
  record.status.validate
  let actorRef ← record.spec.actorRef digests
  bailIf (record.status.actorRef != actorRef)
    "actor record status does not match its exact stored spec"
  return actorRef

/-! ## Route probe -/

structure MeshProjectIrProjectionV1 where
  sha256 : String
  canonicalBytesLen : Nat

/-- What the probe reads of a bundle about one route. -/
structure MeshBundleViewV1 where
  hasRoute : Bool
  routeContractSha256 : Result String
  projectIrProjection : Result MeshProjectIrProjectionV1
  missingRuntimeRequirements : List String

structure MeshRouteProbeV1 where
  nodeId : String
  requirements : MeshRouteRequirementsV1
  eligible : Bool
  missing : List String
  availableSlots : Nat

def missingOfBundle (config : MeshNodeRuntimeConfigV1) (requirements : MeshRouteRequirementsV1) :
    MeshNodeResult MeshBundleViewV1 → List String
  | .error error =>
      if error.code = "artifact-not-found" then [s!"bundle:{requirements.bundle.sha256}"]
      else [s!"bundle-invalid:{error.message}"]
  | .ok bundle =>
      if bundle.hasRoute then
        (match bundle.routeContractSha256 with
          | .ok actual =>
              if actual = requirements.routeContractSha256 then [] else ["route-contract-digest"]
          | .error error => [s!"route-contract:{error}"]) ++
        (match bundle.projectIrProjection with
          | .ok actual =>
              (if actual.sha256 = requirements.logicalGraphSha256 then []
                else ["logical-graph-digest"]) ++
              (if actual.canonicalBytesLen = requirements.resources.projectIrBytes then []
                else [s!"project-ir-bytes-mismatch:{requirements.resources.projectIrBytes}!={actual.canonicalBytesLen}"]) ++
              (if actual.canonicalBytesLen ≤ config.maxProjectIrBytes then []
                else [s!"project-ir-bytes:{actual.canonicalBytesLen}>{config.maxProjectIrBytes}"])
          | .error error => [s!"logical-graph:{error}"]) ++
        bundle.missingRuntimeRequirements
      else [s!"route:{requirements.routeId}"]

def missingOfMemory (config : MeshNodeRuntimeConfigV1) (wanted : Nat) : List String :=
  if wanted = 0 then []
  else
    (match config.memoryCapacityBytes with
      | some available => if wanted ≤ available then [] else [s!"memory-bytes:{wanted}>{available}"]
      | none => ["memory-capacity-unobserved"]) ++
    ["memory-reservation-unsupported"]

def missingOfGpu (config : MeshNodeRuntimeConfigV1) (wanted : Nat) : List String :=
  if wanted = 0 then []
  else
    (if wanted ≤ config.gpuDevices.length then []
      else [s!"gpu-devices:{wanted}>{config.gpuDevices.length}"]) ++
    ["gpu-reservation-unsupported"]

def missingOfCapacity (config : MeshNodeRuntimeConfigV1) (requirements : MeshRouteRequirementsV1)
    (bundleLoaded : Bool) (availableSlots storageAvailable : Nat) : List String :=
  let resources := requirements.resources
  (if requirements.executionLimits.fitsWithin config.executionLimitCeiling then []
    else ["execution-limits-policy"]) ++
  (if resources.actorSlots ≤ availableSlots then []
    else [s!"available-slots:{resources.actorSlots}>{availableSlots}"]) ++
  missingOfMemory config resources.minMemoryBytes ++
  missingOfGpu config resources.minGpuDevices ++
  (resources.requiredBackends.filter fun backend => !config.availableBackends.contains backend).map
    (fun backend => s!"backend:{backend}") ++
  (if bundleLoaded || resources.projectIrBytes ≤ config.maxProjectIrBytes then []
    else [s!"declared-project-ir-bytes:{resources.projectIrBytes}>{config.maxProjectIrBytes}"]) ++
  (if bundleLoaded || resources.bundleStorageBytes ≤ storageAvailable then []
    else [s!"bundle-storage-bytes:{resources.bundleStorageBytes}>{storageAvailable}"])

/-- The requirements a probe reports as missing, in the order it finds them. -/
def missingRequirements (config : MeshNodeRuntimeConfigV1) (requirements : MeshRouteRequirementsV1)
    (bundle : MeshNodeResult MeshBundleViewV1) (active storageUsed : Nat) : List String :=
  missingOfBundle config requirements bundle ++
    missingOfCapacity config requirements bundle.toBool (config.maxConcurrentActors - active)
      (config.maxStorageBytes - storageUsed)

/-- `probe_route`, from the bundle it loads, the number of active actors, the bytes in use and the
clock. -/
def probeRoute (config : MeshNodeRuntimeConfigV1) (requirements : MeshRouteRequirementsV1)
    (bundle : MeshNodeResult MeshBundleViewV1) (active storageUsed : Nat) (now : Result Nat) :
    MeshNodeResult MeshRouteProbeV1 := do
  requirements.validate.mapError fun error => meshError "invalid-requirements" error false
  let _ ← now.mapError fun error => meshError "clock" error true
  let missing := missingRequirements config requirements bundle active storageUsed
  return ⟨config.nodeId, requirements, missing.isEmpty,
    (missing.mergeSort fun left right => left ≤ right).eraseReps,
    config.maxConcurrentActors - active⟩

/-- What `execute_actor` decides before it takes the coordinate lock. -/
def executeChecks (config : MeshNodeRuntimeConfigV1) (spec : MeshActorSpecV1)
    (bundle : MeshNodeResult MeshBundleViewV1) (active storageUsed : Nat) (now : Result Nat) :
    MeshNodeResult (MeshActorRefV1 × String) := do
  spec.validate.mapError fun error => meshPreAdmissionError "invalid-actor" error false
  bailIf (spec.targetNodeId != config.nodeId) (meshPreAdmissionError "wrong-target-node"
    s!"actor targets node `{spec.targetNodeId}` but this node is `{config.nodeId}`" false)
  bailIf (!spec.executionLimits.fitsWithin config.executionLimitCeiling)
    (meshPreAdmissionError "execution-limits-exceed-node-policy"
      "actor execution limits exceed or differ from this node's declared policy ceiling" false)
  let specSha256 ← (spec.sha256 digests).mapError fun error =>
    meshPreAdmissionError "invalid-actor" error false
  let key ← actorStorageKey digests spec.actor
  let probe ← probeRoute config spec.requirements bundle active storageUsed now
  bailIf (!probe.eligible) (meshPreAdmissionError "route-ineligible"
    ("node rejected route requirements: " ++ ", ".intercalate probe.missing) false)
  return (⟨spec.actor, specSha256⟩, key)

/-! ## Threads -/

inductive MeshRequestV1
  | executeActor (spec : MeshActorSpecV1)
  | actorStatus (actorRef : MeshActorRefV1)
  | cancelActor (actorRef : MeshActorRefV1)
  | fenceActorIfAbsent (actorRef : MeshActorRefV1)
deriving DecidableEq

/-- `MeshRequestV1::validate`, for the protocol this node speaks. -/
def MeshRequestV1.validate : MeshRequestV1 → Result Unit
  | .executeActor spec => spec.validate
  | .actorStatus actorRef | .cancelActor actorRef | .fenceActorIfAbsent actorRef =>
      actorRef.validate

inductive MeshResponseV1
  | actorStatus (status : MeshActorStatusV1)
  | actorCancellation (cancellation : MeshActorCancellationV1)
  | actorFence (fence : MeshActorFenceV1)
deriving DecidableEq

/-- The call that waits for a status. -/
inductive MeshStatusUseV1
  | status
  | execute
  | fence
  | cancel (requested : Bool)
deriving DecidableEq

def MeshStatusUseV1.response (status : MeshActorStatusV1) : MeshStatusUseV1 → MeshResponseV1
  | .status | .execute => .actorStatus status
  | .fence => .actorFence (.existing status)
  | .cancel requested => .actorCancellation ⟨status, requested⟩

/-- A thread and the region it enters next. `admitted` and `spawning` hold the coordinate lock. -/
inductive MeshThreadV1
  | execute (spec : MeshActorSpecV1)
  | admitting (spec : MeshActorSpecV1) (actorRef : MeshActorRefV1) (key : String)
  | admitted (spec : MeshActorSpecV1) (actorRef : MeshActorRefV1) (key : String)
  | spawning (spec : MeshActorSpecV1) (actorRef : MeshActorRefV1) (key : String)
      (running : MeshActorStatusV1)
  | statusRead (use : MeshStatusUseV1) (actorRef : MeshActorRefV1)
  | statusActive (use : MeshStatusUseV1) (actorRef : MeshActorRefV1) (key : String)
      (status : MeshActorStatusV1)
  | statusReconcile (use : MeshStatusUseV1) (actorRef : MeshActorRefV1) (key : String)
  | fence (actorRef : MeshActorRefV1)
  | cancel (actorRef : MeshActorRefV1)
  | replying (answer : MeshNodeResult MeshResponseV1)
  | worker (spec : MeshActorSpecV1) (actorRef : MeshActorRefV1) (key : String)
  | settling (spec : MeshActorSpecV1) (actorRef : MeshActorRefV1) (key : String)
      (phase : MeshActorPhaseV1)
  | ending (key : String)

/-- The next region of the thread begins by taking the coordinate lock. -/
def MeshThreadV1.locksCoordinate : MeshThreadV1 → Bool
  | .admitting .. | .statusRead .. | .statusReconcile .. | .fence _ | .settling .. => true
  | _ => false

structure ActiveActorV1 where
  specSha256 : String
  cancelled : Bool
deriving DecidableEq

/-- The state directory, and what the process holds in memory; `config` is empty while no runtime
owns the directory. -/
structure MeshNodeV1 where
  records : OrderedMap String MeshActorRecordV1
  fences : OrderedMap String MeshActorFenceRecordV1
  config : Option MeshNodeRuntimeConfigV1
  acceptingActors : Bool
  activeActors : OrderedMap String ActiveActorV1
  coordinate : Option Nat
  threads : OrderedMap Nat MeshThreadV1
  nextThread : Nat

/-- The outcome of a route execution, up to the terminal status. `lost` ends the worker without
one. -/
inductive MeshRouteOutcomeV1
  | stored (result : MeshActorResultV1)
  | routeFailed (error : MeshProtocolErrorV1)
  | resultFailed (error : MeshProtocolErrorV1)
  | lost

/-- What a region finds outside the directory of the actors: the stored bundle, the bytes in use,
the clock, whether a record encodes and fits the quota, whether a thread starts, and what became of
the route. -/
structure MeshInputV1 where
  bundle : MeshNodeResult MeshBundleViewV1
  storageUsed : Nat
  now : Result Nat
  encoded : Result Unit
  quota : Result Unit
  spawned : Result Unit
  outcome : MeshRouteOutcomeV1

inductive MeshOutputV1
  | silent
  | invoked (thread : Nat) (request : MeshRequestV1)
  | started (thread : Nat) (spec : MeshActorSpecV1)
  | response (thread : Nat) (answer : MeshNodeResult MeshResponseV1)

namespace MeshNodeV1

def proceed (node : MeshNodeV1) (id : Nat) (thread : MeshThreadV1) : MeshNodeV1 :=
  { node with threads := node.threads.insert id thread }

/-- A new thread. -/
def launch (node : MeshNodeV1) (thread : MeshThreadV1) : MeshNodeV1 :=
  { node with
    threads := node.threads.insert node.nextThread thread
    nextThread := node.nextThread + 1 }

def finish (node : MeshNodeV1) (id : Nat) : MeshNodeV1 :=
  { node with threads := node.threads.erase id }

def reply (node : MeshNodeV1) (id : Nat) (answer : MeshNodeResult MeshResponseV1) : MeshNodeV1 :=
  node.proceed id (.replying answer)

def lock (node : MeshNodeV1) (id : Nat) : MeshNodeV1 :=
  { node with coordinate := some id }

def unlock (node : MeshNodeV1) : MeshNodeV1 :=
  { node with coordinate := none }

def putRecord (node : MeshNodeV1) (key : String) (record : MeshActorRecordV1) : MeshNodeV1 :=
  { node with records := node.records.insert key record }

def putFence (node : MeshNodeV1) (key : String) (fence : MeshActorFenceRecordV1) : MeshNodeV1 :=
  { node with fences := node.fences.insert key fence }

def putActive (node : MeshNodeV1) (key : String) (actor : ActiveActorV1) : MeshNodeV1 :=
  { node with activeActors := node.activeActors.insert key actor }

/-- The drop of an `ActiveActorGuard`. -/
def dropGuard (node : MeshNodeV1) (key : String) : MeshNodeV1 :=
  { node with activeActors := node.activeActors.erase key }

/-! ## Storage -/

def readActorRecord (node : MeshNodeV1) (key : String) (expected : MeshActorRefV1) :
    MeshNodeResult MeshActorRecordV1 :=
  match node.records.get? key with
  | none => .error (meshError "actor-not-found" s!"failed to read actors/{key}.record" false)
  | some record => do
      let actual ← (validateActorRecordIntegrity digests record).mapError fun error =>
        meshError "actor-corrupt" s!"stored actor record is internally inconsistent: {error}" false
      bailIf (actual != expected) (meshError "actor-conflict"
        "actor coordinate is durably bound to a different exact actor spec" false)
      return record

def encodeRecord (input : MeshInputV1) : MeshNodeResult Unit :=
  input.encoded.mapError fun error => meshError "storage-encode" error false

def ensureStorageCapacity (input : MeshInputV1) : MeshNodeResult Unit :=
  input.quota.mapError fun error => meshError "storage-full" error true

def storeActorRecord (node : MeshNodeV1) (input : MeshInputV1) (key : String)
    (record : MeshActorRecordV1) (replace : Bool) : MeshNodeResult MeshNodeV1 := do
  let _ ← (validateActorRecordIntegrity digests record).mapError fun error =>
    meshError "actor-corrupt" s!"refusing to persist an inconsistent actor record: {error}" false
  encodeRecord input
  bailIf (!replace && (node.records.get? key).isSome) (meshError "actor-conflict"
    "actor id/generation was concurrently admitted" false)
  ensureStorageCapacity input
  return node.putRecord key record

/-! ## Admission -/

def acquireActorSlot (node : MeshNodeV1) (config : MeshNodeRuntimeConfigV1)
    (key specSha256 : String) : MeshNodeResult MeshNodeV1 := do
  bailIf (!node.acceptingActors) (meshPreAdmissionError "node-shutting-down"
    "node is no longer admitting mesh actors" true)
  bailIf (config.maxConcurrentActors ≤ node.activeActors.size)
    (meshPreAdmissionError "capacity-exhausted" "node has no available mesh actor slots" true)
  bailIf (node.activeActors.get? key).isSome (meshError "actor-conflict"
    "actor coordinate is already active without a durable record" false)
  return node.putActive key ⟨specSha256, false⟩

/-- A fence that is found under the coordinate: another spec, or this one. -/
def fencedAnswer (fence : MeshActorFenceRecordV1) (actorRef : MeshActorRefV1) :
    MeshProtocolErrorV1 :=
  match validateActorFenceRecord fence with
  | .error error => meshError "actor-fence-corrupt"
      s!"stored actor fence is internally inconsistent: {error}" false
  | .ok () =>
      if fence.actorRef = actorRef then meshPreAdmissionError "actor-fenced"
        "actor id/generation was durably fenced absent and cannot be executed" false
      else meshError "actor-conflict"
        "actor coordinate is fenced for a different exact actor spec" false

/-- The lookup under the coordinate lock, which is kept only by a call that acquires a slot. -/
def admitActor (node : MeshNodeV1) (config : MeshNodeRuntimeConfigV1) (id : Nat)
    (spec : MeshActorSpecV1) (actorRef : MeshActorRefV1) (key : String) : MeshNodeV1 :=
  match node.fences.get? key with
  | some fence => node.reply id (.error (fencedAnswer fence actorRef))
  | none =>
      if (node.records.get? key).isSome then
        match node.readActorRecord digests key actorRef with
        | .error error => node.reply id (.error error)
        | .ok record =>
            if record.spec = spec then node.proceed id (.statusRead .execute actorRef)
            else node.reply id (.error (meshError "actor-conflict"
              "actor id/generation is already bound to a different exact actor spec" false))
      else
        match node.acquireActorSlot config key actorRef.specSha256 with
        | .error error => node.reply id (.error error)
        | .ok acquired =>
            (acquired.lock id).proceed id (.admitted spec actorRef key)

/-- The durable Running record. A call that cannot store it drops its guard and the lock. -/
def storeRunning (node : MeshNodeV1) (id : Nat) (spec : MeshActorSpecV1)
    (actorRef : MeshActorRefV1) (key : String) (input : MeshInputV1) : MeshNodeV1 :=
  let stored : MeshNodeResult (MeshActorStatusV1 × MeshNodeV1) := do
    let updatedAt ← input.now.mapError fun error => meshError "clock" error true
    let running := ⟨actorRef.actor, actorRef.specSha256, .running, updatedAt⟩
    let node ← node.storeActorRecord digests input key ⟨spec, running⟩ false
    return (running, node)
  match stored with
  | .error error => ((node.dropGuard key).unlock).reply id (.error error)
  | .ok (running, node) => node.proceed id (.spawning spec actorRef key running)

/-- The record of an actor whose worker did not start. -/
def storeUnspawned (node : MeshNodeV1) (id : Nat) (spec : MeshActorSpecV1)
    (actorRef : MeshActorRefV1) (key reason : String) (input : MeshInputV1) : MeshNodeV1 :=
  let stored : MeshNodeResult (MeshActorStatusV1 × MeshNodeV1) := do
    let updatedAt ← input.now.mapError fun error => meshError "clock" error true
    let status := ⟨actorRef.actor, actorRef.specSha256, .failed "worker-spawn"
      (truncateHostedErrorMessage s!"failed to spawn mesh actor worker: {reason}") true, updatedAt⟩
    let node ← node.storeActorRecord digests input key ⟨spec, status⟩ true
    return (status, node)
  match stored with
  | .error error => node.unlock.reply id (.error error)
  | .ok (status, node) => node.unlock.reply id (.ok (.actorStatus status))

/-- The spawn of the worker, which takes the guard with it. -/
def spawnWorker (node : MeshNodeV1) (id : Nat) (spec : MeshActorSpecV1)
    (actorRef : MeshActorRefV1) (key : String) (running : MeshActorStatusV1)
    (input : MeshInputV1) : MeshNodeV1 × MeshOutputV1 :=
  match input.spawned with
  | .error reason =>
      ((node.dropGuard key).storeUnspawned digests id spec actorRef key reason input, .silent)
  | .ok () =>
      let answered := node.unlock.reply id (.ok (.actorStatus running))
      (answered.launch (.worker spec actorRef key), .started id spec)

/-! ## Status -/

/-- `actor_status` up to its first read of the record. -/
def readStatus (node : MeshNodeV1) (id : Nat) (use : MeshStatusUseV1) (actorRef : MeshActorRefV1) :
    MeshNodeV1 :=
  let read : MeshNodeResult (String × MeshActorRecordV1) := do
    actorRef.validate.mapError fun error => meshError "invalid-actor-reference" error false
    let key ← actorStorageKey digests actorRef.actor
    let record ← node.readActorRecord digests key actorRef
    return (key, record)
  match read with
  | .error error => node.reply id (.error error)
  | .ok (key, record) =>
      if record.status.phase = .running then
        node.proceed id (.statusActive use actorRef key record.status)
      else node.reply id (.ok (use.response record.status))

/-- The look at the owner table, behind a Running record. -/
def checkActive (node : MeshNodeV1) (id : Nat) (use : MeshStatusUseV1) (actorRef : MeshActorRefV1)
    (key : String) (status : MeshActorStatusV1) : MeshNodeV1 :=
  match node.activeActors.get? key with
  | some actor =>
      if actor.specSha256 = actorRef.specSha256 then node.reply id (.ok (use.response status))
      else node.reply id (.error (meshError "actor-corrupt"
        "active actor binding disagrees with durable actor status" false))
  | none => node.proceed id (.statusReconcile use actorRef key)

/-- A record without an owner that is still Running is indeterminate. -/
def reconciled (status : MeshActorStatusV1) : MeshActorStatusV1 :=
  if status.phase = .running then { status with phase := .indeterminate } else status

/-- `reconcile_inactive_running_status`. -/
def reconcile (node : MeshNodeV1) (id : Nat) (use : MeshStatusUseV1) (actorRef : MeshActorRefV1)
    (key : String) : MeshNodeV1 :=
  match node.readActorRecord digests key actorRef with
  | .error error => node.reply id (.error error)
  | .ok record => node.reply id (.ok (use.response (reconciled record.status)))

/-! ## Fence and cancellation -/

/-- The fence of a coordinate without a record. -/
def storeFence (node : MeshNodeV1) (key : String) (actorRef : MeshActorRefV1)
    (input : MeshInputV1) : MeshNodeResult MeshNodeV1 :=
  match node.fences.get? key with
  | some fence => do
      (validateActorFenceRecord fence).mapError fun error => meshError "actor-fence-corrupt"
        s!"stored actor fence is internally inconsistent: {error}" false
      bailIf (fence.actorRef != actorRef) (meshError "actor-conflict"
        "actor coordinate is already fenced for a different exact actor spec" false)
      return node
  | none => do
      let fencedAt ← input.now.mapError fun error => meshError "clock" error true
      (validateActorFenceRecord ⟨actorRef, fencedAt⟩).mapError fun error =>
        meshError "actor-fence-corrupt"
          s!"refusing to persist an inconsistent actor fence: {error}" false
      encodeRecord input
      ensureStorageCapacity input
      return node.putFence key ⟨actorRef, fencedAt⟩

def fenceActorIfAbsent (node : MeshNodeV1) (id : Nat) (actorRef : MeshActorRefV1)
    (input : MeshInputV1) : MeshNodeV1 :=
  let key : MeshNodeResult String := do
    actorRef.validate.mapError fun error => meshError "invalid-actor-reference" error false
    actorStorageKey digests actorRef.actor
  match key with
  | .error error => node.reply id (.error error)
  | .ok key =>
      if (node.records.get? key).isSome then node.proceed id (.statusRead .fence actorRef)
      else
        match node.storeFence key actorRef input with
        | .error error => node.reply id (.error error)
        | .ok fenced => fenced.reply id (.ok (.actorFence (.fencedAbsent actorRef)))

def cancelled (actor : ActiveActorV1) : ActiveActorV1 :=
  { actor with cancelled := true }

def cancelActive (node : MeshNodeV1) (key : String) : MeshNodeV1 :=
  { node with activeActors := node.activeActors.modify key cancelled }

def cancelActor (node : MeshNodeV1) (id : Nat) (actorRef : MeshActorRefV1) : MeshNodeV1 :=
  let key : MeshNodeResult String := do
    actorRef.validate.mapError fun error => meshError "invalid-actor-reference" error false
    actorStorageKey digests actorRef.actor
  match key with
  | .error error => node.reply id (.error error)
  | .ok key =>
      match node.activeActors.get? key with
      | none => node.proceed id (.statusRead (.cancel false) actorRef)
      | some actor =>
          if actor.specSha256 = actorRef.specSha256 then
            (node.cancelActive key).proceed id (.statusRead (.cancel true) actorRef)
          else node.reply id (.error (meshError "actor-conflict"
            "active actor coordinate carries a different exact actor spec" false))

/-! ## Workers -/

def terminalPhase : MeshRouteOutcomeV1 → Option MeshActorPhaseV1
  | .stored result => some (.succeeded result)
  | .routeFailed error => some (.failed error.code error.message false)
  | .resultFailed error => some (.failed error.code error.message error.retryable)
  | .lost => none

/-- `run_actor_worker` up to the terminal status. -/
def runRoute (node : MeshNodeV1) (id : Nat) (spec : MeshActorSpecV1) (actorRef : MeshActorRefV1)
    (key : String) (input : MeshInputV1) : MeshNodeV1 :=
  match terminalPhase input.outcome with
  | some phase => node.proceed id (.settling spec actorRef key phase)
  | none => node.proceed id (.ending key)

/-- `store_terminal_actor_record`; a status that cannot be stored is lost with the worker. -/
def storeTerminal (node : MeshNodeV1) (id : Nat) (spec : MeshActorSpecV1)
    (actorRef : MeshActorRefV1) (key : String) (phase : MeshActorPhaseV1) (input : MeshInputV1) :
    MeshNodeV1 :=
  let stored : MeshNodeResult MeshNodeV1 := do
    let updatedAt ← input.now.mapError fun error => meshError "clock" error true
    node.storeActorRecord digests input key
      ⟨spec, actorRef.actor, actorRef.specSha256, phase, updatedAt⟩ true
  match stored with
  | .error _ => node.proceed id (.ending key)
  | .ok node => node.proceed id (.ending key)

/-- The end of a worker. -/
def endWorker (node : MeshNodeV1) (id : Nat) (key : String) : MeshNodeV1 :=
  (node.dropGuard key).finish id

/-! ## Steps -/

def runThread (node : MeshNodeV1) (config : MeshNodeRuntimeConfigV1) (id : Nat)
    (input : MeshInputV1) : MeshThreadV1 → MeshNodeV1 × MeshOutputV1
  | .execute spec =>
      match executeChecks digests config spec input.bundle node.activeActors.size input.storageUsed
          input.now with
      | .error error => (node.reply id (.error error), .silent)
      | .ok (actorRef, key) => (node.proceed id (.admitting spec actorRef key), .silent)
  | .admitting spec actorRef key => (node.admitActor digests config id spec actorRef key, .silent)
  | .admitted spec actorRef key => (node.storeRunning digests id spec actorRef key input, .silent)
  | .spawning spec actorRef key running =>
      node.spawnWorker digests id spec actorRef key running input
  | .statusRead use actorRef => (node.readStatus digests id use actorRef, .silent)
  | .statusActive use actorRef key status =>
      (node.checkActive id use actorRef key status, .silent)
  | .statusReconcile use actorRef key => (node.reconcile digests id use actorRef key, .silent)
  | .fence actorRef => (node.fenceActorIfAbsent digests id actorRef input, .silent)
  | .cancel actorRef => (node.cancelActor digests id actorRef, .silent)
  | .replying answer => (node.finish id, .response id answer)
  | .worker spec actorRef key => (node.runRoute id spec actorRef key input, .silent)
  | .settling spec actorRef key phase =>
      (node.storeTerminal digests id spec actorRef key phase input, .silent)
  | .ending key => (node.endWorker id key, .silent)

/-- The first region of a request. -/
def firstThread : MeshRequestV1 → MeshThreadV1
  | .executeActor spec => .execute spec
  | .actorStatus actorRef => .statusRead .status actorRef
  | .cancelActor actorRef => .cancel actorRef
  | .fenceActorIfAbsent actorRef => .fence actorRef

/-- A request over the wire goes through `handle_request`, a call within the process does not. -/
def openingThread (wire : Bool) (request : MeshRequestV1) : MeshThreadV1 :=
  match wire, request.validate with
  | true, .error error => .replying (.error (meshPreAdmissionError "invalid-request" error false))
  | _, _ => firstThread request

def crashed (node : MeshNodeV1) : MeshNodeV1 :=
  { node with
    config := none
    acceptingActors := false
    activeActors := .empty
    coordinate := none
    threads := .empty }

end MeshNodeV1

inductive MeshEventV1
  | opening (config : MeshNodeRuntimeConfigV1)
  | crash
  | shutdown
  | request (wire : Bool) (request : MeshRequestV1)
  | resume (thread : Nat) (input : MeshInputV1)

namespace MeshNodeV1

/-- A thread that waits for the coordinate lock stays where it is. -/
def step (node : MeshNodeV1) : MeshEventV1 → MeshNodeV1 × MeshOutputV1
  | .opening config =>
      if node.config.isNone then
        ({ node with config := some config, acceptingActors := true }, .silent)
      else (node, .silent)
  | .crash => (node.crashed, .silent)
  | .shutdown =>
      ({ node with
          acceptingActors := false
          activeActors := node.activeActors.mapValues cancelled }, .silent)
  | .request wire request =>
      if node.config.isSome then
        (node.launch (openingThread wire request), .invoked node.nextThread request)
      else (node, .silent)
  | .resume id input =>
      match node.config, node.threads.get? id with
      | some config, some thread =>
          if thread.locksCoordinate && node.coordinate.isSome then (node, .silent)
          else node.runThread digests config id input thread
      | _, _ => (node, .silent)

/-- An empty state directory. -/
def fresh : MeshNodeV1 :=
  ⟨.empty, .empty, none, false, .empty, none, .empty, 0⟩

end MeshNodeV1

end Ostadix.Mesh
