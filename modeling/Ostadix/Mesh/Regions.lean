import Ostadix.Mesh.Node

/-! # What a region does

`Region` says once what each region of a thread may do to the node: which facts it found, what it
changed, and the region the thread enters next. `region_runThread` reads it off the functions of
the node; every invariant is proved from `Region`. -/

namespace Ostadix.Mesh

open Ostadix.Lib Ostadix.Fabric

variable {ds : MeshDigestsV1}

/-! ## Successful calls -/

/-- A spec bound to its reference and storage key. -/
structure Bound (digests : MeshDigestsV1) (spec : MeshActorSpecV1) (actorRef : MeshActorRefV1)
    (key : String) : Prop where
  digest : spec.actorRef digests = .ok actorRef
  stored : actorStorageKey digests actorRef.actor = .ok key

variable {ref : MeshActorRefV1} {key : String} {spec : MeshActorSpecV1}
  {cfg : MeshNodeRuntimeConfigV1} {th : MeshThreadV1}

theorem actor_of_actorRef (dg : spec.actorRef ds = .ok ref) : ref.actor = spec.actor := by
  obtain ⟨_, _, ⟨⟩⟩ := bind_eq_ok.mp dg
  rfl

theorem executeChecks_bound
    {bundle : MeshNodeResult MeshBundleViewV1} {act storageUsed : Nat} {now : Result Nat}
    (ps : executeChecks ds cfg spec bundle act storageUsed now =
      .ok (ref, key)) : Bound ds spec ref key := by
  simp only [executeChecks, bind_eq_ok, mapError_eq_ok, bailIf_eq_ok] at ps
  obtain ⟨_, _, _, _, _, _, _, dg, _, hst, _, _, _, _, ⟨⟩⟩ := ps
  refine ⟨?_, hst⟩
  rw [MeshActorSpecV1.actorRef, dg]
  rfl

variable {record : MeshActorRecordV1}

theorem integrity_eq_ok (hv : validateActorRecordIntegrity ds record = .ok ref) :
    record.spec.actorRef ds = .ok ref ∧ record.status.actorRef = ref := by
  simp only [validateActorRecordIntegrity, bind_eq_ok, bailIf_eq_ok] at hv
  obtain ⟨_, _, _, _, _, dg, _, he, ⟨⟩⟩ := hv
  exact ⟨dg, by simpa using he⟩

namespace MeshNodeV1

theorem readActorRecord_eq_ok {n : MeshNodeV1} {ref : MeshActorRefV1} :
    n.readActorRecord ds key ref = .ok record ↔ n.records.get? key = some record ∧
        validateActorRecordIntegrity ds record = .ok ref := by
  unfold readActorRecord
  cases hf : n.records.get? key with
  | none => simp
  | some =>
    simp only [bind_eq_ok, mapError_eq_ok, bailIf_eq_ok, Option.some.injEq]
    constructor
    · rintro ⟨actual, hv, _, he, ⟨⟩⟩
      have expectedRef : actual = ref := by simpa using he
      exact ⟨rfl, expectedRef ▸ hv⟩
    · rintro ⟨rfl, hv⟩
      exact ⟨ref, hv, (), by simp, rfl⟩

theorem storeActorRecord_eq_ok {n nd : MeshNodeV1} {inp : MeshInputV1} {replace : Bool}
    (ok : n.storeActorRecord ds inp key record replace = .ok nd) :
    (∃ ref, validateActorRecordIntegrity ds record = .ok ref) ∧
      (replace = false → n.records.get? key = none) ∧
      nd = n.putRecord key record := by
  simp only [storeActorRecord, bind_eq_ok, mapError_eq_ok, bailIf_eq_ok] at ok
  obtain ⟨ref, hv, _, _, _, hab, _, _, ⟨⟩⟩ := ok
  refine ⟨⟨ref, hv⟩, ?_, rfl⟩
  rintro rfl
  simpa using hab

theorem acquireActorSlot_eq_ok {n acquired : MeshNodeV1} {k specSha256 : String}
    (ok : n.acquireActorSlot cfg k specSha256 = .ok acquired) :
    n.activeActors.get? k = none ∧ acquired = n.putActive k ⟨specSha256, false⟩ := by
  simp only [acquireActorSlot, bind_eq_ok, bailIf_eq_ok] at ok
  obtain ⟨_, _, _, _, _, hab, ⟨⟩⟩ := ok
  exact ⟨by simpa using hab, rfl⟩

theorem storeFence_eq_ok {n nd : MeshNodeV1} {inp : MeshInputV1}
    (ok : n.storeFence key ref inp = .ok nd) :
    (∃ fence, n.fences.get? key = some fence ∧ nd = n) ∨
      n.fences.get? key = none ∧ ∃ fence, nd = n.putFence key fence := by
  unfold storeFence at ok
  cases hf : n.fences.get? key with
  | some fence =>
    simp only [hf, bind_eq_ok] at ok
    obtain ⟨_, _, _, _, ⟨⟩⟩ := ok
    exact .inl ⟨fence, rfl, rfl⟩
  | none =>
    simp only [hf, bind_eq_ok] at ok
    obtain ⟨_, _, _, _, _, _, _, _, ⟨⟩⟩ := ok
    exact .inr ⟨rfl, _, rfl⟩

/-! ## Regions -/

end MeshNodeV1

namespace MeshThreadV1

/-- The key of a thread that executes a route or stores its status. -/
def working : MeshThreadV1 → Option String
  | .worker _ _ key | .settling _ _ key _ => some key
  | _ => none

/-- The key whose `ActiveActorGuard` the thread owns. -/
def guard : MeshThreadV1 → Option String
  | .admitted _ _ key | .spawning _ _ key _ | .worker _ _ key | .settling _ _ key _
  | .ending key => some key
  | _ => none

theorem guard_of_working (working : th.working = some key) : th.guard = some key := by
  cases th <;> first | exact working | cases working

end MeshThreadV1

namespace MeshNodeV1

/-- A thread that goes on or ends. -/
def follow (node : MeshNodeV1) (id : Nat) : Option MeshThreadV1 → MeshNodeV1
  | some thread => node.proceed id thread
  | none => node.finish id

/-- The same with the worker it may leave. -/
def resolve (node : MeshNodeV1) (id : Nat) (next : Option MeshThreadV1) :
    Option MeshThreadV1 → MeshNodeV1
  | some worker => (node.follow id next).launch worker
  | none => node.follow id next

/-- Why a look at the status of an actor fails. -/
def Refuses (digests : MeshDigestsV1) (node : MeshNodeV1) : MeshThreadV1 → Prop
  | .statusRead _ actorRef => ∀ key record, actorRef.validate = .ok () →
      actorStorageKey digests actorRef.actor = .ok key →
      node.readActorRecord digests key actorRef ≠ .ok record
  | .statusActive _ _ key _ => node.activeActors.get? key ≠ none
  | .statusReconcile _ actorRef key =>
      ∀ record, node.readActorRecord digests key actorRef ≠ .ok record
  | .replying _ => False
  | _ => True

/-- The threads that turn into a look at the status of an actor. -/
inductive AsksStatus : MeshThreadV1 → MeshStatusUseV1 → MeshActorRefV1 → Prop
  | execute {spec : MeshActorSpecV1} {actorRef : MeshActorRefV1} {key : String} :
      AsksStatus (.admitting spec actorRef key) .execute actorRef
  | fence {actorRef : MeshActorRefV1} : AsksStatus (.fence actorRef) .fence actorRef
  | cancel {actorRef : MeshActorRefV1} : AsksStatus (.cancel actorRef) (.cancel false) actorRef

/-- What a region of the thread `id` does: the node it leaves, up to the threads, the region the
thread enters next, the worker it starts, and its output. -/
inductive Region (digests : MeshDigestsV1) (node : MeshNodeV1) (id : Nat) :
    MeshThreadV1 → MeshNodeV1 → Option MeshThreadV1 → Option MeshThreadV1 → MeshOutputV1 → Prop
  | refused {thread : MeshThreadV1} {error : MeshProtocolErrorV1} (unguarded : thread.guard = none)
      (reason : Refuses digests node thread) :
      Region digests node id thread node (some (.replying (.error error))) none .silent
  | checked {spec : MeshActorSpecV1} {actorRef : MeshActorRefV1} {key : String}
      (bound : Bound digests spec actorRef key) :
      Region digests node id (.execute spec) node (some (.admitting spec actorRef key)) none .silent
  | existing {thread : MeshThreadV1} {use : MeshStatusUseV1} {actorRef : MeshActorRefV1}
      (asks : AsksStatus thread use actorRef) :
      Region digests node id thread node (some (.statusRead use actorRef)) none .silent
  | acquired {spec : MeshActorSpecV1} {actorRef : MeshActorRefV1} {key : String}
      (unlocked : node.coordinate = none) (unfenced : node.fences.get? key = none)
      (absent : node.records.get? key = none) (inactive : node.activeActors.get? key = none) :
      Region digests node id (.admitting spec actorRef key)
        ((node.putActive key ⟨actorRef.specSha256, false⟩).lock id)
        (some (.admitted spec actorRef key)) none .silent
  | unstored {spec : MeshActorSpecV1} {actorRef : MeshActorRefV1} {key : String}
      {error : MeshProtocolErrorV1} :
      Region digests node id (.admitted spec actorRef key) (node.dropGuard key).unlock
        (some (.replying (.error error))) none .silent
  | stored {spec : MeshActorSpecV1} {actorRef : MeshActorRefV1} {key : String} {updatedAt : Nat}
      (absent : node.records.get? key = none)
      (valid : ∃ actual, validateActorRecordIntegrity digests
        ⟨spec, actorRef.actor, actorRef.specSha256, .running, updatedAt⟩ = .ok actual) :
      Region digests node id (.admitted spec actorRef key)
        (node.putRecord key ⟨spec, actorRef.actor, actorRef.specSha256, .running, updatedAt⟩)
        (some (.spawning spec actorRef key
          ⟨actorRef.actor, actorRef.specSha256, .running, updatedAt⟩)) none .silent
  | unspawned {spec : MeshActorSpecV1} {actorRef : MeshActorRefV1} {key : String}
      {running : MeshActorStatusV1} {error : MeshProtocolErrorV1} :
      Region digests node id (.spawning spec actorRef key running) (node.dropGuard key).unlock
        (some (.replying (.error error))) none .silent
  | spawnFailed {spec : MeshActorSpecV1} {actorRef : MeshActorRefV1} {key : String}
      {running : MeshActorStatusV1} {message : String} {updatedAt : Nat}
      (valid : ∃ actual, validateActorRecordIntegrity digests
        ⟨spec, actorRef.actor, actorRef.specSha256, .failed "worker-spawn" message true, updatedAt⟩ =
          .ok actual) :
      Region digests node id (.spawning spec actorRef key running)
        ((node.dropGuard key).putRecord key ⟨spec, actorRef.actor, actorRef.specSha256,
          .failed "worker-spawn" message true, updatedAt⟩).unlock
        (some (.replying (.ok (.actorStatus ⟨actorRef.actor, actorRef.specSha256,
          .failed "worker-spawn" message true, updatedAt⟩)))) none .silent
  | spawned {spec : MeshActorSpecV1} {actorRef : MeshActorRefV1} {key : String}
      {running : MeshActorStatusV1} :
      Region digests node id (.spawning spec actorRef key running) node.unlock
        (some (.replying (.ok (.actorStatus running)))) (some (.worker spec actorRef key))
        (.started id spec)
  | found {use : MeshStatusUseV1} {actorRef : MeshActorRefV1} {key : String}
      {record : MeshActorRecordV1} (stored : actorStorageKey digests actorRef.actor = .ok key)
      (read : node.readActorRecord digests key actorRef = .ok record)
      (settled : record.status.phase ≠ .running) :
      Region digests node id (.statusRead use actorRef) node
        (some (.replying (.ok (use.response record.status)))) none .silent
  | foundRunning {use : MeshStatusUseV1} {actorRef : MeshActorRefV1} {key : String}
      {record : MeshActorRecordV1} (stored : actorStorageKey digests actorRef.actor = .ok key)
      (read : node.readActorRecord digests key actorRef = .ok record)
      (running : record.status.phase = .running) :
      Region digests node id (.statusRead use actorRef) node
        (some (.statusActive use actorRef key record.status)) none .silent
  | owned {use : MeshStatusUseV1} {actorRef : MeshActorRefV1} {key : String}
      {status : MeshActorStatusV1} {actor : ActiveActorV1}
      (active : node.activeActors.get? key = some actor) :
      Region digests node id (.statusActive use actorRef key status) node
        (some (.replying (.ok (use.response status)))) none .silent
  | unowned {use : MeshStatusUseV1} {actorRef : MeshActorRefV1} {key : String}
      {status : MeshActorStatusV1} (inactive : node.activeActors.get? key = none) :
      Region digests node id (.statusActive use actorRef key status) node
        (some (.statusReconcile use actorRef key)) none .silent
  | reconciled {use : MeshStatusUseV1} {actorRef : MeshActorRefV1} {key : String}
      {record : MeshActorRecordV1}
      (read : node.readActorRecord digests key actorRef = .ok record) :
      Region digests node id (.statusReconcile use actorRef key) node
        (some (.replying (.ok (use.response (MeshNodeV1.reconciled record.status))))) none .silent
  | refenced {actorRef : MeshActorRefV1} {key : String} {fence : MeshActorFenceRecordV1}
      (stored : actorStorageKey digests actorRef.actor = .ok key)
      (fenced : node.fences.get? key = some fence) :
      Region digests node id (.fence actorRef) node
        (some (.replying (.ok (.actorFence (.fencedAbsent actorRef))))) none .silent
  | fenced {actorRef : MeshActorRefV1} {key : String} {fence : MeshActorFenceRecordV1}
      (stored : actorStorageKey digests actorRef.actor = .ok key)
      (unlocked : node.coordinate = none) (absent : node.records.get? key = none)
      (unfenced : node.fences.get? key = none) :
      Region digests node id (.fence actorRef) (node.putFence key fence)
        (some (.replying (.ok (.actorFence (.fencedAbsent actorRef))))) none .silent
  | cancelled {actorRef : MeshActorRefV1} {key : String} :
      Region digests node id (.cancel actorRef) (node.cancelActive key)
        (some (.statusRead (.cancel true) actorRef)) none .silent
  | replied {answer : MeshNodeResult MeshResponseV1} :
      Region digests node id (.replying answer) node none none (.response id answer)
  | ran {spec : MeshActorSpecV1} {actorRef : MeshActorRefV1} {key : String}
      {phase : MeshActorPhaseV1} (terminal : phase.isTerminal = true) :
      Region digests node id (.worker spec actorRef key) node
        (some (.settling spec actorRef key phase)) none .silent
  | lost {thread : MeshThreadV1} {key : String} (working : thread.working = some key) :
      Region digests node id thread node (some (.ending key)) none .silent
  | settled {spec : MeshActorSpecV1} {actorRef : MeshActorRefV1} {key : String}
      {phase : MeshActorPhaseV1} {updatedAt : Nat}
      (valid : ∃ actual, validateActorRecordIntegrity digests
        ⟨spec, actorRef.actor, actorRef.specSha256, phase, updatedAt⟩ = .ok actual) :
      Region digests node id (.settling spec actorRef key phase)
        (node.putRecord key ⟨spec, actorRef.actor, actorRef.specSha256, phase, updatedAt⟩)
        (some (.ending key)) none .silent
  | ended {key : String} :
      Region digests node id (.ending key) (node.dropGuard key) none none .silent

/-- A step that is a region of the thread `id`. -/
def Runs (digests : MeshDigestsV1) (node : MeshNodeV1) (id : Nat) (thread : MeshThreadV1)
    (later : MeshNodeV1) (output : MeshOutputV1) : Prop :=
  ∃ middle next worker, Region digests node id thread middle next worker output ∧
    later = middle.resolve id next worker

theorem Region.runs {n mid : MeshNodeV1} {id : Nat} {next wk : Option MeshThreadV1}
    {out : MeshOutputV1} (rg : Region ds n id th mid next wk out) :
    Runs ds n id th (mid.resolve id next wk) out :=
  ⟨mid, next, wk, rg, rfl⟩

theorem runs_refused {n : MeshNodeV1} {id : Nat} {err : MeshProtocolErrorV1}
    (unguarded : th.guard = none) (reason : Refuses ds n th) :
    Runs ds n id th (n.reply id (.error err)) .silent :=
  Region.runs (.refused unguarded reason)

/-! ## The functions of the node -/

variable {n : MeshNodeV1} {id : Nat} {inp : MeshInputV1}

theorem region_admitActor (hul : n.coordinate = none) : Runs ds n id (.admitting spec ref key)
      (n.admitActor ds cfg id spec ref key) .silent := by
  unfold admitActor
  split
  · exact runs_refused rfl trivial
  · rename_i hunf
    split
    · split
      · exact runs_refused rfl trivial
      · split
        · exact Region.runs (.existing .execute)
        · exact runs_refused rfl trivial
    · rename_i hab
      split
      · exact runs_refused rfl trivial
      · rename_i acquired slot
        obtain ⟨hina, rfl⟩ := acquireActorSlot_eq_ok slot
        exact Region.runs (.acquired hul hunf (by simpa using hab) hina)

theorem region_storeRunning : Runs ds n id (.admitted spec ref key)
      (n.storeRunning ds id spec ref key inp) .silent := by
  dsimp only [storeRunning]
  split
  · exact Region.runs .unstored
  · rename_i hrun hwr ok
    simp only [bind_eq_ok, mapError_eq_ok] at ok
    obtain ⟨_, _, _, hst, hret⟩ := ok
    obtain ⟨hv, hab, rfl⟩ := storeActorRecord_eq_ok hst
    cases hret
    exact Region.runs (.stored (hab rfl) hv)

theorem region_spawnWorker {st1 : MeshActorStatusV1} : Runs ds n id (.spawning spec ref key st1)
      (n.spawnWorker ds id spec ref key st1 inp).1
      (n.spawnWorker ds id spec ref key st1 inp).2 := by
  unfold spawnWorker
  split
  · dsimp only [storeUnspawned]
    split
    · exact Region.runs .unspawned
    · rename_i st hwr ok
      simp only [bind_eq_ok, mapError_eq_ok] at ok
      obtain ⟨_, _, _, hst, hret⟩ := ok
      obtain ⟨hv, _, rfl⟩ := storeActorRecord_eq_ok hst
      cases hret
      exact Region.runs (.spawnFailed hv)
  · exact Region.runs .spawned

theorem region_readStatus {use : MeshStatusUseV1} :
    Runs ds n id (.statusRead use ref) (n.readStatus ds id use ref) .silent := by
  dsimp only [readStatus]
  split
  · rename_i hfl
    refine runs_refused rfl ?_
    intro k rcd hv hst read
    simp [hv, hst, read, Except.mapError, pure, Except.pure] at hfl
  · rename_i k rcd ok
    simp only [bind_eq_ok, mapError_eq_ok] at ok
    obtain ⟨_, _, _, hst, _, read, ⟨⟩⟩ := ok
    split
    · rename_i hrun
      exact Region.runs (.foundRunning hst read hrun)
    · rename_i hset
      exact Region.runs (.found hst read hset)

theorem region_checkActive {use : MeshStatusUseV1} {st : MeshActorStatusV1} :
    Runs ds n id (.statusActive use ref key st) (n.checkActive id use ref key st) .silent := by
  unfold checkActive
  split
  · rename_i act
    split
    · exact Region.runs (.owned act)
    · exact runs_refused rfl (by simp [Refuses, act])
  · rename_i hina
    exact Region.runs (.unowned hina)

theorem region_fenceActorIfAbsent (hul : n.coordinate = none) :
    Runs ds n id (.fence ref) (n.fenceActorIfAbsent ds id ref inp) .silent := by
  dsimp only [fenceActorIfAbsent]
  split
  · exact runs_refused rfl trivial
  · rename_i key ok
    obtain ⟨_, _, hst⟩ := bind_eq_ok.mp ok
    split
    · exact Region.runs (.existing .fence)
    · rename_i hab
      split
      · exact runs_refused rfl trivial
      · rename_i hfn ok
        obtain ⟨fence, hf, rfl⟩ | ⟨hunf, fence, rfl⟩ := storeFence_eq_ok ok
        · exact Region.runs (.refenced hst hf)
        · exact Region.runs (.fenced hst hul (by simpa using hab) hunf)

theorem region_cancelActor : Runs ds n id (.cancel ref) (n.cancelActor ds id ref) .silent := by
  dsimp only [cancelActor]
  split
  · exact runs_refused rfl trivial
  · split
    · exact Region.runs (.existing .cancel)
    · split
      · exact Region.runs .cancelled
      · exact runs_refused rfl trivial

theorem isTerminal_of_terminalPhase {oc : MeshRouteOutcomeV1} {ph : MeshActorPhaseV1}
    (hre : terminalPhase oc = some ph) : ph.isTerminal = true := by
  cases oc <;> cases hre <;> rfl

theorem region_runRoute : Runs ds n id (.worker spec ref key) (n.runRoute id spec ref key inp)
      .silent := by
  unfold runRoute
  split
  · rename_i ph hre
    exact Region.runs (.ran (isTerminal_of_terminalPhase hre))
  · exact Region.runs (.lost rfl)

theorem region_storeTerminal {ph : MeshActorPhaseV1} : Runs ds n id (.settling spec ref key ph)
      (n.storeTerminal ds id spec ref key ph inp) .silent := by
  dsimp only [storeTerminal]
  split
  · exact Region.runs (.lost rfl)
  · rename_i hwr ok
    simp only [bind_eq_ok, mapError_eq_ok] at ok
    obtain ⟨_, _, hst⟩ := ok
    obtain ⟨hv, _, rfl⟩ := storeActorRecord_eq_ok hst
    exact Region.runs (.settled hv)

/-- A thread that has the coordinate lock where it needs it does what `Region` says. -/
theorem region_runThread (free : (th.locksCoordinate && n.coordinate.isSome) = false) :
    Runs ds n id th (n.runThread ds cfg id inp th).1 (n.runThread ds cfg id inp th).2 := by
  have hul (locks : th.locksCoordinate = true) : n.coordinate = none := by
    simpa [locks] using free
  cases th with
  | execute spec =>
    dsimp only [runThread]
    split
    · exact runs_refused rfl trivial
    · rename_i ref k ps
      exact Region.runs (.checked (executeChecks_bound ps))
  | admitting => exact region_admitActor (hul rfl)
  | admitted => exact region_storeRunning
  | spawning => exact region_spawnWorker
  | statusRead => exact region_readStatus
  | statusActive => exact region_checkActive
  | statusReconcile use ref k =>
    dsimp only [runThread, reconcile]
    split
    · rename_i hfl
      refine runs_refused rfl ?_
      intro rcd read
      rw [hfl] at read
      cases read
    · rename_i rcd read
      exact Region.runs (.reconciled read)
  | fence => exact region_fenceActorIfAbsent (hul rfl)
  | cancel => exact region_cancelActor
  | replying => exact Region.runs .replied
  | worker => exact region_runRoute
  | settling => exact region_storeTerminal
  | ending => exact Region.runs .ended

end MeshNodeV1

end Ostadix.Mesh
