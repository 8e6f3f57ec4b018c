import Ostadix.Mesh.Admission

/-! # Where a worker and a result come from

A worker is started by the call of a request for its spec, and a Succeeded status holds the result
that the route of a started worker left. -/

namespace Ostadix.Mesh

open Ostadix.Lib Ostadix.Fabric List

/-- The spec of an `execute_actor` call that may still start a worker. -/
def MeshThreadV1.executing : MeshThreadV1 → Option MeshActorSpecV1
  | .execute spec | .admitting spec _ _ | .admitted spec _ _ | .spawning spec _ _ _ => some spec
  | _ => none

namespace MeshNodeV1

variable {ds : MeshDigestsV1}

/-- Along the history the route of a worker for the spec left the result. -/
def Ran (digests : MeshDigestsV1) (events : List MeshEventV1) (spec : MeshActorSpecV1)
    (result : MeshActorResultV1) : Prop :=
  ∃ before id input after actorRef key, events = before ++ .resume id input :: after ∧
    (run digests before).threads.get? id = some (.worker spec actorRef key) ∧
    input.outcome = .stored result

variable {evs : List MeshEventV1} {spec : MeshActorSpecV1} {result : MeshActorResultV1}

theorem Ran.append (ran : Ran ds evs spec result) (more : List MeshEventV1) :
    Ran ds (evs ++ more) spec result := by
  obtain ⟨s, id, inp, t, ref, k, rfl, hp, oc⟩ := ran
  exact ⟨s, id, inp, t ++ more, ref, k, by simp, hp, oc⟩

theorem outputs_append (evs more : List MeshEventV1) : outputs ds fresh (evs ++ more) =
      outputs ds fresh evs ++ outputs ds (run ds evs) more :=
  Machine.runOutputs_append fresh evs more

theorem startedActors_append {actor : MeshActorIdV1}
    (hstd : actor ∈ startedActors ds evs) (more : List MeshEventV1) :
    actor ∈ startedActors ds (evs ++ more) := by
  obtain ⟨out, hgv, hgr⟩ := mem_filterMap.mp hstd
  refine mem_filterMap.mpr ⟨out, ?_, hgr⟩
  rw [Machine.runOutputs_append]
  exact mem_append_left _ hgv

/-- What the threads and records of a node owe to its history. -/
structure Traced (digests : MeshDigestsV1) (events : List MeshEventV1) : Prop where
  calls : ∀ id thread spec, (run digests events).threads.get? id = some thread →
    thread.executing = some spec → .invoked id (.executeActor spec) ∈ outputs digests fresh events
  workers : ∀ id spec actorRef key,
    (run digests events).threads.get? id = some (.worker spec actorRef key) →
    spec.actor ∈ startedActors digests events
  settling : ∀ id spec actorRef key result,
    (run digests events).threads.get? id = some (.settling spec actorRef key (.succeeded result)) →
    Ran digests events spec result
  records : ∀ key record result, (run digests events).records.get? key = some record →
    record.status.phase = .succeeded result → Ran digests events record.spec result

variable {id : Nat}

section Step

variable {n : MeshNodeV1} {ev : MeshEventV1}

theorem executing_openingThread {wire : Bool} {req : MeshRequestV1}
    (executing : (openingThread wire req).executing = some spec) :
    req = .executeActor spec := by
  unfold openingThread at executing
  split at executing
  · cases executing
  · cases req <;> cases executing
    rfl

theorem executing_region {s th : MeshThreadV1} {mid : MeshNodeV1}
    {wk : Option MeshThreadV1} {out : MeshOutputV1} (rg : Region ds n id s mid (some th) wk out)
    (executing : th.executing = some spec) : s.executing = some spec := by
  cases rg <;> first | exact executing | cases executing

/-- The status a worker is about to store is the outcome of its route. -/
theorem outcome_of_worker {inp : MeshInputV1} {ref : MeshActorRefV1} {k : String}
    {next : MeshThreadV1} (hrun : n.threads.get? id = some (.worker spec ref k))
    (hp : (n.step ds (.resume id inp)).1.threads.get? id = some next)
    (settles : next = .settling spec ref k (.succeeded result)) :
    inp.outcome = .stored result := by
  subst settles
  obtain waits | ⟨_, _, ran⟩ := step_resume hrun
  · rw [waits, hrun] at hp
    cases hp
  · rw [ran] at hp
    simp only [runThread, runRoute] at hp
    cases oc : inp.outcome <;> rw [oc] at hp <;>
      simp only [terminalPhase, get?_proceed] at hp <;> cases hp
    rfl

/-- A Succeeded record was there, or is the status of a thread that was about to store it. -/
theorem origin_of_succeeded {k : String} {rcd : MeshActorRecordV1}
    (hf : (n.step ds ev).1.records.get? k = some rcd)
    (hsuc : rcd.status.phase = .succeeded result) :
    n.records.get? k = some rcd ∨ ∃ id ref,
      n.threads.get? id = some (.settling rcd.spec ref k (.succeeded result)) := by
  cases ev with try dsimp only [MeshNodeV1.step] at hf
  | opening =>
    split at hf <;> exact .inl hf
  | crash | shutdown => exact .inl hf
  | request =>
    split at hf <;> exact .inl hf
  | resume id inp =>
    split at hf
    · rename_i cfg th hop hp
      split at hf
      · exact .inl hf
      · rename_i free
        obtain ⟨mid, next, wk, rg, t⟩ :
            Runs ds n id th (n.runThread ds cfg id inp th).1
              (n.runThread ds cfg id inp th).2 :=
          region_runThread (by simpa using free)
        have he : (mid.resolve id next wk).records = mid.records := by
          cases wk <;> cases next <;> rfl
        rw [t, he] at hf
        generalize (n.runThread ds cfg id inp th).2 = out at rg
        cases rg <;> try exact .inl hf
        all_goals
          simp only [putRecord, dropGuard, unlock, OrderedMap.get?_insert] at hf
          split at hf
          · rename_i sameKey
            subst sameKey
            cases hf
            cases hsuc <;> exact .inr ⟨id, _, hp⟩
          · exact .inl hf
    · exact .inl hf

end Step

/-! ## Whole histories -/

theorem outputs_snoc (evs : List MeshEventV1) (ev : MeshEventV1) : outputs ds fresh (evs ++ [ev]) =
      outputs ds fresh evs ++ [((run ds evs).step ds ev).2] :=
  outputs_append evs [ev]

theorem Traced.step (traced : Traced ds evs) (ev : MeshEventV1) : Traced ds (evs ++ [ev]) := by
  have last : run ds (evs ++ [ev]) = ((run ds evs).step ds ev).1 := run_append evs [ev]
  refine ⟨?_, ?_, ?_, ?_⟩
  · intro id th spec hp executing
    rw [outputs_snoc]
    rw [last] at hp
    cases origin_of_present hp with
    | kept s => exact mem_append_left _ (traced.calls id th spec s executing)
    | opened hreq new first hgv =>
      subst first
      rw [hgv, executing_openingThread executing]
      exact mem_append_right _ (mem_singleton.mpr rfl)
    | worker new first =>
      subst first
      cases executing
    | region resumed s region =>
      exact mem_append_left _ (traced.calls id _ spec s (executing_region region executing))
  · intro id spec ref k hp
    rw [last] at hp
    cases origin_of_present hp with
    | kept s => exact startedActors_append (traced.workers id spec ref k s) _
    | opened hreq new first =>
      have grd := congrArg MeshThreadV1.guard first
      rw [Invariant.guard_openingThread] at grd
      cases grd
    | worker new first hgv =>
      cases first
      refine mem_filterMap.mpr ⟨_, ?_, congrArg startedActor hgv⟩
      rw [Machine.runOutputs_append]
      exact mem_append_right _ (mem_singleton.mpr rfl)
    | region resumed s region => cases region
  · intro id spec ref k r hp
    rw [last] at hp
    cases origin_of_present hp with
    | kept s => exact (traced.settling id spec ref k r s).append _
    | opened hreq new first =>
      have grd := congrArg MeshThreadV1.guard first
      rw [Invariant.guard_openingThread] at grd
      cases grd
    | worker new first => cases first
    | region resumed s region =>
      subst resumed
      cases region with
      | ran =>
        exact ⟨evs, id, _, [], ref, k, rfl, s, outcome_of_worker s hp rfl⟩
  · intro k rcd r hf hsuc
    rw [last] at hf
    obtain s | ⟨id, ref, hp⟩ := origin_of_succeeded hf hsuc
    · exact (traced.records k rcd r s hsuc).append _
    · exact (traced.settling id _ ref k r hp).append _

theorem traced_run (evs : List MeshEventV1) : Traced ds evs := by
  induction evs using List.reverseRecOn with
  | nil =>
    refine ⟨fun id _ _ hp => ?_, fun id _ _ _ hp => ?_,
      fun id _ _ _ _ hp => ?_, fun key _ _ hf => ?_⟩
    · cases hp
    · cases hp
    · cases hp
    · cases hf
  | append_singleton evs ev ih => exact ih.step ev

/-- A worker is started by the call of a request for its spec. -/
theorem invoked_of_started (hstd : .started id spec ∈ outputs ds fresh evs) :
    .invoked id (.executeActor spec) ∈ outputs ds fresh evs := by
  obtain ⟨s, _, _, rfl, hgv⟩ := Machine.mem_runOutputs.mp hstd
  obtain ⟨_, _, _, _, rfl, hp, _⟩ := spawning_of_started hgv.symm
  rw [outputs_append]
  exact mem_append_left _ ((traced_run s).calls id _ spec hp rfl)

theorem mem_startedActors {actor : MeshActorIdV1} : actor ∈ startedActors ds evs ↔
      ∃ id spec, .started id spec ∈ outputs ds fresh evs ∧ spec.actor = actor := by
  constructor
  · intro hstd
    obtain ⟨out, hgv, hgr⟩ := mem_filterMap.mp hstd
    cases out <;> cases hgr
    exact ⟨_, _, hgv, rfl⟩
  · rintro ⟨id, spec, hgv, rfl⟩
    exact mem_filterMap.mpr ⟨_, hgv, rfl⟩

/-- The run that left a result was started. -/
theorem Ran.started (ran : Ran ds evs spec result) : spec.actor ∈ startedActors ds evs := by
  obtain ⟨s, id, _, _, ref, k, rfl, hp, _⟩ := ran
  exact startedActors_append ((traced_run s).workers id spec ref k hp) _

/-- A Succeeded status that is answered holds the result of a run of its actor. -/
theorem ran_of_response {resp : MeshResponseV1} {st : MeshActorStatusV1}
    (hgv : .response id (.ok resp) ∈ outputs ds fresh evs)
    (hcar : resp.status = some st) (hsuc : st.phase = .succeeded result) :
    ∃ spec, spec.actor = st.actor ∧ Ran ds evs spec result := by
  obtain ⟨s, _, _, rfl, hrsp⟩ := Machine.mem_runOutputs.mp hgv
  have inv : (run ds s).Invariant ds := invariant_run s
  have stands : Stands ds (run ds s) (.ok resp) :=
    inv.serves id _ (replying_of_response hrsp.symm).1
  obtain ⟨k, rcd, hr, trm, _⟩ := stands.standing hcar
  have he : rcd.status = st := trm (by rw [hsuc]; rfl)
  have dg := (integrity_eq_ok hr.valid).1
  refine ⟨rcd.spec, (actor_of_actorRef dg).symm, ?_⟩
  exact ((traced_run s).records k rcd result hr.found (he ▸ hsuc)).append _

/-- A call that was answered with an error started no worker. -/
theorem not_started_of_error {err : MeshProtocolErrorV1}
    (hgv : .response id (.error err) ∈ outputs ds fresh evs) (spec : MeshActorSpecV1) :
    .started id spec ∉ outputs ds fresh evs := by
  obtain ⟨s, ev, t, rfl, hrsp⟩ := Machine.mem_runOutputs.mp hgv
  have replying := (replying_of_response hrsp.symm).1
  exact not_started_of_rejected ((invariant_run s).numbered id _ replying) replying (ev :: t) spec

/-- A coordinate that was answered `FencedAbsent` is never started. -/
theorem not_started_of_fenced {ref : MeshActorRefV1}
    (hgv : .response id (.ok (.actorFence (.fencedAbsent ref))) ∈
      outputs ds fresh evs) : ref.actor ∉ startedActors ds evs := by
  obtain ⟨s, ev, t, rfl, hrsp⟩ := Machine.mem_runOutputs.mp hgv
  intro hstd
  obtain ⟨_, _, hst, hf⟩ := recorded_of_mem_startedActors hstd
  have hfn : Fenced ds (run ds (s ++ ev :: t)) ref.actor := fenced_of_response hrsp.symm
  rw [absent_of_fenced (invariant_run _) hfn hst] at hf
  cases hf

end MeshNodeV1

end Ostadix.Mesh
