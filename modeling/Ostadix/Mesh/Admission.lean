import Ostadix.Mesh.Lifecycle

/-! # Rejections before admission

`execute_actor` answers PreAdmission from many exits. Those under the coordinate lock are right:
the coordinate has no record. Those before it look at the request and at the node only, so a retry
of an admitted actor is answered PreAdmission as soon as one of them fails. -/

namespace Ostadix.Mesh

open Ostadix.Lib Ostadix.Fabric

variable {digests : MeshDigestsV1}

/-! ## The checks before the lookup -/

variable {actor : MeshActorIdV1} {error : MeshProtocolErrorV1}

variable {spec : MeshActorSpecV1} {key : String} {config : MeshNodeRuntimeConfigV1}

namespace MeshThreadV1

end MeshThreadV1

namespace MeshNodeV1

variable {n : MeshNodeV1} {id : Nat} {input : MeshInputV1} {error : MeshProtocolErrorV1}

@[simp] theorem get?_proceed (th : MeshThreadV1) : (n.proceed id th).threads.get? id = some th := by
  simp [proceed]

@[simp] theorem get?_reply (ans : MeshNodeResult MeshResponseV1) :
    (n.reply id ans).threads.get? id = some (.replying ans) :=
  get?_proceed _

variable {ref : MeshActorRefV1}

variable {use : MeshStatusUseV1}

/-- A call that is about to answer an error has not started a worker and never does. -/
theorem not_started_of_rejected {evs : List MeshEventV1} (begun : id < (run digests evs).nextThread)
    (hrej : (run digests evs).threads.get? id = some (.replying (.error error)))
    (hl : List MeshEventV1) (spec : MeshActorSpecV1) :
    .started id spec ∉ outputs digests fresh (evs ++ hl) := by
  intro hgv
  rw [outputs, Machine.runOutputs_append] at hgv
  obtain s | t := List.mem_append.mp hgv
  · -- behind the start of its worker the call answers its Running status
    obtain ⟨sooner, ev, tl, rfl, hstd⟩ := Machine.mem_runOutputs.mp s
    have inv : (run digests sooner).Invariant digests := invariant_run sooner
    obtain ⟨inp, _, _, hrun, rfl, hp, launched⟩ := spawning_of_started hstd.symm
    have numbered := inv.numbered id _ hp
    have hne : (Machine.runState (step digests) fresh sooner).nextThread ≠ id :=
      Nat.ne_of_gt numbered
    have replying : ((run digests sooner).step digests (.resume id inp)).1.threads.get? id =
        some (.replying (.ok (.actorStatus hrun))) := by
      rw [run, launched]
      simp [launch, reply, proceed, unlock, hne]
    rw [run_append] at hrej
    have he := replying_run (numbered.trans_le (nextThread_step _)) replying tl _ hrej
    cases he
  · obtain ⟨sooner, ev, tl, rfl, hstd⟩ := Machine.mem_runOutputs.mp t
    obtain ⟨_, _, _, _, _, hp, _⟩ := spawning_of_started hstd.symm
    have he := replying_run begun hrej sooner _ hp
    cases he

/-- A thread that is resumed waits for a lock or runs its region. -/
theorem step_resume {th : MeshThreadV1} (hp : n.threads.get? id = some th) :
    (n.step digests (.resume id input)).1 = n ∨ ∃ cfg, n.config = some cfg ∧
        (n.step digests (.resume id input)).1 = (n.runThread digests cfg id input th).1 := by
  dsimp only [MeshNodeV1.step]
  rw [hp]
  cases hop : n.config with
  | none => exact .inl rfl
  | some cfg =>
    dsimp only
    split
    · exact .inl rfl
    · exact .inr ⟨cfg, rfl, rfl⟩

end MeshNodeV1

end Ostadix.Mesh
