import Ostadix.Mesh.Preserved

/-! # The life of an actor on one node

A worker starts at most once for a coordinate, behind its durable Running record; a fenced
coordinate never starts; and an answer other than Running is the answer to every later request. -/

namespace Ostadix.Mesh

open Ostadix.Lib Ostadix.Fabric Nat

variable {id : Nat} {out : MeshOutputV1} {answer : MeshNodeResult MeshResponseV1}

namespace MeshNodeV1

variable (digests : MeshDigestsV1)

/-- The node after a history that begins with an empty state directory. -/
def run (events : List MeshEventV1) : MeshNodeV1 :=
  Machine.runState (step digests) fresh events

/-- What the node answered and started along a history, from a given node. -/
def outputs (node : MeshNodeV1) (events : List MeshEventV1) : List MeshOutputV1 :=
  Machine.runOutputs (step digests) node events

/-- The coordinate of a worker that starts. -/
def startedActor : MeshOutputV1 → Option MeshActorIdV1
  | .started _ spec => some spec.actor
  | _ => none

def startedActors (events : List MeshEventV1) : List MeshActorIdV1 :=
  Machine.grants (step digests) startedActor fresh events

variable {digests}

theorem invariant_run (evs : List MeshEventV1) : (run digests evs).Invariant digests :=
  (invariant_fresh.run evs).invariant

theorem run_append (evs more : List MeshEventV1) : run digests (evs ++ more) =
      Machine.runState (step digests) (run digests evs) more :=
  Machine.runState_append fresh evs more

/-! ## Outputs -/

variable {n : MeshNodeV1} {ev : MeshEventV1}

/-- A step with an output is a request or a region. -/
theorem output_cases (hgv : (n.step digests ev).2 = out) (loud : out ≠ .silent) :
    (∃ wire request, n.config.isSome = true ∧ ev = .request wire request ∧
      out = .invoked n.nextThread request) ∨
    ∃ id inp th, ev = .resume id inp ∧ n.threads.get? id = some th ∧
      Runs digests n id th (n.step digests ev).1 out := by
  subst hgv
  cases ev with
  | opening =>
    refine absurd ?_ loud
    dsimp only [step]
    split <;> rfl
  | crash | shutdown => exact absurd rfl loud
  | request wire request =>
    dsimp only [step] at loud ⊢
    split
    · rename_i hop
      exact .inl ⟨wire, request, hop, rfl, rfl⟩
    · rename_i hcl
      rw [if_neg hcl] at loud
      exact absurd rfl loud
  | resume id inp =>
    dsimp only [step] at loud ⊢
    split
    · rename_i cfg th hop hp
      split
      · rename_i blocked
        rw [hop, hp] at loud
        dsimp only at loud
        rw [if_pos blocked] at loud
        exact absurd rfl loud
      · rename_i free
        exact .inr ⟨id, inp, th, rfl, hp, region_runThread (by simpa using free)⟩
    · rename_i none
      refine absurd ?_ loud
      split
      · rename_i cfg th hop hp
        exact absurd hp (none cfg th hop)
      · rfl

/-- A worker starts from a thread that stored the Running record. -/
theorem spawning_of_started {spec : MeshActorSpecV1}
    (hstd : (n.step digests ev).2 = .started id spec) :
    ∃ inp ref k hrun, ev = .resume id inp ∧
      n.threads.get? id = some (.spawning spec ref k hrun) ∧
      (n.step digests ev).1 =
        (n.unlock.reply id (.ok (.actorStatus hrun))).launch (.worker spec ref k) := by
  obtain ⟨_, _, _, _, bad⟩ | ⟨_, inp, _, rfl, hp, _, _, _, rg, t⟩ := output_cases hstd (by simp)
  · cases bad
  · cases rg with
    | spawned => exact ⟨inp, _, _, _, rfl, hp, t⟩

/-- A response is what the thread was about to give. -/
theorem replying_of_response (hrsp : (n.step digests ev).2 = .response id answer) :
    n.threads.get? id = some (.replying answer) ∧ (n.step digests ev).1 = n.finish id := by
  obtain ⟨_, _, _, _, bad⟩ | ⟨_, _, _, rfl, hp, _, _, _, rg, t⟩ := output_cases hrsp (by simp)
  · cases bad
  · cases rg with
    | replied => exact ⟨hp, t⟩

/-! ## Threads -/

/-- Where a thread of the node after a step comes from. -/
inductive Origin (digests : MeshDigestsV1) (node : MeshNodeV1) (event : MeshEventV1) (id : Nat)
    (thread : MeshThreadV1) : Prop
  | kept (present : node.threads.get? id = some thread)
  | opened {wire : Bool} {request : MeshRequestV1} (requested : event = .request wire request)
      (new : id = node.nextThread) (first : thread = openingThread wire request)
      (given : (node.step digests event).2 = .invoked id request)
  | worker {spec : MeshActorSpecV1} {actorRef : MeshActorRefV1} {key : String} {call : Nat}
      (new : id = node.nextThread) (first : thread = .worker spec actorRef key)
      (given : (node.step digests event).2 = .started call spec)
  | region {input : MeshInputV1} {before : MeshThreadV1} {middle : MeshNodeV1}
      {worker : Option MeshThreadV1} {output : MeshOutputV1} (resumed : event = .resume id input)
      (present : node.threads.get? id = some before)
      (region : Region digests node id before middle (some thread) worker output)

theorem threads_of_region {mid : MeshNodeV1} {th : MeshThreadV1} {next wk : Option MeshThreadV1}
    (rg : Region digests n id th mid next wk out) :
    mid.threads = n.threads ∧ mid.nextThread = n.nextThread ∧ ∀ hstd, wk = some hstd →
        ∃ spec ref k, hstd = .worker spec ref k ∧ out = .started id spec := by
  cases rg <;> refine ⟨rfl, rfl, ?_⟩ <;> rintro hstd ⟨⟩
  exact ⟨_, _, _, rfl, rfl⟩

theorem origin_of_runs {id other : Nat} {inp : MeshInputV1} {thread s : MeshThreadV1}
    {nd : MeshNodeV1} (hrun : n.threads.get? other = some s) (runs : Runs digests n other s nd out)
    (hgv : (n.step digests (.resume other inp)).2 = out) (hp : nd.threads.get? id = some thread) :
    Origin digests n (.resume other inp) id thread := by
  obtain ⟨mid, next, worker, rg, rfl⟩ := runs
  obtain ⟨sameThreads, sameNext, launched⟩ := threads_of_region rg
  -- the thread that ran, the worker it started, or any other thread
  have followed (hp : (mid.follow other next).threads.get? id = some thread) :
      n.threads.get? id = some thread ∨ id = other ∧ next = some thread := by
    cases next with
    | some following =>
      simp only [follow, proceed, sameThreads, OrderedMap.get?_insert] at hp
      split at hp
      · rename_i sameId
        cases hp
        exact .inr ⟨sameId.symm, rfl⟩
      · exact .inl hp
    | none =>
      simp only [follow, finish, sameThreads, OrderedMap.get?_erase] at hp
      split at hp
      · cases hp
      · exact .inl hp
  have origin (hf : n.threads.get? id = some thread ∨ id = other ∧ next = some thread) :
      Origin digests n (.resume other inp) id thread := by
    obtain kept | ⟨rfl, rfl⟩ := hf
    · exact .kept kept
    · exact .region rfl hrun rg
  cases worker with
  | none => exact origin (followed hp)
  | some started =>
    obtain ⟨_, _, _, rfl, rfl⟩ := launched started rfl
    simp only [resolve, launch, OrderedMap.get?_insert] at hp
    split at hp
    · rename_i new
      cases hp
      refine .worker ?_ rfl hgv
      rw [← new, ← sameNext]
      cases next <;> rfl
    · exact origin (followed hp)

theorem origin_of_present {th : MeshThreadV1}
    (hp : (n.step digests ev).1.threads.get? id = some th) :
    Origin digests n ev id th := by
  cases ev with try dsimp only [step] at hp
  | opening =>
    split at hp <;> exact .kept hp
  | crash => cases hp
  | shutdown => exact .kept hp
  | request wire request =>
    split at hp
    · rename_i hop
      simp only [launch, OrderedMap.get?_insert] at hp
      split at hp
      · rename_i new
        cases hp
        refine .opened rfl new.symm rfl ?_
        rw [step, if_pos hop, new]
      · exact .kept hp
    · exact .kept hp
  | resume o input =>
    split at hp
    · rename_i cfg s hop hrun
      split at hp
      · exact .kept hp
      · rename_i free
        refine origin_of_runs hrun (region_runThread (by simpa using free)) ?_ hp
        rw [step, hop, hrun]
        exact congrArg Prod.snd (if_neg free)
    · exact .kept hp

theorem nextThread_step (ev : MeshEventV1) : n.nextThread ≤ (n.step digests ev).1.nextThread := by
  cases ev with try dsimp only [step]
  | opening =>
    split <;> exact le_refl _
  | crash | shutdown => exact le_refl _
  | request =>
    split
    · exact le_succ _
    · exact le_refl _
  | resume id input =>
    split
    · split
      · exact le_refl _
      · rename_i free
        obtain ⟨_, next, wk, rg, t⟩ := region_runThread (by simpa using free)
        rw [t, ← (threads_of_region rg).2.1]
        cases wk <;> cases next <;> first | exact le_refl _ | exact le_succ _
    · exact le_refl _

/-- What the regions of a thread keep, the thread keeps along a run. -/
theorem thread_run {Holds : MeshThreadV1 → Prop} (hcl : ∀ {n s mid next worker out}, Holds s →
      Region digests n id s mid (some next) worker out → Holds next)
    (begun : id < n.nextThread)
    (hh : ∀ th, n.threads.get? id = some th → Holds th)
    (evs : List MeshEventV1) (th : MeshThreadV1)
    (hp : (Machine.runState (step digests) n evs).threads.get? id = some th) :
    Holds th := by
  induction evs generalizing n with
  | nil => exact hh th hp
  | cons ev evs ih =>
    refine ih (begun.trans_le (nextThread_step ev)) ?_ hp
    intro next now
    cases origin_of_present now with
    | kept s => exact hh next s
    | opened | worker => omega
    | region resumed s region => exact hcl (hh _ s) region

/-- A thread that is about to answer does nothing else. -/
theorem replying_run (begun : id < n.nextThread)
    (replying : n.threads.get? id = some (.replying answer)) (evs : List MeshEventV1)
    (th : MeshThreadV1) (hp : (Machine.runState (step digests) n evs).threads.get? id = some th) :
    th = .replying answer := by
  have hcl {n mid : MeshNodeV1} {s next : MeshThreadV1}
      {wk : Option MeshThreadV1} {out : MeshOutputV1} (he : s = .replying answer)
      (rg : Region digests n id s mid (some next) wk out) :
      next = .replying answer := by
    subst he
    cases rg with
    | refused unguarded reason => exact reason.elim
    | existing asks => cases asks
    | lost working => cases working
  have hh (hf : MeshThreadV1) (now : n.threads.get? id = some hf) :
      hf = .replying answer := Option.some.inj (now.symm.trans replying)
  exact thread_run hcl begun hh evs th hp

/-! ## One worker for a coordinate -/

/-- A recorded coordinate that no thread is about to start a worker for. -/
def Spent (digests : MeshDigestsV1) (node : MeshNodeV1) (actor : MeshActorIdV1) : Prop :=
  ∃ key record, actorStorageKey digests actor = .ok key ∧ node.records.get? key = some record ∧
    ∀ id spec actorRef status, node.threads.get? id ≠ some (.spawning spec actorRef key status)

variable {actor : MeshActorIdV1}

theorem Spent.step (inv : n.Invariant digests) (spent : Spent digests n actor)
    (ev : MeshEventV1) : Spent digests (n.step digests ev).1 actor := by
  obtain ⟨k, rcd, stored, found, quiet⟩ := spent
  obtain ⟨next, nextFound, _⟩ := ((inv.step ev).growth k).recorded rcd found
  refine ⟨k, next, stored, nextFound, ?_⟩
  intro id spec ref st hp
  cases origin_of_present hp with
  | kept hp => exact quiet id spec ref st hp
  | opened hreq new first =>
    have grd := Invariant.guard_openingThread _ _ ▸ congrArg MeshThreadV1.guard first
    cases grd
  | worker new first => cases first
  | region resumed hp region =>
    cases region with
    | stored hab =>
      rw [hab] at found
      cases found

theorem spent_of_started {spec : MeshActorSpecV1} (inv : n.Invariant digests)
    (hstd : (n.step digests ev).2 = .started id spec) :
    Spent digests (n.step digests ev).1 spec.actor := by
  obtain ⟨_, _, k, _, rfl, hp, t⟩ := spawning_of_started hstd
  obtain ⟨hb, _, hf, _⟩ := inv.serves id _ hp
  rw [t]
  refine ⟨k, _, actor_of_actorRef hb.digest ▸ hb.stored, hf, ?_⟩
  intro o otherSpec otherRef st spawning
  have bounded := inv.numbered id _ hp
  simp only [launch, reply, proceed, unlock, OrderedMap.get?_insert] at spawning
  split at spawning
  · cases spawning
  · split at spawning
    · cases spawning
    · rename_i hne
      -- another thread about to start a worker would guard the same coordinate
      exact hne (inv.exclusive id o _ _ k hp spawning rfl rfl)

/-- A worker that starts has its Running record, and no fence, in the directory. -/
theorem recorded_of_started {spec : MeshActorSpecV1} (inv : n.Invariant digests)
    (hstd : (n.step digests ev).2 = .started id spec) :
    ∃ k st, actorStorageKey digests spec.actor = .ok k ∧
      n.records.get? k = some ⟨spec, st⟩ ∧ st.phase = .running := by
  obtain ⟨_, _, k, hrun, rfl, hp, _⟩ := spawning_of_started hstd
  obtain ⟨hb, _, hf, ph⟩ := inv.serves id _ hp
  exact ⟨k, hrun, actor_of_actorRef hb.digest ▸ hb.stored, hf, ph⟩

theorem bars_started : Machine.BarsOn (step digests) startedActor (Invariant digests)
    (Spent digests) Eq where
  invariant := fun ev invariant => (invariant.step ev).invariant
  keeps := fun ev invariant spent => spent.step invariant ev
  holdsAfterGrant := by
    intro s ev actor invariant hgr
    cases out : (s.step digests ev).2 <;> rw [out] at hgr <;> cases hgr
    exact spent_of_started invariant out
  excludes := by
    rintro s ev actor hl invariant ⟨_, _, hst, _, quiet⟩ hgr rfl
    cases out : (s.step digests ev).2 <;> rw [out] at hgr <;> cases hgr
    obtain ⟨_, _, _, _, rfl, hp, _⟩ := spawning_of_started out
    have hb := (invariant.serves _ _ hp).1
    have sameKey := (actor_of_actorRef hb.digest ▸ hb.stored).symm.trans hst
    cases sameKey
    exact quiet _ _ _ _ hp

theorem nodup_startedActors (evs : List MeshEventV1) : (startedActors digests evs).Nodup :=
  bars_started.pairwise_grants invariant_fresh evs

/-- A started coordinate keeps a record of its spec. -/
theorem recorded_of_mem_startedActors {evs : List MeshEventV1}
    (hstd : actor ∈ startedActors digests evs) :
    ∃ k rcd, actorStorageKey digests actor = .ok k ∧
      (run digests evs).records.get? k = some rcd := by
  obtain ⟨out, hgv, hgr⟩ := List.mem_filterMap.mp hstd
  obtain ⟨s, ev, t, rfl, rfl⟩ := Machine.mem_runOutputs.mp hgv
  have inv : (run digests s).Invariant digests := invariant_run s
  cases out : ((run digests s).step digests ev).2 <;>
    rw [show Machine.runState (step digests) fresh s = run digests s from rfl, out]
      at hgr <;> cases hgr
  obtain ⟨k, _, hst, hf, _⟩ := recorded_of_started inv out
  have growth : Grows (run digests s) (run digests (s ++ ev :: t)) := by
    rw [run_append]
    exact (inv.run (ev :: t)).growth
  obtain ⟨rcd, kept, _⟩ := (growth k).recorded _ hf
  exact ⟨k, rcd, hst, kept⟩

/-! ## Fences -/

theorem absent_of_fenced {k : String} (inv : n.Invariant digests)
    (hfn : Fenced digests n actor) (hst : actorStorageKey digests actor = .ok k) :
    n.records.get? k = none := by
  obtain ⟨_, fence, fenceStored, hf⟩ := hfn
  cases fenceStored.symm.trans hst
  exact inv.directory.fences k fence hf

/-- A step that answers `FencedAbsent` leaves the coordinate fenced for good. -/
theorem fenced_of_response {evs hl : List MeshEventV1} {ev : MeshEventV1}
    {ref : MeshActorRefV1} (hrsp : ((run digests evs).step digests ev).2 =
      .response id (.ok (.actorFence (.fencedAbsent ref)))) :
    Fenced digests (run digests (evs ++ ev :: hl)) ref.actor := by
  have inv : (run digests evs).Invariant digests := invariant_run evs
  have hfn : Fenced digests (run digests evs) ref.actor :=
    inv.serves id _ (replying_of_response hrsp).1
  rw [run_append]
  exact hfn.grow (inv.run (ev :: hl)).growth

end MeshNodeV1

/-! ## Answers -/

/-- The status a response carries. -/
def MeshResponseV1.status : MeshResponseV1 → Option MeshActorStatusV1
  | .actorStatus status => some status
  | .actorCancellation cancellation => some cancellation.status
  | .actorFence (.existing status) => some status
  | .actorFence (.fencedAbsent _) => none

@[simp] theorem MeshStatusUseV1.status_response (use : MeshStatusUseV1)
    (st : MeshActorStatusV1) : (use.response st).status = some st := by
  cases use <;> rfl

variable {status : MeshActorStatusV1} {response : MeshResponseV1}

theorem Stands.standing {ds : MeshDigestsV1} {n : MeshNodeV1}
    (stands : Stands ds n (.ok response)) (hcar : response.status = some status) :
    Standing ds n status := by
  match response, hcar, stands with
  | .actorStatus _, rfl, hstd => exact hstd
  | .actorCancellation _, rfl, hstd => exact hstd
  | .actorFence (.existing _), rfl, hstd => exact hstd

namespace MeshNodeV1

variable {digests : MeshDigestsV1} {node : MeshNodeV1} {event : MeshEventV1}

/-- What a thread may still answer about a coordinate whose status is no longer Running: that
status, and nothing from before it. -/
def Agrees (status : MeshActorStatusV1) : MeshThreadV1 → Prop
  | .statusActive _ actorRef _ _ => actorRef.actor = status.actor → status.phase = .indeterminate
  | .replying (.ok response) => ∀ other, response.status = some other →
      other.actor = status.actor → other = status
  | _ => True

/-- The record behind a status other than Running, seen from another reference to its
coordinate. -/
theorem standing_record {ref : MeshActorRefV1} {k : String} {rcd : MeshActorRecordV1}
    (hstd : Standing digests node status) (hset : status.phase ≠ .running)
    (hr : Recorded digests node.records ref k rcd) (hact : ref.actor = status.actor) :
    rcd.status = status ∨ (status.phase = .indeterminate ∧ rcd.status.phase = .running ∧
      reconciled rcd.status = status ∧ node.activeActors.get? k = none) := by
  obtain ⟨statusKey, _, hf, trm, indeterminate⟩ := hstd
  have sameKey : Except.ok statusKey = Except.ok k :=
    hf.stored.symm.trans (congrArg (actorStorageKey digests) hact ▸ hr.stored)
  cases sameKey
  obtain ⟨_, rfl⟩ := hf.unique hr
  cases hre : status.phase with
  | running => exact absurd hre hset
  | indeterminate => exact .inr ⟨rfl, indeterminate hre⟩
  | succeeded | failed => exact .inl (trm (by rw [hre]; rfl))

section Agreement

variable {st : MeshActorStatusV1} {id : Nat} (inv : node.Invariant digests)
  (hstd : Standing digests node st) (settled : st.phase ≠ .running)
include inv hstd settled

/-- A coordinate that has a status other than Running has no thread about to start its worker. -/
theorem not_spawning {hrun : MeshActorStatusV1} {spec : MeshActorSpecV1}
    {ref : MeshActorRefV1} {k : String}
    (hp : node.threads.get? id = some (.spawning spec ref k hrun)) :
    hrun.actorRef = ref ∧ ref.actor ≠ st.actor := by
  obtain ⟨hb, _, hf, ph⟩ := inv.serves id _ hp
  obtain ⟨_, _, hr⟩ := inv.directory.records k _ hf
  cases (integrity_eq_ok hr.valid).1.symm.trans hb.digest
  refine ⟨(integrity_eq_ok hr.valid).2, ?_⟩
  intro hact
  obtain he | ⟨_, _, _, hina⟩ := standing_record hstd settled hr hact
  · exact settled (he ▸ ph)
  · have act := inv.guarded id _ k hp rfl
    rw [hina] at act
    cases act

theorem agrees_region {th next : MeshThreadV1} {mid : MeshNodeV1}
    {wk : Option MeshThreadV1} (hp : node.threads.get? id = some th) (agrees : Agrees st th)
    (rg : Region digests node id th mid (some next) wk out) :
    Agrees st next := by
  have hsrv := inv.serves id th hp
  cases rg with
  | refused | checked | existing | acquired | unstored | stored | unspawned => trivial
  | spawnFailed =>
    rintro o ⟨⟩ hact
    exact absurd hact (not_spawning inv hstd settled hp).2
  | spawned =>
    rintro o ⟨⟩ hact
    obtain ⟨named, hne⟩ := not_spawning inv hstd settled hp
    exact absurd (named ▸ hact) hne
  | found stored read isSettled =>
    obtain ⟨found, hv⟩ := readActorRecord_eq_ok.mp read
    intro o hcar hact
    rw [MeshStatusUseV1.status_response] at hcar
    cases hcar
    have named := (integrity_eq_ok hv).2
    obtain he | ⟨_, hrun, _⟩ := standing_record hstd settled ⟨found, hv, stored⟩ (named ▸ hact)
    · exact he
    · exact absurd hrun isSettled
  | foundRunning stored read hisr =>
    obtain ⟨found, hv⟩ := readActorRecord_eq_ok.mp read
    intro hact
    obtain he | ⟨lost, _⟩ := standing_record hstd settled ⟨found, hv, stored⟩ hact
    · exact absurd (he ▸ hisr) settled
    · exact lost
  | owned act =>
    obtain ⟨hisr, named, _, hr⟩ := hsrv
    intro o hcar hact
    rw [MeshStatusUseV1.status_response] at hcar
    cases hcar
    have sameRef := congrArg MeshActorRefV1.actor named
    have lost := agrees (sameRef.symm.trans hact)
    obtain he | ⟨_, _, _, hina⟩ := standing_record hstd settled hr (sameRef.symm.trans hact)
    · exact absurd (he ▸ lost) (inv.directory.records _ _ hr.found).1
    · rw [act] at hina
      cases hina
  | unowned => trivial
  | reconciled read =>
    obtain ⟨found, hv⟩ := readActorRecord_eq_ok.mp read
    obtain ⟨prev, hr, _⟩ := hsrv
    obtain rfl := Option.some.inj (hr.found.symm.trans found)
    intro o hcar hact
    rw [MeshStatusUseV1.status_response] at hcar
    cases hcar
    have named := (Invariant.actorRef_reconciled prev.status).trans (integrity_eq_ok hv).2
    have sameRef := congrArg MeshActorRefV1.actor named
    obtain he | ⟨_, _, he, _⟩ := standing_record hstd settled hr (sameRef.symm.trans hact)
    · rw [he, reconciled, if_neg settled]
    · exact he
  | refenced | fenced => rintro o ⟨⟩
  | cancelled | ran | lost | settled => trivial

end Agreement

theorem agrees_openingThread (st : MeshActorStatusV1) (wire : Bool) (req : MeshRequestV1) :
    Agrees st (openingThread wire req) := by
  unfold openingThread
  split
  · trivial
  · cases req <;> trivial

/-- A status other than Running was answered: every thread from `first` on agrees with it. -/
structure Answered (digests : MeshDigestsV1) (status : MeshActorStatusV1) (first : Nat)
    (node : MeshNodeV1) : Prop where
  invariant : node.Invariant digests
  standing : Standing digests node status
  settled : status.phase ≠ .running
  begun : first ≤ node.nextThread
  agrees : ∀ id thread, first ≤ id → node.threads.get? id = some thread → Agrees status thread

section

variable {a1 : Nat} (hans : Answered digests status a1 node)

include hans

theorem Answered.step (ev : MeshEventV1) : Answered digests status a1 (node.step digests ev).1 := by
  obtain ⟨inv, hstd, hset, begun, agrees⟩ := hans
  have prg := inv.step ev
  refine ⟨prg.invariant, hstd.grow prg.invariant.directory prg.growth, hset,
    begun.trans (nextThread_step ev), ?_⟩
  intro id th late hp
  cases origin_of_present hp with
  | kept hp => exact agrees id th late hp
  | opened hreq new opening =>
    rw [opening]
    exact agrees_openingThread status _ _
  | worker new opening =>
    rw [opening]
    trivial
  | region resumed hp region =>
    exact agrees_region inv hstd hset hp (agrees id _ late hp) region

theorem Answered.run (evs : List MeshEventV1) :
    Answered digests status a1 (Machine.runState (MeshNodeV1.step digests) node evs) := by
  induction evs generalizing node with
  | nil => exact hans
  | cons ev evs ih => exact ih (hans.step ev)

end

variable {a1 id : Nat} {evs : List MeshEventV1}

namespace Overlap

def digest : String := "0000000000000000000000000000000000000000000000000000000000000000"

def plainDigests : MeshDigestsV1 := ⟨fun _ => .ok digest, fun actor => .ok actor.actorId⟩

def limits : MeshExecutionLimitsV1 := ⟨1, 1, 0, 0, 1, 0, 0, 0, 0, 0, .clear, .leaderOnly, .skip⟩

def spec : MeshActorSpecV1 :=
  ⟨⟨"actor", 1⟩, "node", ⟨digest, 0⟩, "route", digest, digest, ⟨1, 0, 0, [], 0, 0⟩, limits⟩

def actorRef : MeshActorRefV1 := ⟨⟨"actor", 1⟩, digest⟩

def config : MeshNodeRuntimeConfigV1 := ⟨"node", 0, 1, none, [], [], 0, limits⟩

def input : MeshInputV1 :=
  ⟨.ok ⟨true, .ok digest, .ok ⟨digest, 0⟩, []⟩, 0, .ok 1, .ok (), .ok (), .ok (),
    .stored ⟨⟨digest, 0⟩, [], true, some 0⟩⟩

/-- The call runs as thread 0 and its worker as thread 1. -/
def started : List MeshEventV1 :=
  [.opening config, .request false (.executeActor spec), .resume 0 input, .resume 0 input,
    .resume 0 input, .resume 0 input]

/-- Thread 2 reads the record before, and thread 3 after the terminal status is stored. -/
def events : List MeshEventV1 :=
  started ++ [.request false (.actorStatus actorRef), .resume 2 input, .resume 1 input,
    .resume 1 input, .request false (.actorStatus actorRef), .resume 3 input, .resume 3 input,
    .resume 2 input, .resume 2 input]

end Overlap

end MeshNodeV1

end Ostadix.Mesh
