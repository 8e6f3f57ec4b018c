import Ostadix.Mesh.Regions

/-! # The invariant of a mesh node

What holds of the directory, the owner table and every thread between two regions. The threads
rely on two things only: the directory grows (`Grows`), and a region touches one coordinate, which
no other thread guards (`Touch`). -/

namespace Ostadix.Mesh

open Ostadix.Lib Ostadix.Fabric

variable {ds : MeshDigestsV1}

/-! ## Growth of the directory -/

/-- What every region keeps at a coordinate: a record stays and keeps its spec, a settled record
and one without an owner stay as they are, and so does a fence. -/
structure GrowsAt (node later : MeshNodeV1) (key : String) : Prop where
  recorded : ∀ record, node.records.get? key = some record →
    ∃ next, later.records.get? key = some next ∧ next.spec = record.spec ∧
      (record.status.phase ≠ .running → next = record)
  abandoned : ∀ record, node.records.get? key = some record → node.activeActors.get? key = none →
    later.records.get? key = some record ∧ later.activeActors.get? key = none
  fenced : ∀ fence, node.fences.get? key = some fence → later.fences.get? key = some fence

def Grows (node later : MeshNodeV1) : Prop :=
  ∀ key, GrowsAt node later key

/-- The same record, fence and owner at a coordinate. -/
structure SameAt (node later : MeshNodeV1) (key : String) : Prop where
  record : later.records.get? key = node.records.get? key
  fence : later.fences.get? key = node.fences.get? key
  active : (later.activeActors.get? key).map ActiveActorV1.specSha256 =
    (node.activeActors.get? key).map ActiveActorV1.specSha256

theorem SameAt.refl (n : MeshNodeV1) (key : String) : SameAt n n key :=
  ⟨rfl, rfl, rfl⟩

variable {key : String} {n nd1 : MeshNodeV1}

section

variable (he : SameAt n nd1 key)

include he

theorem SameAt.lock {id : Nat} : SameAt n (nd1.lock id) key :=
  ⟨he.record, he.fence, he.active⟩

theorem SameAt.unlock : SameAt n nd1.unlock key :=
  ⟨he.record, he.fence, he.active⟩

theorem SameAt.active_none (hina : n.activeActors.get? key = none) :
    nd1.activeActors.get? key = none := by
  have act := he.active
  rw [hina, Option.map_none, Option.map_eq_none_iff] at act
  exact act

theorem SameAt.grows : GrowsAt n nd1 key  where
  recorded := fun rcd hf => ⟨rcd, he.record.trans hf, rfl, fun _ => rfl⟩
  abandoned := fun _ hf hina => ⟨he.record.trans hf, he.active_none hina⟩
  fenced := fun _ hf => he.fence.trans hf

end

theorem Grows.refl (n : MeshNodeV1) : Grows n n :=
  fun key => (SameAt.refl n key).grows

/-- Growth is about the directory and the owner table only. -/
theorem Grows.congr {n mid hl : MeshNodeV1} (growth : Grows n mid)
    (records : hl.records = mid.records) (fences : hl.fences = mid.fences)
    (act : hl.activeActors = mid.activeActors) : Grows n hl := by
  intro key
  obtain ⟨hr, abandoned, hfn⟩ := growth key
  exact ⟨records ▸ hr, records ▸ act ▸ abandoned, fences ▸ hfn⟩

theorem Grows.trans {first x2 third : MeshNodeV1} (s : Grows first x2)
    (t : Grows x2 third) : Grows first third := by
  intro k
  refine ⟨?_, ?_, ?_⟩
  · intro rcd hf
    obtain ⟨next, nextFound, nextSpec, nextSame⟩ := (s k).recorded rcd hf
    obtain ⟨last, lastFound, lastSpec, lastSame⟩ := (t k).recorded next nextFound
    refine ⟨last, lastFound, lastSpec.trans nextSpec, ?_⟩
    intro hset
    obtain rfl := nextSame hset
    exact lastSame hset
  · intro rcd hf hina
    obtain ⟨nextFound, nextInactive⟩ := (s k).abandoned rcd hf hina
    exact (t k).abandoned rcd nextFound nextInactive
  · intro fence hf
    exact (t k).fenced fence ((s k).fenced fence hf)

/-! ## Records and answers -/

/-- The record of an actor, under its key. -/
structure Recorded (digests : MeshDigestsV1) (records : OrderedMap String MeshActorRecordV1)
    (actorRef : MeshActorRefV1) (key : String) (record : MeshActorRecordV1) : Prop where
  found : records.get? key = some record
  valid : validateActorRecordIntegrity digests record = .ok actorRef
  stored : actorStorageKey digests actorRef.actor = .ok key

/-- The directory: every record is valid under its key, and a fenced coordinate has none. -/
structure Directory (digests : MeshDigestsV1) (node : MeshNodeV1) : Prop where
  records : ∀ key record, node.records.get? key = some record →
    record.status.phase ≠ .indeterminate ∧ ∃ actorRef, Recorded digests node.records actorRef key record
  fences : ∀ key fence, node.fences.get? key = some fence → node.records.get? key = none

theorem Recorded.grow {ref : MeshActorRefV1} {record : MeshActorRecordV1}
    (hr : Recorded ds n.records ref key record) (dir : Directory ds nd1) (hg : Grows n nd1) :
    ∃ next, Recorded ds nd1.records ref key next ∧
      (record.status.phase ≠ .running → next = record) := by
  obtain ⟨next, hf, sameSpec, same⟩ := (hg key).recorded record hr.found
  obtain ⟨_, _, hv⟩ := dir.records key next hf
  -- the reference is a function of the spec, which the record keeps
  have sameRef := (integrity_eq_ok hr.valid).1
  rw [← sameSpec, (integrity_eq_ok hv.valid).1] at sameRef
  cases sameRef
  exact ⟨next, hv, same⟩

theorem Recorded.unique {n : MeshNodeV1} {ref o : MeshActorRefV1} {rcd next : MeshActorRecordV1}
    (hr : Recorded ds n.records ref key rcd)
    (hf : Recorded ds n.records o key next) : ref = o ∧ rcd = next := by
  obtain rfl := Option.some.inj (hr.found.symm.trans hf.found)
  have same := hr.valid.symm.trans hf.valid
  cases same
  exact ⟨rfl, rfl⟩

/-- A status that was read from the directory and the owner table still holds, unless it says
Running. -/
def Standing (digests : MeshDigestsV1) (node : MeshNodeV1) (status : MeshActorStatusV1) : Prop :=
  ∃ key record, Recorded digests node.records status.actorRef key record ∧
    (status.phase.isTerminal = true → record.status = status) ∧
    (status.phase = .indeterminate → record.status.phase = .running ∧
      MeshNodeV1.reconciled record.status = status ∧ node.activeActors.get? key = none)

/-- A fence under the key of the coordinate. -/
def Fenced (digests : MeshDigestsV1) (node : MeshNodeV1) (actor : MeshActorIdV1) : Prop :=
  ∃ key fence, actorStorageKey digests actor = .ok key ∧ node.fences.get? key = some fence

def Stands (digests : MeshDigestsV1) (node : MeshNodeV1) : MeshNodeResult MeshResponseV1 → Prop
  | .error _ => True
  | .ok (.actorStatus status) => Standing digests node status
  | .ok (.actorCancellation cancellation) => Standing digests node cancellation.status
  | .ok (.actorFence (.existing status)) => Standing digests node status
  | .ok (.actorFence (.fencedAbsent actorRef)) => Fenced digests node actorRef.actor

theorem stands_response {n : MeshNodeV1} {st : MeshActorStatusV1}
    (hstd : Standing ds n st) (use : MeshStatusUseV1) :
    Stands ds n (.ok (use.response st)) := by
  cases use <;> exact hstd

section Growth

variable {n nd : MeshNodeV1} (dir : Directory ds nd) (growth : Grows n nd)
include dir growth

theorem Standing.grow {st : MeshActorStatusV1} (hstd : Standing ds n st) : Standing ds nd st := by
  obtain ⟨k, rcd, hr, trm, indet⟩ := hstd
  obtain ⟨next, hf, same⟩ := hr.grow dir growth
  refine ⟨k, next, hf, ?_, ?_⟩
  · intro hset
    have hun := trm hset
    have notRunning : rcd.status.phase ≠ .running := by
      rw [hun]
      intro hrun
      rw [hrun] at hset
      cases hset
    rw [same notRunning, hun]
  · intro lost
    obtain ⟨hrun, reconciles, hina⟩ := indet lost
    obtain ⟨kept, stillInactive⟩ := (growth k).abandoned rcd hr.found hina
    obtain rfl := Option.some.inj (hf.found.symm.trans kept)
    exact ⟨hrun, reconciles, stillInactive⟩

omit dir in
theorem Fenced.grow {actor : MeshActorIdV1} (hfn : Fenced ds n actor) : Fenced ds nd actor := by
  obtain ⟨k, fence, hst, hf⟩ := hfn
  exact ⟨k, fence, hst, (growth k).fenced fence hf⟩

theorem Stands.grow {ans : MeshNodeResult MeshResponseV1} (stands : Stands ds n ans) :
    Stands ds nd ans := by
  match ans, stands with
  | .error _, _ => trivial
  | .ok (.actorStatus _), hstd => exact Standing.grow dir growth hstd
  | .ok (.actorCancellation _), hstd => exact Standing.grow dir growth hstd
  | .ok (.actorFence (.existing _)), hstd => exact Standing.grow dir growth hstd
  | .ok (.actorFence (.fencedAbsent _)), hfn => exact Fenced.grow growth hfn

end Growth

/-! ## Threads -/

/-- What a thread has found out before its next region. -/
def Serves (digests : MeshDigestsV1) (node : MeshNodeV1) (id : Nat) : MeshThreadV1 → Prop
  | .execute _ | .statusRead .. | .fence _ | .cancel _ | .ending _ => True
  | .admitting spec actorRef key => Bound digests spec actorRef key
  | .admitted spec actorRef key => Bound digests spec actorRef key ∧ node.coordinate = some id ∧
      node.fences.get? key = none ∧ node.records.get? key = none
  | .spawning spec actorRef key running => Bound digests spec actorRef key ∧
      node.coordinate = some id ∧ node.records.get? key = some ⟨spec, running⟩ ∧
      running.phase = .running
  | .worker spec actorRef key => Bound digests spec actorRef key ∧
      ∃ status, node.records.get? key = some ⟨spec, status⟩ ∧ status.phase = .running
  | .settling spec actorRef key phase => phase.isTerminal = true ∧
      Bound digests spec actorRef key ∧
      ∃ status, node.records.get? key = some ⟨spec, status⟩ ∧ status.phase = .running
  | .statusActive _ actorRef key status => status.phase = .running ∧ status.actorRef = actorRef ∧
      ∃ record, Recorded digests node.records actorRef key record
  | .statusReconcile _ actorRef key => ∃ record, Recorded digests node.records actorRef key record ∧
      (record.status.phase = .running → node.activeActors.get? key = none)
  | .replying answer => Stands digests node answer

structure MeshNodeV1.Invariant (digests : MeshDigestsV1) (node : MeshNodeV1) : Prop where
  directory : Directory digests node
  numbered : ∀ id thread, node.threads.get? id = some thread → id < node.nextThread
  guarded : ∀ id thread key, node.threads.get? id = some thread → thread.guard = some key →
    (node.activeActors.get? key).isSome = true
  exclusive : ∀ id other thread peer key, node.threads.get? id = some thread →
    node.threads.get? other = some peer → thread.guard = some key → peer.guard = some key →
    id = other
  serves : ∀ id thread, node.threads.get? id = some thread → Serves digests node id thread

/-- What a step leads to. -/
structure Progress (digests : MeshDigestsV1) (node later : MeshNodeV1) : Prop where
  invariant : later.Invariant digests
  growth : Grows node later

/-- A region of the thread `id` that touches one coordinate. -/
structure Touch (node middle : MeshNodeV1) (id : Nat) (key : String) : Prop where
  elsewhere : ∀ other, other ≠ key → SameAt node middle other
  grows : GrowsAt node middle key
  alone : (middle.records.get? key = node.records.get? key ∧
      (middle.activeActors.get? key).isSome = (node.activeActors.get? key).isSome) ∨
    ∀ other thread, other ≠ id → node.threads.get? other = some thread → thread.guard ≠ some key
  lock : ∀ other, other ≠ id → node.coordinate = some other → middle.coordinate = some other
  fences : node.coordinate = none ∨ middle.fences = node.fences

namespace Touch

variable {n mid : MeshNodeV1} {id : Nat} {k : String} (touch : Touch n mid id k)
include touch

theorem growth : Grows n mid := by
  intro o
  by_cases he : o = k
  · exact he ▸ touch.grows
  · exact (touch.elsewhere o he).grows

/-- The record and the owner of a coordinate that another thread guards. -/
theorem spares {o : Nat} {th : MeshThreadV1} {gk : String} (hne : o ≠ id)
    (hrun : n.threads.get? o = some th) (grd : th.guard = some gk) :
    mid.records.get? gk = n.records.get? gk ∧
      (mid.activeActors.get? gk).isSome = (n.activeActors.get? gk).isSome := by
  by_cases he : gk = k
  · subst he
    obtain kept | alone := touch.alone
    · exact kept
    · exact absurd grd (alone o th hne hrun)
  · have kept := touch.elsewhere gk he
    refine ⟨kept.record, ?_⟩
    simpa using congrArg Option.isSome kept.active

/-- The other threads do not notice the region. -/
theorem serves {o : Nat} {th : MeshThreadV1} (dir : Directory ds mid)
    (hne : o ≠ id) (hrun : n.threads.get? o = some th)
    (hsrv : Serves ds n o th) : Serves ds mid o th := by
  have spares {gk : String} (grd : th.guard = some gk) := touch.spares hne hrun grd
  cases th with
  | execute | statusRead | fence | cancel | ending => trivial
  | admitting => exact hsrv
  | admitted =>
    obtain ⟨hb, holds, hunf, hab⟩ := hsrv
    refine ⟨hb, touch.lock o hne holds, ?_, (spares rfl).1.trans hab⟩
    obtain free | he := touch.fences
    · rw [free] at holds
      cases holds
    · rw [he]
      exact hunf
  | spawning =>
    obtain ⟨hb, holds, hf, ph⟩ := hsrv
    exact ⟨hb, touch.lock o hne holds, (spares rfl).1.trans hf, ph⟩
  | worker =>
    obtain ⟨hb, st, hf, ph⟩ := hsrv
    exact ⟨hb, st, (spares rfl).1.trans hf, ph⟩
  | settling =>
    obtain ⟨trm, hb, st, hf, hisr⟩ := hsrv
    exact ⟨trm, hb, st, (spares rfl).1.trans hf, hisr⟩
  | statusActive =>
    obtain ⟨ph, named, rcd, hr⟩ := hsrv
    obtain ⟨next, hf, _⟩ := hr.grow dir touch.growth
    exact ⟨ph, named, next, hf⟩
  | statusReconcile use ref readKey =>
    obtain ⟨rcd, hr, hina⟩ := hsrv
    obtain ⟨next, hf, he⟩ := hr.grow dir touch.growth
    refine ⟨next, hf, ?_⟩
    intro stillRunning
    by_cases ph : rcd.status.phase = .running
    · exact ((touch.growth readKey).abandoned rcd hr.found (hina ph)).2
    · rw [he ph] at stillRunning
      exact absurd stillRunning ph
  | replying => exact .grow dir touch.growth hsrv

end Touch

end Ostadix.Mesh
