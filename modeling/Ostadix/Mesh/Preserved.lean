import Ostadix.Mesh.Invariant

/-! # The invariant is preserved

One lemma for a thread that goes on, one for a thread that ends and one for a new thread; then one
case for each region, and the runs. -/

namespace Ostadix.Mesh

open Ostadix.Lib Ostadix.Fabric

variable {ds : MeshDigestsV1}

namespace MeshNodeV1.Invariant

variable {n mid : MeshNodeV1} (inv : n.Invariant ds) {id : Nat}
  {th : MeshThreadV1} {k : String}
include inv

/-! ## Threads that go on, end and start -/

/-- No other thread guards the key of a guard. -/
theorem alone (hrun : n.threads.get? id = some th) (grd : th.guard = some k)
    (o : Nat) (peer : MeshThreadV1) (hne : o ≠ id)
    (hp : n.threads.get? o = some peer) : peer.guard ≠ some k :=
  fun both => hne (inv.exclusive o id peer th k hp hrun both grd)

theorem proceed (touch : Touch n mid id k) (sameThreads : mid.threads = n.threads)
    (sameNext : mid.nextThread = n.nextThread) (dir : Directory ds mid)
    (hrun : n.threads.get? id = some th) {next : MeshThreadV1} (hsrv : Serves ds mid id next)
    (grd : ∀ guardKey, next.guard = some guardKey → (mid.activeActors.get? guardKey).isSome = true ∧
        ∀ other peer, other ≠ id → n.threads.get? other = some peer → peer.guard ≠ some guardKey) :
    Progress ds n (mid.proceed id next) := by
  have ths (other : Nat) : (mid.proceed id next).threads.get? other =
      if id = other then some next else n.threads.get? other := by
    simp [MeshNodeV1.proceed, sameThreads]
  refine ⟨⟨⟨dir.records, dir.fences⟩, ?_, ?_, ?_, ?_⟩, touch.growth.congr rfl rfl rfl⟩
  · intro other peer hp
    have bound := inv.numbered id th hrun
    rw [ths] at hp
    show other < mid.nextThread
    rw [sameNext]
    split at hp
    · omega
    · exact inv.numbered other peer hp
  · intro other peer guardKey hp hgd
    rw [ths] at hp
    split at hp
    · cases hp
      exact (grd guardKey hgd).1
    · rename_i hne
      have spared := touch.spares (.symm hne) hp hgd
      exact spared.2.trans (inv.guarded other peer guardKey hp hgd)
  · intro first x2 left right guardKey hpl hpr hg1 hg2
    rw [ths] at hpl hpr
    split at hpl
    · rename_i hs1
      cases hpl
      split at hpr
      · rename_i hs2
        exact hs1.symm.trans hs2
      · rename_i hne
        exact absurd hg2 ((grd guardKey hg1).2 x2 right (.symm hne) hpr)
    · rename_i hne
      split at hpr
      · cases hpr
        exact absurd hg1 ((grd guardKey hg2).2 first left (.symm hne) hpl)
      · exact inv.exclusive first x2 left right guardKey hpl hpr hg1 hg2
  · intro other peer hp
    rw [ths] at hp
    split at hp
    · rename_i same
      cases hp
      exact same ▸ hsrv
    · rename_i hne
      exact touch.serves dir (.symm hne) hp (inv.serves other peer hp)

theorem finish (touch : Touch n mid id k) (sameThreads : mid.threads = n.threads)
    (sameNext : mid.nextThread = n.nextThread) (dir : Directory ds mid) :
    Progress ds n (mid.finish id) := by
  have ths {o : Nat} {peer : MeshThreadV1} (hp : (mid.finish id).threads.get? o = some peer) :
      o ≠ id ∧ n.threads.get? o = some peer := by
    simp only [MeshNodeV1.finish, sameThreads, OrderedMap.get?_erase] at hp
    split at hp
    · cases hp
    · rename_i hne
      exact ⟨.symm hne, hp⟩
  refine ⟨⟨⟨dir.records, dir.fences⟩, ?_, ?_, ?_, ?_⟩, touch.growth.congr rfl rfl rfl⟩
  · intro o peer hp
    show o < mid.nextThread
    rw [sameNext]
    exact inv.numbered o peer (ths hp).2
  · intro o peer gk hp hgd
    obtain ⟨hne, kept⟩ := ths hp
    exact (touch.spares hne kept hgd).2.trans (inv.guarded o peer gk kept hgd)
  · intro first x2 left right gk hpl hpr
    exact inv.exclusive first x2 left right gk (ths hpl).2 (ths hpr).2
  · intro o peer hp
    obtain ⟨hne, kept⟩ := ths hp
    exact touch.serves dir hne kept (inv.serves o peer kept)

theorem launch (hsrv : Serves ds n n.nextThread th) (grd : ∀ guardKey, th.guard = some guardKey →
      (n.activeActors.get? guardKey).isSome = true ∧
        ∀ other peer, n.threads.get? other = some peer → peer.guard ≠ some guardKey) :
    Progress ds n (n.launch th) := by
  have ths (other : Nat) : (n.launch th).threads.get? other =
      if n.nextThread = other then some th else n.threads.get? other := by
    simp [MeshNodeV1.launch]
  refine ⟨⟨⟨inv.directory.records, inv.directory.fences⟩, ?_, ?_, ?_, ?_⟩,
    (Grows.refl n).congr rfl rfl rfl⟩
  · intro other peer hp
    show other < n.nextThread + 1
    rw [ths] at hp
    split at hp
    · omega
    · have := inv.numbered other peer hp
      omega
  · intro other peer guardKey hp hgd
    rw [ths] at hp
    split at hp
    · cases hp
      exact (grd guardKey hgd).1
    · exact inv.guarded other peer guardKey hp hgd
  · intro first x2 left right guardKey hpl hpr hg1 hg2
    rw [ths] at hpl hpr
    split at hpl
    · rename_i hs1
      cases hpl
      split at hpr
      · rename_i hs2
        exact hs1.symm.trans hs2
      · exact absurd hg2 ((grd guardKey hg1).2 x2 right hpr)
    · split at hpr
      · cases hpr
        exact absurd hg1 ((grd guardKey hg2).2 first left hpl)
      · exact inv.exclusive first x2 left right guardKey hpl hpr hg1 hg2
  · intro other peer hp
    rw [ths] at hp
    split at hp
    · rename_i same
      cases hp
      exact same ▸ hsrv
    · exact inv.serves other peer hp

/-! ## What the regions touch -/

/-- A region of a thread that guards the coordinate it touches. -/
theorem touch_guarded (hrun : n.threads.get? id = some th)
    (grd : th.guard = some k) (elsewhere : ∀ other, other ≠ k → SameAt n mid other)
    (records : ∀ rcd, n.records.get? k = some rcd →
      ∃ next, mid.records.get? k = some next ∧ next.spec = rcd.spec ∧
        (rcd.status.phase ≠ .running → next = rcd))
    (fences : mid.fences = n.fences)
    (lock : mid.coordinate = n.coordinate ∨ n.coordinate = some id) :
    Touch n mid id k where
  elsewhere := elsewhere
  grows := by
    refine ⟨records, ?_, ?_⟩
    · intro rcd _ hina
      have act := inv.guarded id th k hrun grd
      rw [hina] at act
      cases act
    · intro fence hf
      rw [fences]
      exact hf
  alone := .inr (inv.alone hrun grd)
  lock := by
    intro other hne held
    obtain same | own := lock
    · exact same.trans held
    · exact absurd (Option.some.inj (held.symm.trans own)) hne
  fences := .inr fences

omit inv in
theorem touch_same (he : ∀ other, SameAt n mid other) (fences : mid.fences = n.fences)
    (lock : mid.coordinate = n.coordinate ∨ n.coordinate = some id) :
    Touch n mid id k where
  elsewhere := fun other _ => he other
  grows := (he k).grows
  alone := .inl ⟨(he k).record, by simpa using congrArg Option.isSome (he k).active⟩
  lock := by
    intro other hne held
    obtain kept | own := lock
    · exact kept.trans held
    · exact absurd (Option.some.inj (held.symm.trans own)) hne
  fences := .inr fences

omit inv in
theorem touch_refl : Touch n n id k :=
  touch_same (fun o => .refl n o) rfl (.inl rfl)

omit inv in
theorem same_putRecord (rcd : MeshActorRecordV1) (o : String) (hne : o ≠ k) :
    SameAt n (n.putRecord k rcd) o :=
  ⟨by simp [putRecord, Ne.symm hne], rfl, rfl⟩

omit inv in
theorem same_dropGuard (o : String) (hne : o ≠ k) : SameAt n (n.dropGuard k) o :=
  ⟨rfl, rfl, by simp [dropGuard, Ne.symm hne]⟩

omit inv in
theorem same_putActive (actor : ActiveActorV1) (o : String) (hne : o ≠ k) :
    SameAt n (n.putActive k actor) o :=
  ⟨rfl, rfl, by simp [putActive, Ne.symm hne]⟩

omit inv in
theorem same_putFence (fence : MeshActorFenceRecordV1) (o : String) (hne : o ≠ k) :
    SameAt n (n.putFence k fence) o :=
  ⟨rfl, by simp [putFence, Ne.symm hne], rfl⟩

omit inv in
theorem same_cancelActive (k o : String) : SameAt n (n.cancelActive k) o := by
  refine ⟨rfl, rfl, ?_⟩
  simp only [cancelActive, OrderedMap.get?_modify]
  split
  · rw [Option.map_map]
    rfl
  · rfl

/-- The slot of a coordinate that is neither fenced, recorded nor active. -/
theorem touch_acquired {actor : ActiveActorV1} (hul : n.coordinate = none)
    (hab : n.records.get? k = none) (hina : n.activeActors.get? k = none) :
    Touch n ((n.putActive k actor).lock id) id k where
  elsewhere := fun o hne => (same_putActive actor o hne).lock
  grows := by
    refine ⟨?_, ?_, fun _ hf => hf⟩
    · intro rcd hf
      rw [hab] at hf
      cases hf
    · intro rcd hf
      rw [hab] at hf
      cases hf
  alone := by
    refine .inr ?_
    intro o peer _ hp grd
    have act := inv.guarded o peer k hp grd
    rw [hina] at act
    cases act
  lock := by
    intro o _ held
    rw [hul] at held
    cases held
  fences := .inl hul

variable {fence : MeshActorFenceRecordV1} {st : MeshActorStatusV1}

omit inv in
theorem touch_fenced (hul : n.coordinate = none) (hunf : n.fences.get? k = none) :
    Touch n (n.putFence k fence) id k  where
  elsewhere := same_putFence fence
  grows := by
    refine ⟨fun rcd hf => ⟨rcd, hf, rfl, fun _ => rfl⟩, fun _ hf hina => ⟨hf, hina⟩, ?_⟩
    intro other hf
    rw [hunf] at hf
    cases hf
  alone := .inl ⟨rfl, rfl⟩
  lock := fun _ _ held => held
  fences := .inl hul

/-! ## The directory -/

variable {ref : MeshActorRefV1} {spec : MeshActorSpecV1} {rcd : MeshActorRecordV1}

omit inv in
theorem directory_putRecord (dir : Directory ds n) (hb : Bound ds rcd.spec ref k)
    (hv : ∃ actual, validateActorRecordIntegrity ds rcd = .ok actual)
    (hdet : rcd.status.phase ≠ .indeterminate) (hunf : n.fences.get? k = none) :
    Directory ds (n.putRecord k rcd) where
  records := by
    intro o hf hst
    simp only [putRecord, OrderedMap.get?_insert] at hst ⊢
    split at hst
    · rename_i he
      subst he
      cases hst
      obtain ⟨actual, hv⟩ := hv
      have sameRef := (integrity_eq_ok hv).1.symm.trans hb.digest
      cases sameRef
      exact ⟨hdet, ref, by simp, hv, hb.stored⟩
    · rename_i hne
      obtain ⟨ph, actual, hr⟩ := dir.records o hf hst
      exact ⟨ph, actual, by simpa [hne] using hr.found, hr.valid, hr.stored⟩
  fences := by
    intro o fence hfn
    have hab := dir.fences o fence hfn
    simp only [putRecord, OrderedMap.get?_insert]
    split
    · rename_i he
      subst he
      rw [show n.fences.get? k = some fence from hfn] at hunf
      cases hunf
    · exact hab

omit inv in
theorem directory_putFence (dir : Directory ds n)
    (hab : n.records.get? k = none) : Directory ds (n.putFence k fence)  where
  records := dir.records
  fences := by
    intro o hf hfn
    simp only [putFence, OrderedMap.get?_insert] at hfn
    split at hfn
    · rename_i same
      exact same ▸ hab
    · exact dir.fences o hf hfn

omit inv in
theorem unfenced_of_record (dir : Directory ds n)
    (hf : n.records.get? k = some rcd) : n.fences.get? k = none := by
  cases hfn : n.fences.get? k with
  | none => rfl
  | some fence =>
    rw [dir.fences k fence hfn] at hf
    cases hf

/-! ## Regions -/

section

variable (hrun : n.threads.get? id = some th)

include hrun

/-- A region that changes nothing but its own thread. -/
theorem proceed_same {next : MeshThreadV1} (hsrv : Serves ds n id next)
    (grd : next.guard = none ∨ next.guard = th.guard) :
    Progress ds n (n.proceed id next) := by
  have touch : Touch n n id "" := touch_refl
  apply inv.proceed touch rfl rfl inv.directory hrun hsrv
  intro gk hgd
  obtain none | same := grd
  · rw [none] at hgd
    cases hgd
  · rw [same] at hgd
    exact ⟨inv.guarded id th gk hrun hgd, inv.alone hrun hgd⟩

/-- The rest of an `execute_actor` that gives its guard and the lock up. -/
theorem dropGuard_unlock (grd : th.guard = some k) (hlk : n.coordinate = some id)
    {ans : MeshNodeResult MeshResponseV1} (stands : Stands ds n ans) :
    Progress ds n (((n.dropGuard k).unlock).reply id ans) := by
  have touch : Touch n (n.dropGuard k).unlock id k :=
    inv.touch_guarded hrun grd (fun o hne => (same_dropGuard o hne).unlock)
      (fun rcd hf => ⟨rcd, hf, rfl, fun _ => rfl⟩) rfl (.inr hlk)
  have dir : Directory ds (n.dropGuard k).unlock := ⟨inv.directory.records, inv.directory.fences⟩
  apply inv.proceed touch rfl rfl dir hrun
  · exact .grow dir touch.growth stands
  · intro gk hgd
    cases hgd

/-- A record over the Running record of a guarded coordinate, or where there is none. -/
theorem touch_putRecord (grd : th.guard = some k)
    (replaces : ∀ previous, n.records.get? k = some previous →
      rcd.spec = previous.spec ∧ previous.status.phase = .running) :
    Touch n (n.putRecord k rcd) id k := by
  apply inv.touch_guarded hrun grd (same_putRecord rcd) _ rfl (.inl rfl)
  intro previous hf
  obtain ⟨sameSpec, wasRunning⟩ := replaces previous hf
  exact ⟨rcd, by simp [putRecord], sameSpec, fun hset => absurd wasRunning hset⟩

end

theorem region_acquired (hrun : n.threads.get? id = some (.admitting spec ref k))
    (hul : n.coordinate = none) (hunf : n.fences.get? k = none)
    (hab : n.records.get? k = none) (hina : n.activeActors.get? k = none) :
    Progress ds n (((n.putActive k ⟨ref.specSha256, false⟩).lock id).proceed id
      (.admitted spec ref k)) := by
  have touch : Touch n ((n.putActive k ⟨ref.specSha256, false⟩).lock id) id k :=
    inv.touch_acquired hul hab hina
  apply inv.proceed touch rfl rfl ⟨inv.directory.records, inv.directory.fences⟩ hrun
  · exact ⟨inv.serves id _ hrun, rfl, hunf, hab⟩
  · rintro gk ⟨⟩
    refine ⟨by simp [putActive, lock], ?_⟩
    intro o peer _ hp hgd
    have act := inv.guarded o peer k hp hgd
    rw [hina] at act
    cases act

theorem region_stored (hrun : n.threads.get? id = some (.admitted spec ref k))
    (ph : st.phase = .running)
    (hv : ∃ actual, validateActorRecordIntegrity ds ⟨spec, st⟩ = .ok actual) :
    Progress ds n ((n.putRecord k ⟨spec, st⟩).proceed id (.spawning spec ref k st)) := by
  obtain ⟨hb, hlk, hunf, hab⟩ := inv.serves id _ hrun
  have touch : Touch n (n.putRecord k ⟨spec, st⟩) id k := by
    apply inv.touch_putRecord hrun rfl
    intro previous hf
    rw [hab] at hf
    cases hf
  have dir : Directory ds (n.putRecord k ⟨spec, st⟩) :=
    directory_putRecord inv.directory hb hv (by simp [ph]) hunf
  apply inv.proceed touch rfl rfl dir hrun
  · exact ⟨hb, hlk, by simp [putRecord], ph⟩
  · rintro gk ⟨⟩
    exact ⟨inv.guarded id _ k hrun rfl, inv.alone hrun rfl⟩

theorem region_spawnFailed {s st : MeshActorStatusV1}
    (hrun : n.threads.get? id = some (.spawning spec ref k s))
    (named : st.actorRef = ref) (trm : st.phase.isTerminal = true)
    (hv : ∃ actual, validateActorRecordIntegrity ds ⟨spec, st⟩ = .ok actual) :
    Progress ds n ((((n.dropGuard k).putRecord k ⟨spec, st⟩).unlock).reply id
      (.ok (.actorStatus st))) := by
  obtain ⟨hb, hlk, hf, ph⟩ := inv.serves id _ hrun
  have hdet : st.phase ≠ .indeterminate := by
    intro indet
    rw [indet] at trm
    cases trm
  have touch : Touch n (((n.dropGuard k).putRecord k ⟨spec, st⟩).unlock) id k := by
    refine inv.touch_guarded hrun rfl ?_ ?_ rfl (.inr hlk)
    · intro other hne
      have dropped : SameAt n (n.dropGuard k) other := same_dropGuard other hne
      have put : SameAt (n.dropGuard k) ((n.dropGuard k).putRecord k ⟨spec, st⟩)
          other := same_putRecord _ other hne
      exact .unlock ⟨put.record.trans dropped.record, put.fence.trans dropped.fence,
        put.active.trans dropped.active⟩
    · intro previous previousFound
      rw [hf] at previousFound
      cases previousFound
      exact ⟨⟨spec, st⟩, by simp [putRecord, unlock], rfl, fun hset => absurd ph hset⟩
  have put : Directory ds (n.putRecord k ⟨spec, st⟩) :=
    directory_putRecord inv.directory hb hv hdet (unfenced_of_record inv.directory hf)
  have dir : Directory ds (((n.dropGuard k).putRecord k ⟨spec, st⟩).unlock) :=
    ⟨put.records, put.fences⟩
  apply inv.proceed touch rfl rfl dir hrun
  · obtain ⟨actual, hv⟩ := hv
    have sameRef := (integrity_eq_ok hv).1.symm.trans hb.digest
    cases sameRef
    refine ⟨k, ⟨spec, st⟩, ⟨by simp [putRecord, unlock], named ▸ hv, named ▸ hb.stored⟩,
      fun _ => rfl, ?_⟩
    intro indet
    exact absurd indet hdet
  · rintro gk ⟨⟩

theorem region_spawned (hrun : n.threads.get? id = some (.spawning spec ref k st)) :
    Progress ds n ((n.unlock.reply id (.ok (.actorStatus st))).launch (.worker spec ref k)) := by
  obtain ⟨hb, hlk, hf, ph⟩ := inv.serves id _ hrun
  obtain ⟨_, _, hr⟩ := inv.directory.records k _ hf
  have sameRef := (integrity_eq_ok hr.valid).1.symm.trans hb.digest
  cases sameRef
  have touch : Touch n n.unlock id k :=
    touch_same (fun o => (SameAt.refl n o).unlock) rfl (.inr hlk)
  have hans : Progress ds n (n.unlock.reply id (.ok (.actorStatus st))) := by
    apply inv.proceed touch rfl rfl ⟨inv.directory.records, inv.directory.fences⟩ hrun
    · have named := (integrity_eq_ok hr.valid).2
      refine ⟨k, _, named ▸ hr, fun _ => rfl, ?_⟩
      intro indet
      rw [ph] at indet
      cases indet
    · rintro gk ⟨⟩
  have launched : Progress ds (n.unlock.reply id (.ok (.actorStatus st)))
      ((n.unlock.reply id (.ok (.actorStatus st))).launch (.worker spec ref k)) := by
    apply hans.invariant.launch
    · exact ⟨hb, st, hf, ph⟩
    · rintro gk ⟨⟩
      refine ⟨inv.guarded id _ k hrun rfl, ?_⟩
      -- the thread itself has handed its guard over
      intro o peer hp
      simp only [reply, unlock, MeshNodeV1.proceed, OrderedMap.get?_insert] at hp
      split at hp
      · cases hp
        rintro ⟨⟩
      · rename_i hne
        exact inv.alone hrun rfl o peer (.symm hne) hp
  exact ⟨launched.invariant, hans.growth.trans launched.growth⟩

theorem region_fenced (hrun : n.threads.get? id = some (.fence ref))
    (hst : actorStorageKey ds ref.actor = .ok k)
    (hul : n.coordinate = none) (hab : n.records.get? k = none) (hunf : n.fences.get? k = none) :
    Progress ds n ((n.putFence k fence).reply id (.ok (.actorFence (.fencedAbsent ref)))) := by
  apply inv.proceed (touch_fenced hul hunf) rfl rfl (directory_putFence inv.directory hab) hrun
  · exact ⟨k, fence, hst, by simp [putFence]⟩
  · rintro gk ⟨⟩

theorem region_cancelled {use : MeshStatusUseV1} (hrun : n.threads.get? id = some (.cancel ref)) :
    Progress ds n ((n.cancelActive k).proceed id (.statusRead use ref)) := by
  have touch : Touch n (n.cancelActive k) id k := touch_same (same_cancelActive k) rfl (.inl rfl)
  apply inv.proceed touch rfl rfl ⟨inv.directory.records, inv.directory.fences⟩ hrun
  · trivial
  · rintro gk ⟨⟩

theorem region_settled {ph : MeshActorPhaseV1}
    (hrun : n.threads.get? id = some (.settling spec ref k ph)) (hre : st.phase = ph)
    (hv : ∃ actual, validateActorRecordIntegrity ds ⟨spec, st⟩ = .ok actual) :
    Progress ds n ((n.putRecord k ⟨spec, st⟩).proceed id (.ending k)) := by
  obtain ⟨trm, hb, _, hf, wasRunning⟩ := inv.serves id _ hrun
  have touch : Touch n (n.putRecord k ⟨spec, st⟩) id k := by
    apply inv.touch_putRecord hrun rfl
    intro previous previousFound
    rw [hf] at previousFound
    cases previousFound
    exact ⟨rfl, wasRunning⟩
  have hdet : st.phase ≠ .indeterminate := by
    rw [hre]
    rintro rfl
    cases trm
  have dir : Directory ds (n.putRecord k ⟨spec, st⟩) :=
    directory_putRecord inv.directory hb hv hdet (unfenced_of_record inv.directory hf)
  apply inv.proceed touch rfl rfl dir hrun
  · trivial
  · rintro gk ⟨⟩
    exact ⟨inv.guarded id _ k hrun rfl, inv.alone hrun rfl⟩

theorem region_ended (hrun : n.threads.get? id = some (.ending k)) :
    Progress ds n (n.endWorker id k) := by
  have touch : Touch n (n.dropGuard k) id k :=
    inv.touch_guarded hrun rfl (fun o hne => same_dropGuard o hne)
      (fun rcd hf => ⟨rcd, hf, rfl, fun _ => rfl⟩) rfl (.inl rfl)
  exact inv.finish touch rfl rfl ⟨inv.directory.records, inv.directory.fences⟩

omit inv in
@[simp] theorem actorRef_reconciled (st : MeshActorStatusV1) :
    (reconciled st).actorRef = st.actorRef := by
  unfold reconciled
  split <;> rfl

/-- The status of a record that was found without an owner. -/
theorem standing_reconciled {use : MeshStatusUseV1}
    (hsrv : Serves ds n id (.statusReconcile use ref k)) (hf : n.records.get? k = some rcd)
    (hv : validateActorRecordIntegrity ds rcd = .ok ref) :
    Standing ds n (reconciled rcd.status) := by
  obtain ⟨prev, hr, hina⟩ := hsrv
  obtain rfl := Option.some.inj (hr.found.symm.trans hf)
  have named : (reconciled prev.status).actorRef = ref :=
    (actorRef_reconciled prev.status).trans (integrity_eq_ok hv).2
  refine ⟨k, prev, named ▸ hr, ?_, ?_⟩
  · intro trm
    unfold reconciled at trm ⊢
    split at trm
    · cases trm
    · rename_i hset
      rw [if_neg hset]
  · intro indet
    by_cases hisr : prev.status.phase = .running
    · exact ⟨hisr, rfl, hina hisr⟩
    · have hdet := (inv.directory.records k prev hf).1
      rw [reconciled, if_neg hisr] at indet
      exact absurd indet hdet

/-- Every region keeps the invariant, and the directory grows. -/
theorem region {hl : MeshNodeV1} {out : MeshOutputV1} (hrun : n.threads.get? id = some th)
    (runs : Runs ds n id th hl out) : Progress ds n hl := by
  have hsrv := inv.serves id th hrun
  obtain ⟨_, _, _, region, rfl⟩ := runs
  cases region with
  | refused | existing => exact inv.proceed_same hrun trivial (.inl rfl)
  | checked hb => exact inv.proceed_same hrun hb (.inl rfl)
  | acquired hul hunf hab hina =>
    exact inv.region_acquired hrun hul hunf hab hina
  | stored hab hv => exact inv.region_stored hrun rfl hv
  | unstored | unspawned => exact inv.dropGuard_unlock hrun rfl hsrv.2.1 trivial
  | spawnFailed hv => exact inv.region_spawnFailed hrun rfl rfl hv
  | spawned => exact inv.region_spawned hrun
  | found stored read =>
    obtain ⟨found, hv⟩ := readActorRecord_eq_ok.mp read
    have hdet := (inv.directory.records _ _ found).1
    have named := (integrity_eq_ok hv).2
    apply inv.proceed_same hrun _ (.inl rfl)
    refine stands_response ⟨_, _, ⟨found, named ▸ hv, named ▸ stored⟩, fun _ => rfl, ?_⟩ _
    intro indet
    exact absurd indet hdet
  | foundRunning stored read hisr =>
    obtain ⟨found, hv⟩ := readActorRecord_eq_ok.mp read
    exact inv.proceed_same hrun ⟨hisr, (integrity_eq_ok hv).2, _, found, hv, stored⟩ (.inl rfl)
  | owned =>
    obtain ⟨hisr, named, rcd, hr⟩ := hsrv
    apply inv.proceed_same hrun _ (.inl rfl)
    refine stands_response ⟨_, rcd, named ▸ hr, ?_, ?_⟩ _
    · intro trm
      rw [hisr] at trm
      cases trm
    · intro indet
      rw [hisr] at indet
      cases indet
  | unowned hina =>
    obtain ⟨_, _, rcd, hr⟩ := hsrv
    exact inv.proceed_same hrun ⟨rcd, hr, fun _ => hina⟩ (.inl rfl)
  | reconciled read =>
    obtain ⟨found, hv⟩ := readActorRecord_eq_ok.mp read
    exact inv.proceed_same hrun
      (stands_response (inv.standing_reconciled hsrv found hv) _) (.inl rfl)
  | refenced stored found =>
    exact inv.proceed_same hrun ⟨_, _, stored, found⟩ (.inl rfl)
  | fenced stored hul hab hunf =>
    exact inv.region_fenced hrun stored hul hab hunf
  | cancelled => exact inv.region_cancelled hrun
  | replied => exact inv.finish (touch_refl : Touch n n id "") rfl rfl inv.directory
  | ran trm => exact inv.proceed_same hrun ⟨trm, hsrv⟩ (.inr rfl)
  | lost working =>
    exact inv.proceed_same hrun trivial (.inr (MeshThreadV1.guard_of_working working).symm)
  | settled hv => exact inv.region_settled hrun rfl hv
  | ended => exact inv.region_ended hrun

/-! ## Steps and runs -/

omit inv in
theorem serves_openingThread (wire : Bool) (req : MeshRequestV1) :
    Serves ds n id (openingThread wire req) := by
  unfold openingThread
  split
  · trivial
  · cases req <;> trivial

omit inv in
theorem guard_openingThread (wire : Bool) (req : MeshRequestV1) :
    (openingThread wire req).guard = none := by
  unfold openingThread
  split
  · rfl
  · cases req <;> rfl

/-- A crash leaves the directory, and no thread. -/
theorem crashed : Progress ds n n.crashed  where
  invariant := by
    refine ⟨⟨inv.directory.records, inv.directory.fences⟩, ?_, ?_, ?_, ?_⟩
    · intro o peer hp
      cases hp
    · intro o peer gk hp
      cases hp
    · intro first second left right gk hp
      cases hp
    · intro o peer hp
      cases hp
  growth := by
    intro k
    exact ⟨fun rcd hf => ⟨rcd, hf, rfl, fun _ => rfl⟩,
      fun rcd hf _ => ⟨hf, rfl⟩, fun fence hf => hf⟩

/-- The configuration, the admission of actors and the cancellation tokens are of no account. -/
theorem reconfigured {config : Option MeshNodeRuntimeConfigV1} {accepting : Bool}
    {act : OrderedMap String ActiveActorV1}
    (owners : ∀ k, (act.get? k).map ActiveActorV1.specSha256 =
      (n.activeActors.get? k).map ActiveActorV1.specSha256) :
    Progress ds n
      { n with config := config, acceptingActors := accepting, activeActors := act } := by
  have he (k : String) : SameAt n
      { n with config := config, acceptingActors := accepting, activeActors := act } k :=
    ⟨rfl, rfl, owners k⟩
  have growth : Grows n
      { n with config := config, acceptingActors := accepting, activeActors := act } :=
    fun k => (he k).grows
  have dir : Directory ds
      { n with config := config, acceptingActors := accepting, activeActors := act } :=
    ⟨inv.directory.records, inv.directory.fences⟩
  refine ⟨⟨dir, inv.numbered, ?_, inv.exclusive, ?_⟩, growth⟩
  · intro o peer gk hp hgd
    have act := inv.guarded o peer gk hp hgd
    simpa using (congrArg Option.isSome (owners gk)).trans (by simpa using act)
  · intro o peer hp
    have touch : Touch n
        { n with config := config, acceptingActors := accepting, activeActors := act }
        (o + 1) "" := touch_same he rfl (.inl rfl)
    exact touch.serves dir (by omega) hp (inv.serves o peer hp)

theorem step (ev : MeshEventV1) : Progress ds n (n.step ds ev).1 := by
  have hun : Progress ds n n := ⟨inv, .refl n⟩
  cases ev with try dsimp only [MeshNodeV1.step]
  | opening =>
    split
    · exact inv.reconfigured fun _ => rfl
    · exact hun
  | crash => exact inv.crashed
  | shutdown =>
    apply inv.reconfigured
    intro k
    rw [OrderedMap.get?_mapValues, Option.map_map]
    rfl
  | request wire request =>
    split
    · apply inv.launch (serves_openingThread wire request)
      intro gk hgd
      rw [guard_openingThread] at hgd
      cases hgd
    · exact hun
  | resume id input =>
    split
    · rename_i cfg th _ hrun
      split
      · exact hun
      · rename_i free
        exact inv.region hrun (region_runThread (by simpa using free))
    · exact hun

theorem run (evs : List MeshEventV1) :
    Progress ds n (Machine.runState (MeshNodeV1.step ds) n evs) := by
  induction evs generalizing n with
  | nil => exact ⟨inv, .refl n⟩
  | cons ev evs ih =>
    have first := inv.step ev
    have tl := ih first.invariant
    exact ⟨tl.invariant, first.growth.trans tl.growth⟩

end MeshNodeV1.Invariant

theorem MeshNodeV1.invariant_fresh : MeshNodeV1.fresh.Invariant ds := by
  refine ⟨⟨?_, ?_⟩, ?_, ?_, ?_, ?_⟩
  · intro k record hf
    cases hf
  · intro k fence hf
    cases hf
  · intro id th hp
    cases hp
  · intro id th k hp
    cases hp
  · intro id other th peer k hp
    cases hp
  · intro id th hp
    cases hp

end Ostadix.Mesh
