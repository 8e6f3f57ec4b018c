import Mathlib.Order.Lattice
import Mathlib.Data.List.Count
import Mathlib.Data.List.Nodup
import Mathlib.Data.List.Perm.Subperm
import Mathlib.Data.List.TakeDrop

/-! # Scheduling a dependency graph, smallest node first

Kahn's algorithm over a list of nodes and a list of edges. A node becomes ready when the last of
its incoming edges is released; among the ready nodes the smallest is taken.

- `consistent_start`, `consistent_take`: what every state of a run satisfies.
- `schedule_eq`: the schedule is a given order, if the edges respect that order and wherever it
  takes a larger node first it is forced to. -/

namespace Ostadix.Lib.Kahn

open List

variable {α : Type} [LinearOrder α]

/-! ## The algorithm -/

structure State (α : Type) [LinearOrder α] where
  indegree : α → Nat
  ready : Std.ExtTreeSet α
  order : List α

def indegree (edges : List (α × α)) (node : α) : Nat :=
  edges.countP fun edge => edge.2 = node

def successors (edges : List (α × α)) (node : α) : List α :=
  (edges.filter fun edge => edge.1 = node).map Prod.snd

def start (nodes : List α) (edges : List (α × α)) : State α where
  indegree := indegree edges
  ready := .ofList (nodes.filter fun node => indegree edges node = 0)
  order := []

/-- Release one edge into `successor`. -/
def release (state : State α) (successor : α) : State α :=
  let degree := state.indegree successor - 1
  { state with
    indegree := Function.update state.indegree successor degree
    ready := if degree = 0 then state.ready.insert successor else state.ready }

/-- Schedule `node` and release its outgoing edges. -/
def take (edges : List (α × α)) (state : State α) (node : α) : State α :=
  (successors edges node).foldl release
    { state with ready := state.ready.erase node, order := state.order ++ [node] }

def run (edges : List (α × α)) : Nat → State α → State α
  | 0, state => state
  | fuel + 1, state =>
      match state.ready.toList with
      | [] => state
      | node :: _ => run edges fuel (take edges state node)

/-- The scheduled nodes in order. A run takes each node at most once, so the number of nodes is
enough fuel. -/
def schedule (nodes : List α) (edges : List (α × α)) : List α :=
  (run edges nodes.length (start nodes edges)).order

/-! ## One step -/

theorem order_foldl_release (released : List α) (s : State α) :
    (released.foldl release s).order = s.order := by
  induction released generalizing s with
  | nil => rfl
  | cons first rest ih => exact ih (release s first)

theorem indegree_foldl_release (released : List α) (s : State α) (n : α) :
    (released.foldl release s).indegree n = s.indegree n - released.count n := by
  induction released generalizing s with
  | nil => rfl
  | cons first rest ih =>
    rw [foldl_cons, ih]
    by_cases he : first = n
    · subst he
      simp only [release, Function.update_self, count_cons_self]
      omega
    · simp [release, Function.update_of_ne (Ne.symm he), count_cons_of_ne he]

theorem mem_ready_foldl_release (released : List α) (s : State α) (n : α) :
    n ∈ (released.foldl release s).ready ↔
      n ∈ s.ready ∨ (n ∈ released ∧ s.indegree n ≤ released.count n) := by
  induction released generalizing s with
  | nil => simp
  | cons first tl ih =>
    rw [foldl_cons, ih]
    by_cases he : first = n
    · subst he
      by_cases last : s.indegree first - 1 = 0
      · simp [release, last]
        omega
      · have counted : first ∉ tl → tl.count first = 0 := count_eq_zero.mpr
        simp only [release, last, Function.update_self, count_cons_self, mem_cons_self, if_false]
        by_cases hag : first ∈ tl
        · simp [hag]
        · simp [hag, counted hag]
          omega
    · have hun : (release s first).indegree n = s.indegree n := by
        simp [release, Function.update_of_ne (Ne.symm he)]
      have readyIff : n ∈ (release s first).ready ↔ n ∈ s.ready := by
        simp only [release]
        split
        · simp [he]
        · rfl
      simp [hun, readyIff, count_cons_of_ne he, Ne.symm he]

theorem count_successors (es : List (α × α)) (n tgt : α) : (successors es n).count tgt =
      es.countP fun e => e.2 = tgt ∧ e.1 = n := by
  simp only [successors, count, countP_map, countP_filter]
  congr 1
  funext e
  grind

theorem mem_successors {es : List (α × α)} {n tgt : α} : tgt ∈ successors es n ↔ (n, tgt) ∈ es := by
  simp [successors]

/-! ## States of a run -/

/-- What the released edges and the ready nodes say of the scheduled part. -/
structure Consistent (nodes : List α) (edges : List (α × α)) (state : State α) : Prop where
  distinct : state.order.Nodup
  within : ∀ node ∈ state.order, node ∈ nodes
  indegree : ∀ node, state.indegree node =
    edges.countP fun edge => edge.2 = node ∧ edge.1 ∉ state.order
  ready : ∀ node, node ∈ state.ready ↔ node ∈ nodes ∧ node ∉ state.order ∧
    ∀ source, (source, node) ∈ edges → source ∈ state.order
  -- a scheduled node was ready: its sources stand before it
  forward : ∀ before node after, state.order = before ++ node :: after →
    ∀ source, (source, node) ∈ edges → source ∈ before

theorem consistent_start (ns : List α) (es : List (α × α)) : Consistent ns es (start ns es) where
  distinct := nodup_nil
  within := by simp [start]
  indegree := by simp [start, Kahn.indegree]
  ready := by
    intro n
    have noEdge : Kahn.indegree es n = 0 ↔ ∀ src, (src, n) ∉ es := by
      simp only [Kahn.indegree, countP_eq_zero, decide_eq_true_eq]
      constructor
      · intro none src hm
        exact none _ hm rfl
      · rintro none ⟨src, _⟩ hm rfl
        exact none src hm
    simp [start, noEdge]
  forward := by simp [start]

section

variable {ns : List α} {es : List (α × α)} {s : State α} {node : α}

/-- The edges into `target` still to be released, after and before `node` is scheduled. -/
theorem countP_unreleased (es : List (α × α)) (fresh : node ∉ s.order) (target : α) :
    (es.countP fun e => e.2 = target ∧ e.1 ∉ s.order) =
      (es.countP fun e => e.2 = target ∧ e.1 ∉ s.order ++ [node]) +
        (successors es node).count target := by
  rw [count_successors]
  induction es with
  | nil => rfl
  | cons e es ih =>
    simp only [countP_cons, ih]
    by_cases into : e.2 = target
    · by_cases from_ : e.1 = node
      · have unscheduled : e.1 ∉ s.order := from_ ▸ fresh
        simp [into, from_, fresh]
        omega
      · simp [into, from_]
        omega
    · simp [into]

theorem consistent_take (hi : ∀ edge ∈ es, edge.2 ∈ ns)
    (hcon : Consistent ns es s) (isReady : node ∈ s.ready) :
    Consistent ns es (take es s node) := by
  obtain ⟨isNode, fresh, srcs⟩ := (hcon.ready node).mp isReady
  have order : (take es s node).order = s.order ++ [node] := order_foldl_release _ _
  have unreleased := countP_unreleased es fresh
  constructor
  case distinct =>
    rw [order]
    refine nodup_append.mpr ⟨hcon.distinct, nodup_singleton node, ?_⟩
    intro old hm other last he
    rw [mem_singleton.mp last] at he
    exact fresh (he ▸ hm)
  case within =>
    rw [order]
    intro other hm
    obtain old | rfl := by simpa using hm
    · exact hcon.within other old
    · exact isNode
  case indegree =>
    intro target
    rw [order, take, indegree_foldl_release, hcon.indegree, unreleased]
    omega
  case ready =>
    intro target
    rw [order, take, mem_ready_foldl_release]
    -- the last edge into `target` is released exactly when no other source is left
    have last : s.indegree target ≤ (successors es node).count target ↔
        ∀ source, (source, target) ∈ es → source ∈ s.order ++ [node] := by
      rw [hcon.indegree, unreleased]
      have : ∀ tl cnt : Nat, tl + cnt ≤ cnt ↔ tl = 0 := by omega
      rw [this, countP_eq_zero]
      simp only [decide_eq_true_eq, not_and, not_not]
      constructor
      · intro all source hm
        exact all _ hm rfl
      · rintro all ⟨source, _⟩ hm rfl
        exact all source hm
    simp only [Std.ExtTreeSet.mem_erase, ne_eq, compare_eq_iff_eq, hcon.ready, mem_successors, last]
    constructor
    · rintro (⟨other, isTarget, unscheduled, old⟩ | ⟨hm, all⟩)
      · refine ⟨isTarget, by simp [unscheduled, eq_comm, other], fun source hm => ?_⟩
        exact mem_append_left _ (old source hm)
      · have isTarget := hi _ hm
        refine ⟨isTarget, ?_, all⟩
        simp only [mem_append, mem_singleton, not_or]
        refine ⟨fun scheduled => ?_, fun he => ?_⟩
        · obtain ⟨s1, t, split⟩ := append_of_mem scheduled
          have early := hcon.forward s1 target t split node hm
          exact fresh (split ▸ mem_append_left _ early)
        · subst he
          exact fresh (srcs _ hm)
    · rintro ⟨isTarget, unscheduled, all⟩
      simp only [mem_append, mem_singleton, not_or] at unscheduled
      by_cases successor : (node, target) ∈ es
      · exact .inr ⟨successor, all⟩
      · refine .inl ⟨Ne.symm unscheduled.2, isTarget, unscheduled.1, fun source hm => ?_⟩
        obtain old | rfl := by simpa using all source hm
        · exact old
        · exact absurd hm successor
  case forward =>
    rw [order]
    intro s1 target t split source hm
    rcases eq_nil_or_concat t with rfl | ⟨tl, last, rfl⟩
    · obtain ⟨rfl, he⟩ := append_inj' split rfl
      cases he
      exact srcs source hm
    · have split' : s.order ++ [node] = (s1 ++ target :: tl) ++ [last] := by
        simpa using split
      obtain ⟨old, -⟩ := append_inj' split' rfl
      exact hcon.forward s1 target tl old source hm

theorem mem_ready_of_toList {tl : List α} (hls : s.ready.toList = node :: tl) :
    node ∈ s.ready := by
  rw [← Std.ExtTreeSet.mem_toList, hls]
  exact mem_cons_self

end

/-! ## Schedules -/

section

variable {ns : List α} {es : List (α × α)}

/-- The schedule is `post`, if every edge goes forward in `post` and a node that `post` takes
before a smaller one leads to that smaller one. -/
theorem schedule_eq {post : List α} (all : post.Perm ns) (hne : ns.Nodup)
    (forward : ∀ s1 n after, post = s1 ++ n :: after →
      ∀ src, (src, n) ∈ es → src ∈ s1)
    (hi : ∀ e ∈ es, e.2 ∈ ns)
    (forced : ∀ s1 n after, post = s1 ++ n :: after → ∀ hl ∈ after, hl < n →
        ∃ src, (src, hl) ∈ es ∧ src ∉ s1) :
    schedule ns es = post := by
  have postDistinct : post.Nodup := all.nodup_iff.mpr hne
  -- after `done` steps the run has scheduled the first `done` nodes of `post`
  have steps : ∀ fuel done s, Consistent ns es s → s.order = post.take done →
      done + fuel = ns.length → (run es fuel s).order = post := by
    intro fuel
    induction fuel with
    | zero =>
      intro done s _ order len
      rw [run, order, take_of_length_le]
      rw [all.length_eq]
      omega
    | succ fuel ih =>
      intro done s hcon order len
      have hsh : done < post.length := by
        rw [all.length_eq]
        omega
      have split : post = post.take done ++ post[done] :: post.drop (done + 1) := by
        rw [getElem_cons_drop, take_append_drop]
      have next : post[done] ∈ s.ready := by
        refine (hcon.ready _).mpr ⟨all.mem_iff.mp (getElem_mem hsh), ?_, ?_⟩
        · rw [order]
          intro early
          rw [split] at postDistinct
          exact (nodup_append.mp postDistinct).2.2 _ early _ mem_cons_self rfl
        · rw [order]
          exact forward _ _ _ split
      have smallest : ∀ o ∈ s.ready, post[done] ≤ o := by
        intro o isReady
        obtain ⟨isNode, fresh, srcs⟩ := (hcon.ready o).mp isReady
        by_contra hlt
        have hl : o ∈ post.drop (done + 1) := by
          have hm := all.mem_iff.mpr isNode
          rw [split, ← order] at hm
          rcases mem_append.mp hm with early | late
          · exact absurd early fresh
          · rcases mem_cons.mp late with he | late
            · exact absurd he.ge hlt
            · exact late
        obtain ⟨src, hm, outside⟩ := forced _ _ _ split o hl (lt_of_not_ge hlt)
        exact outside (order ▸ srcs src hm)
      rw [run]
      split
      next hls =>
        rw [← Std.ExtTreeSet.mem_toList, hls] at next
        cases next
      next n rest hls =>
        have isReady := mem_ready_of_toList hls
        have he : n = post[done] := by
          refine le_antisymm ?_ (smallest n isReady)
          rw [← Std.ExtTreeSet.mem_toList, hls] at next
          obtain rfl | late := mem_cons.mp next
          · exact le_rfl
          · have hord := s.ready.ordered_toList
            rw [hls] at hord
            exact (compare_lt_iff_lt.mp ((pairwise_cons.mp hord).1 _ late)).le
        refine ih (done + 1) _ (consistent_take hi hcon isReady) ?_ (by omega)
        rw [take, order_foldl_release, order, he, take_append_getElem]
  exact steps ns.length 0 (start ns es) (consistent_start ns es) rfl (by omega)

end

end Ostadix.Lib.Kahn
