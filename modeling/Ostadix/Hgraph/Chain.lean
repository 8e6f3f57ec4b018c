import Ostadix.Hgraph.Solved
import Mathlib.Data.List.Sort

/-! # Chains

A fact that enters at the first node of a chain of sums reaches the last in one pass if the edges
are numbered along the chain, and moves one node a pass if they are numbered against it. -/

namespace Ostadix.Hgraph

open Value List Nat

/-! ## Tables -/

/-- The entries of a function under the numbers below a bound. -/
def table {α : Type} (entry : Nat → α) (bound : Nat) : Std.ExtTreeMap Nat α :=
  .ofList ((List.range bound).map fun number => (number, entry number))

section Tables

variable {α : Type} {e : Nat → α} {bd : Nat}

theorem entries_distinct : ((List.range bd).map fun num => (num, e num)).Pairwise
    fun first next => ¬compare first.1 next.1 = .eq := by
  rw [pairwise_map]
  refine nodup_range.imp fun hdf he => ?_
  exact hdf (Std.LawfulEqOrd.eq_of_compare he)

theorem getElem?_table {num : Nat} {v : α} :
    (table e bd)[num]? = some v ↔ num < bd ∧ e num = v := by
  by_cases hsm : num < bd
  · rw [table, Std.ExtTreeMap.getElem?_ofList_of_mem Std.ReflCmp.compare_self entries_distinct
      (mem_map.mpr ⟨num, mem_range.mpr hsm, rfl⟩)]
    simp [hsm]
  · rw [table, Std.ExtTreeMap.getElem?_ofList_of_contains_eq_false (by simpa using hsm)]
    simp [hsm]

theorem toList_table : (table e bd).toList = (List.range bd).map fun num => (num, e num) := by
  refine List.Pairwise.eq_of_mem_iff (r := Order.Preimage Prod.fst (· < ·)) ?_ ?_ ?_
  · exact Std.ExtTreeMap.ordered_keys_toList.imp Nat.compare_eq_lt.mp
  · exact pairwise_map.mpr pairwise_lt_range
  · rintro ⟨num, _⟩
    rw [Std.ExtTreeMap.mem_toList_iff_getElem?_eq_some, getElem?_table]
    simp

end Tables

/-! ## The chain -/

/-- A node that the fact has reached, or not. -/
def chainNode (reached : Bool) : HNode Unit where
  kind := .value
  domain := if reached then 0 else 1
  rep := 0
  value := none
  fidelityAssessment := none
  fidelity := none

/-- The nodes of a chain with `length` edges after the fact has gone through `count` of them. -/
def chainNodes (length count : Nat) : Nodes Unit :=
  table (fun id => chainNode (id ≤ count)) (length + 1)

def chainEdge (id : EdgeId) (source : NodeId) : HEdge where
  id
  kind := .dataFlow
  ports := [⟨source, .input⟩, ⟨source + 1, .output⟩]

/-- The chain with an edge under every number. -/
def chain (length : Nat) (source : EdgeId → NodeId) : HGraph Unit where
  nodes := chainNodes length 0
  edges := table (fun id => chainEdge id (source id)) length

def sumEdge (id : EdgeId) (source : NodeId) : HEdge :=
  { chainEdge id source with kind := .additive }

/-- The chain with sums in place of the data flow. -/
def sums (length : Nat) (source : EdgeId → NodeId) : HGraph Unit where
  nodes := chainNodes length 0
  edges := table (fun id => sumEdge id (source id)) length

section Chain

variable {len count : Nat} {registry : BackendRegistry} {src : EdgeId → NodeId}

theorem valueNode_chain {n : NodeId} (hsm : n ≤ len) :
    valueNode (chainNodes len count) n = some (chainNode (n ≤ count)) := by
  rw [valueNode, chainNodes, getElem?_table.mpr ⟨lt_succ_of_le hsm, rfl⟩]
  rfl

theorem judged_chain : Judged generated (chainNodes len count) := by
  intro id n hp _
  obtain ⟨_, rfl⟩ := getElem?_table.mp hp
  exact ⟨nofun, rfl⟩

theorem modify_chain (hsm : count < len) :
    (chainNodes len count).modify (count + 1) (fun _ => chainNode true) =
      chainNodes len (count + 1) := by
  apply Std.ExtTreeMap.ext_getElem?
  intro o
  rw [Std.ExtTreeMap.getElem?_modify]
  split
  · rename_i he
    obtain rfl := Std.LawfulEqOrd.eq_of_compare he
    rw [chainNodes, getElem?_table.mpr ⟨succ_lt_succ hsm, rfl⟩, chainNodes,
      getElem?_table.mpr ⟨succ_lt_succ hsm, rfl⟩]
    simp
  · rename_i hdf
    have apart : o ≠ count + 1 := fun he => hdf (he ▸ Std.ReflCmp.compare_self)
    have he : (o ≤ count) = (o ≤ count + 1) := by
      rw [eq_iff_iff]
      exact ⟨le_succ_of_le, fun le => (le_or_eq_of_le_succ le).resolve_right apart⟩
    apply Option.ext
    intro n
    simp only [chainNodes, getElem?_table, he]

/-- The mask of an edge changes a node only if the fact comes to it. -/
theorem updateValueNode_chain {n origin : NodeId} (hsm : n ≤ len) (near : n ≤ origin + 1) :
    updateValueNode (n, .domain (chainNode (origin ≤ count)).domain) (chainNodes len count) =
      .ok (chainNodes len (if origin ≤ count ∧ n = count + 1 then count + 1 else count),
        decide (origin ≤ count ∧ n = count + 1)) := by
  have read : valueNode (chainNodes len count) n = _ := valueNode_chain hsm
  simp only [updateValueNode, read]
  by_cases moves : origin ≤ count ∧ n = count + 1
  · obtain ⟨hre, rfl⟩ := moves
    simp only [Nat.not_succ_le_self, hre, decide_false, and_self, if_true, decide_true,
      ← modify_chain hsm]
    rfl
  · have masked : (chainNode (n ≤ count)).domain &&& (chainNode (origin ≤ count)).domain =
        (chainNode (n ≤ count)).domain := by
      by_cases hre : origin ≤ count
      · have behind := (le_or_eq_of_le_succ (near.trans (succ_le_succ hre))).resolve_right
          fun he => moves ⟨hre, he⟩
        simp [chainNode, behind]
      · rw [decide_eq_false hre]
        cases decide (n ≤ count) <;> rfl
    simp only [if_neg moves, decide_eq_false moves, applyUpdate, masked, updateSlot, if_true]
    exact congrArg (fun ns => Except.ok (ns, false)) (modify_self (valueNode_eq_some.mp read).1)

theorem typeUpdates_sums (id : EdgeId) {n : NodeId} (hsm : n < len) :
    typeUpdates (chainNodes len count) (sumEdge id n) =
      toNodes [n, n + 1] (.domain (chainNode (n ≤ count)).domain) := by
  have meet : numericIntersection (chainNodes len count) (chainEdge id n) =
      (chainNode (n ≤ count)).domain := by
    simp only [numericIntersection, chainEdge, filterMap_cons, filterMap_nil,
      valueNode_chain hsm.le, valueNode_chain (succ_le_of_lt hsm)]
    by_cases hh : n ≤ count
    · simp [chainNode, hh]
    · have there : ¬n + 1 ≤ count := fun le => hh (le_of_succ_le le)
      simp [chainNode, hh, there]
      decide
  exact congrArg (fun mask => toNodes [n, n + 1] (.domain mask)) meet

/-- How far the fact is after an edge. -/
def advance (count : Nat) (node : NodeId) : Nat :=
  if node = count then count + 1 else count

theorem propagate_sums (id : EdgeId) {n : NodeId} (hsm : n < len) :
    propagate registry .typeAndValue (sumEdge id n) (chainNodes len count) =
      .ok (chainNodes len (advance count n), decide (n = count)) := by
  show applyUpdates (typeUpdates _ _) _ = _
  rw [typeUpdates_sums id hsm]
  have hh : updateValueNode (n, _) (chainNodes len count) = _ :=
    updateValueNode_chain hsm.le (le_succ n)
  have there : updateValueNode (n + 1, _) (chainNodes len count) = _ :=
    updateValueNode_chain (succ_le_of_lt hsm) le_rfl
  have idle : ¬(n ≤ count ∧ n = count + 1) := by
    rintro ⟨behind, rfl⟩
    exact Nat.not_succ_le_self _ behind
  have moves : (n ≤ count ∧ n + 1 = count + 1) = (n = count) := by
    simpa using fun he => Nat.le_of_eq he
  simp only [if_neg idle, decide_eq_false idle] at hh
  simp only [moves] at there
  exact Lib.pass_cons_eq_ok.mpr ⟨_, _, _, hh, Lib.pass_cons_eq_ok.mpr
    ⟨_, _, _, there, rfl, rfl⟩, by simp⟩

theorem le_foldl_advance (ns : List NodeId) (cnt : Nat) : cnt ≤ ns.foldl advance cnt := by
  induction ns generalizing cnt with
  | nil => exact le_refl _
  | cons n ns ih =>
    refine le_trans ?_ (ih (advance cnt n))
    unfold advance
    split <;> omega

/-- Edges of the chain lead from one node of it to the next. -/
def Sources (length : Nat) (source : EdgeId → NodeId) : Prop :=
  ∀ id < length, source id < length

theorem pass_edges {ids : List EdgeId} (hsm : ∀ id ∈ ids, src id < len) :
    Lib.pass (propagate registry .typeAndValue) (ids.map fun id => sumEdge id (src id))
      (chainNodes len count) =
      .ok (chainNodes len ((ids.map src).foldl advance count),
        decide (count < (ids.map src).foldl advance count)) := by
  induction ids generalizing count with
  | nil => simp [Lib.pass]
  | cons id ids ih =>
    obtain ⟨hh, hl⟩ := forall_mem_cons.mp hsm
    refine Lib.pass_cons_eq_ok.mpr ⟨_, _, _, propagate_sums id hh, ih hl, ?_⟩
    simp only [map_cons, foldl_cons]
    have hg := le_foldl_advance (ids.map src) (advance count (src id))
    by_cases he : src id = count
    · have step : advance count (src id) = count + 1 := if_pos he
      rw [step] at hg ⊢
      simp [he, lt_of_succ_le hg]
    · have step : advance count (src id) = count := if_neg he
      rw [step]
      simp [he]

/-! ## Solving the chain -/

theorem steps_sums : (sums len src).steps = (List.range len).map fun id => sumEdge id (src id) := by
  simp only [HGraph.steps, HGraph.edgeList, sums, toList_table, map_map]
  rfl

theorem Sources.pass (srcs : Sources len src) :
    Lib.pass (propagate registry .typeAndValue) (sums len src).steps (chainNodes len count) =
      .ok (chainNodes len (((List.range len).map src).foldl advance count),
        decide (count < ((List.range len).map src).foldl advance count)) := by
  rw [steps_sums]
  exact pass_edges fun id hm => srcs id (mem_range.mp hm)

theorem hydrate_chain : hydrateFidelityAssessments (chainNodes len count) = chainNodes len count :=
  hydrate_of_judged judged_chain

theorem preflight_sums : validateFidelityAssessments (sums len src).nodes = .ok () ∧
    validateDataflowConstraints (sums len src).nodes (sums len src).edgeList = .ok () := by
  have additive {e : EdgeId × HEdge} (hm : e ∈ (sums len src).edgeList) : e.2.kind ≠ .dataFlow := by
    obtain ⟨_, sh⟩ := getElem?_table.mp (mem_edgeList.mp hm)
    rw [← sh]
    nofun
  rw [validateFidelityAssessments_eq_ok, validateDataflowConstraints_eq_ok]
  refine ⟨?_, fun e hm kind => absurd kind (additive hm), ?_⟩
  · intro id n hp
    obtain ⟨_, rfl⟩ := getElem?_table.mp hp
    rfl
  · intro left hm _ _ n hi
    rw [destinations, if_neg (additive hm)] at hi
    cases hi

theorem closed_fidelity_sums :
    Lib.Closed (propagate registry .fidelity) (sums len src).steps (chainNodes len count) := by
  intro e hm
  rw [steps_sums] at hm
  obtain ⟨_, -, rfl⟩ := mem_map.mp hm
  rfl

/-! ### Along the chain -/

theorem foldl_advance_range (len : Nat) : (List.range len).foldl advance 0 = len := by
  induction len with
  | zero => rfl
  | succ len ih =>
    rw [range_succ, foldl_append, ih]
    exact if_pos rfl

theorem foldl_advance_done {ns : List NodeId} (behind : ∀ n ∈ ns, n < count) :
    ns.foldl advance count = count := by
  induction ns with
  | nil => rfl
  | cons n ns ih =>
    obtain ⟨hh, hl⟩ := forall_mem_cons.mp behind
    rw [foldl_cons, show advance count n = count from if_neg (Nat.ne_of_lt hh), ih hl]

theorem three_le_budget (len : Nat) (src : EdgeId → NodeId) :
    3 ≤ derivedIterationBudget (sums len src) := by
  have size : (sums len src).nodes.size = len + 1 := by
    simp only [sums, chainNodes, table, Std.ExtTreeMap.size_ofList entries_distinct, length_map,
      length_range]
  have height : 1 ≤ perNodeHeight (sums len src).nodes := by
    simp only [perNodeHeight, saturate]
    omega
  have product : 1 ≤ (len + 1) * perNodeHeight (sums len src).nodes :=
    Nat.mul_pos (Nat.succ_pos _) height
  rw [derivedIterationBudget, size]
  simp only [saturate]
  omega

/-- Numbered along the chain, one pass brings the fact to its end. -/
theorem solveTypes_along (registry : BackendRegistry) (hpos : 0 < len) :
    ∃ solved : HGraph Unit, solveTypes registry (sums len id) = .ok solved := by
  have srcs : Sources len id := fun _ hsm => hsm
  obtain ⟨more, hen⟩ : ∃ more,
      min (derivedIterationBudget (sums len id)) maxSolvePasses = more + 1 + 2 :=
    Nat.exists_eq_add_of_le' (le_min (three_le_budget len id) (by decide))
  have stays : Lib.pass (propagate registry .typeAndValue) (sums len id).steps
      (chainNodes len len) = .ok (chainNodes len len, false) := by
    rw [srcs.pass, map_id, foldl_advance_done fun n hm => mem_range.mp hm]
    simp
  refine ⟨_, solveTypesWithLimits_eq_ok.mpr ⟨chainNodes len len, chainNodes len len,
    more + 1, ⟨preflight_sums.1, preflight_sums.2, ?_, _, closed_fidelity_sums.settle _ _⟩, rfl⟩⟩
  rw [hen, show (sums len id).nodes = chainNodes len 0 from rfl, hydrate_chain, Lib.settle,
    srcs.pass, map_id, foldl_advance_range]
  simp only [hpos, decide_true, Lib.ok_bind, if_true, Lib.settle, stays]
  rfl

/-! ### Against the chain -/

/-- The source of an edge if the last edge has the lowest number. -/
def backwards (length : Nat) (id : EdgeId) : NodeId :=
  length - 1 - id

theorem sources_backwards : Sources len (backwards len) := by
  intro id hsm
  exact lt_of_le_of_lt (sub_le _ _) (sub_lt (zero_lt_of_lt hsm) one_pos)

theorem backwards_backwards {id : EdgeId} (hsm : id < len) :
    backwards len (backwards len id) = id :=
  Nat.sub_sub_self (Nat.le_sub_one_of_lt hsm)

/-- Each pass brings the fact one node further. -/
theorem foldl_advance_backwards (hsm : count < len) :
    ((List.range len).map (backwards len)).foldl advance count = count + 1 := by
  have reversed : (List.range len).map (backwards len) = (List.range len).reverse := by
    symm
    rw [range_eq_range', reverse_range', ← range_eq_range', zero_add]
    rfl
  rw [reversed]
  clear reversed
  induction len with
  | zero => cases hsm
  | succ len ih =>
    rw [range_succ, reverse_append, reverse_singleton, singleton_append, foldl_cons]
    by_cases last : len = count
    · rw [show advance count len = count + 1 from if_pos last]
      apply foldl_advance_done
      intro n hm
      rw [← last]
      exact lt_succ_of_lt (mem_range.mp (mem_reverse.mp hm))
    · rw [show advance count len = count from if_neg last]
      exact ih (by omega)

theorem settle_backwards (registry : BackendRegistry) {cap : Nat} (err : SolveError Unit)
    (long : count + cap ≤ len) :
    Lib.settle err (propagate registry .typeAndValue) (sums len (backwards len)).steps
      cap (chainNodes len count) = .error err := by
  induction cap generalizing count with
  | zero => rfl
  | succ cap ih =>
    rw [Lib.settle, sources_backwards.pass, foldl_advance_backwards (by omega)]
    simp only [lt_succ_self, decide_true, Lib.ok_bind, if_true]
    exact ih (by omega)

/-- Numbered against it, a chain as long as the ceiling on passes is not solved. -/
theorem solveTypes_backwards (long : maxSolvePasses ≤ len) : ∃ diagnostics,
    solveTypes registry (sums len (backwards len)) = .error (.budgetExhausted diagnostics) := by
  obtain ⟨assessments, dataflow⟩ := @preflight_sums len (backwards len)
  let hb := derivedIterationBudget (sums len (backwards len))
  have hsh : 0 + min hb maxSolvePasses ≤ len :=
    (zero_add _).trans_le ((min_le_right _ _).trans long)
  have hfl := settle_backwards registry (budgetExhausted hb (min hb maxSolvePasses)) hsh
  rw [← hydrate_chain] at hfl
  have ended : solveTypes registry (sums len (backwards len)) =
      .error (budgetExhausted hb (min hb maxSolvePasses)) := by
    unfold solveTypes solveTypesWithLimits
    simp only [assessments, dataflow, Lib.ok_bind]
    exact congrArg (· >>= _) hfl
  exact ⟨_, ended⟩

theorem renumbered_backwards (len : Nat) : Renumbered (sums len id) (sums len (backwards len)) := by
  refine ⟨rfl, backwards len, ?_, ?_⟩
  · have hsm {num : EdgeId} (hm : num ∈ (sums len id).edges) : num < len := by
      obtain ⟨e, hp⟩ := Option.isSome_iff_exists.mp (Std.ExtTreeMap.isSome_getElem?_iff_mem.mpr hm)
      exact (getElem?_table.mp hp).1
    intro first firstMember next nextMember same
    rw [← backwards_backwards (hsm firstMember), same, backwards_backwards (hsm nextMember)]
  · intro num e
    simp only [sums, getElem?_table]
    constructor
    · rintro ⟨hsm, rfl⟩
      exact ⟨backwards len num, _, ⟨sources_backwards num hsm, rfl⟩, backwards_backwards hsm, rfl⟩
    · rintro ⟨old, _, ⟨hsm, rfl⟩, rfl, rfl⟩
      rw [backwards_backwards hsm]
      exact ⟨sources_backwards old hsm, rfl⟩

end Chain

/-- A chain of a million edges is solved in one numbering and not in the other. -/
theorem numbering_decides_solved : ∃ (registry : BackendRegistry) (graph other solved : HGraph Unit),
    Renumbered graph other ∧ solveTypes registry graph = .ok solved ∧
      ∃ diagnostics, solveTypes registry other = .error (.budgetExhausted diagnostics) := by
  obtain ⟨solved, ran⟩ := @solveTypes_along maxSolvePasses [] (by decide)
  exact ⟨[], _, _, solved, renumbered_backwards maxSolvePasses, ran, solveTypes_backwards (le_refl _)⟩

/-- Two nodes with one edge. -/
theorem short_chain_settles : ∃ solved : HGraph Unit,
    solveTypes [] (chain 1 id) = .ok solved ∧ solveTypes [] solved = .ok solved := by
  have accepted : (solveTypes [] (chain 1 id)).isOk = true := by decide +kernel
  cases ran : solveTypes [] (chain 1 id) with
  | error failure =>
    rw [ran] at accepted
    cases accepted
  | ok solved => exact ⟨solved, rfl, ((solveTypes_settles [] (chain 1 id)).2 solved ran).2.1⟩

/-- The result itself is settled above the start. -/
theorem short_sums_least : ∃ solved : HGraph Unit, solveTypes [] (sums 1 id) = .ok solved ∧
    ∃ typed, Pointwise HNode.SameTypes typed solved.nodes ∧
      Pointwise HNode.Below typed solved.nodes := by
  obtain ⟨_, ran⟩ := @solveTypes_along 1 [] (by decide)
  obtain ⟨_, _, _, run, rfl⟩ := solveTypesWithLimits_eq_ok.mp ran
  obtain ⟨typed, same, below, -⟩ :=
    solveTypes_least ran run.judged_reached.1.judged run.below run.closed
  exact ⟨_, ran, typed, same, below⟩

end Ostadix.Hgraph
