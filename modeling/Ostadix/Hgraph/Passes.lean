import Ostadix.Hgraph.Slots
import Mathlib.Algebra.Order.BigOperators.Group.Finset

/-! # Passes over the edges

An edge asks for updates; what it asks for does not grow weaker when nodes get more facts. So the
rules of the fixed-point iteration apply to both phases. -/

namespace Ostadix.Hgraph

open Value Std.ExtTreeMap

variable {Data : Type}

/-! ## Node maps -/

/-- Related nodes under every number. -/
def Pointwise (related : HNode Data → HNode Data → Prop) (start nodes : Nodes Data) : Prop :=
  ∀ id : NodeId, Option.Rel related start[id]? nodes[id]?

variable {rel : HNode Data → HNode Data → Prop}

theorem Pointwise.refl (reflexive : ∀ n, rel n n) (ns : Nodes Data) :
    Pointwise rel ns ns := by
  intro id
  cases ns[id]? with
  | none => exact .none
  | some n => exact .some (reflexive n)

theorem Pointwise.trans
    (transitive : ∀ {left mid right}, rel left mid → rel mid right → rel left right)
    {st0 mid ns : Nodes Data} (first : Pointwise rel st0 mid)
    (next : Pointwise rel mid ns) : Pointwise rel st0 ns := by
  intro id
  have hh := first id
  have there := next id
  generalize st0[id]? = left, mid[id]? = between, ns[id]? = right at hh there
  cases hh with
  | none =>
    cases there
    exact .none
  | some hh =>
    cases there with
    | some there => exact .some (transitive hh there)

variable {id : NodeId} {start ns : Nodes Data}

theorem Pointwise.mono {rel weaker : HNode Data → HNode Data → Prop}
    (himp : ∀ {left right}, rel left right → weaker left right)
    (pointwise : Pointwise rel start ns) : Pointwise weaker start ns := by
  intro id
  have hh := pointwise id
  generalize start[id]? = left, ns[id]? = right at hh
  cases hh with
  | none => exact .none
  | some hh => exact .some (himp hh)

theorem Pointwise.symm (symmetric : ∀ {left right}, rel left right → rel right left)
    (pointwise : Pointwise rel start ns) : Pointwise rel ns start := by
  intro id
  have hh := pointwise id
  generalize start[id]? = left, ns[id]? = right at hh
  cases hh with
  | none => exact .none
  | some hh => exact .some (symmetric hh)

/-- Relations hold on after one node is replaced by a related one. -/
theorem Pointwise.modify (reflexive : ∀ n, rel n n) {ns : Nodes Data}
    {n t : HNode Data} (hp : ns[id]? = some n) (hh : rel n t) :
    Pointwise rel ns (ns.modify id fun _ => t) := by
  intro o
  rw [getElem?_modify]
  split
  · rename_i he
    obtain rfl := Std.LawfulEqOrd.eq_of_compare he
    rw [hp]
    exact .some hh
  · exact Pointwise.refl reflexive ns o

/-- On the other side: the map that is replaced in stays related to a fixed one. -/
theorem Pointwise.modify_left {ns top : Nodes Data} (pointwise : Pointwise rel ns top)
    {n t upper : HNode Data} (hp : ns[id]? = some n)
    (topPresent : top[id]? = some upper) (hh : rel t upper) :
    Pointwise rel (ns.modify id fun _ => t) top := by
  intro o
  rw [getElem?_modify]
  split
  · rename_i he
    obtain rfl := Std.LawfulEqOrd.eq_of_compare he
    rw [hp, topPresent]
    exact .some hh
  · exact pointwise o

theorem valueNode_eq_some {ns : Nodes Data} {n : HNode Data} :
    valueNode ns id = some n ↔ ns[id]? = some n ∧ n.isValue = true :=
  Option.filter_eq_some_iff

theorem Pointwise.valueNode
    (sameKind : ∀ {left right}, rel left right → left.isValue = right.isValue)
    (pointwise : Pointwise rel start ns) (id : NodeId) :
    Option.Rel rel (valueNode start id) (valueNode ns id) := by
  have hh := pointwise id
  unfold Hgraph.valueNode
  generalize start[id]? = left, ns[id]? = right at hh
  cases hh with
  | none => exact .none
  | @some left right hh =>
    have he := sameKind hh
    cases hiv : right.isValue with
    | false =>
      rw [Option.filter_some_neg (by simp [he, hiv]), Option.filter_some_neg (by simp [hiv])]
      exact .none
    | true =>
      rw [Option.filter_some_pos (by simp [he, hiv]), Option.filter_some_pos (by simp [hiv])]
      exact .some hh

/-- All value nodes satisfy what the solver relies on. -/
def Judged (kinds : Losses) (nodes : Nodes Data) : Prop :=
  ∀ (id : NodeId) (node : HNode Data), nodes[id]? = some node → node.isValue = true →
    node.Judged kinds

theorem Pointwise.antisymm {kinds : Losses} {left right : Nodes Data}
    (below : Pointwise HNode.Below left right) (above : Pointwise HNode.Below right left)
    (leftJudged : Judged kinds left) (rightJudged : Judged kinds right) : left = right := by
  apply ext_getElem?
  intro id
  have hh := below id
  have there := above id
  cases leftNode : left[id]? with
  | none =>
    cases rightNode : right[id]? with
    | none => rfl
    | some =>
      rw [leftNode, rightNode] at hh
      cases hh
  | some n =>
    cases rightNode : right[id]? with
    | none =>
      rw [leftNode, rightNode] at hh
      cases hh
    | some o =>
      rw [leftNode, rightNode] at hh there
      cases hh with
      | some hh =>
        cases there with
        | some there =>
          rw [hh.antisymm there (leftJudged id n leftNode) (rightJudged id o rightNode)]

/-! ## The rank of a graph -/

def rankOf (size : Nat) (nodes : Nodes Data) : Nat :=
  ∑ id ∈ nodes.keys.toFinset, (nodes[id]?.map (·.rank size)).getD 0

theorem rankOf_le (size : Nat) (ns : Nodes Data) :
    rankOf size ns ≤ ns.size * (33 + (2 * size + 3)) := by
  have few : ns.keys.toFinset.card ≤ ns.size :=
    (List.toFinset_card_le _).trans (Nat.le_of_eq length_keys)
  refine (Finset.sum_le_card_nsmul _ _ (33 + (2 * size + 3)) ?_).trans (Nat.mul_le_mul_right _ few)
  intro id _
  cases ns[id]? with
  | none => exact Nat.zero_le _
  | some n => exact n.rank_le size

theorem keys_modify (ns : Nodes Data) (id : NodeId) (f : HNode Data → HNode Data) :
    (ns.modify id f).keys.toFinset = ns.keys.toFinset := by
  ext o
  simp only [List.mem_toFinset, mem_keys, mem_modify]

theorem rankOf_modify_lt {size : Nat} {ns : Nodes Data} {n t : HNode Data}
    (hp : ns[id]? = some n) (lower : t.rank size < n.rank size) :
    rankOf size (ns.modify id fun _ => t) < rankOf size ns := by
  rw [rankOf, rankOf, keys_modify]
  apply Finset.sum_lt_sum
  · intro o _
    rw [getElem?_modify]
    split
    · rename_i he
      obtain rfl := Std.LawfulEqOrd.eq_of_compare he
      rw [hp]
      exact lower.le
    · exact le_refl _
  · refine ⟨id, ?_, ?_⟩
    · rw [List.mem_toFinset, mem_keys]
      exact isSome_getElem?_iff_mem.mp (by rw [hp]; rfl)
    · rw [getElem?_modify, if_pos Std.ReflCmp.compare_self, hp]
      exact lower

/-! ## Updates of a graph -/

/-- What holds of the nodes along a phase that began at `start`. -/
structure Reached (kinds : Losses) (phase : SolvePhase) (start nodes : Nodes Data) : Prop where
  judged : Judged kinds nodes
  below : Pointwise HNode.Below start nodes
  types : phase = .fidelity → Pointwise HNode.SameTypes start nodes

theorem Reached.refl {kinds : Losses} {st0 : Nodes Data} (judged : Judged kinds st0)
    (ph : SolvePhase) : Reached kinds ph st0 st0  where
  judged := judged
  below := .refl HNode.Below.refl st0
  types _ := .refl HNode.SameTypes.refl st0

/-- The update finds its node, if that is a value, settled. -/
def SettledAt (nodes : Nodes Data) (target : NodeId × SlotUpdate Data) : Prop :=
  ∀ node, valueNode nodes target.1 = some node → target.2.Settled node

section Updates

variable {kinds : Losses} {phase : SolvePhase} {s0 ns t top : Nodes Data}
  {tgt : NodeId × SlotUpdate Data} {updates : List (NodeId × SlotUpdate Data)} {chg : Bool}

theorem judged_modify (hj : Judged kinds ns) {r : HNode Data}
    (hh : r.Judged kinds) : Judged kinds (ns.modify id fun _ => r) := by
  intro o n hp hiv
  rw [getElem?_modify] at hp
  split at hp
  · obtain ⟨_, _, rfl⟩ := Option.map_eq_some_iff.mp hp
    exact hh
  · exact hj o n hp hiv

theorem modify_self {n : HNode Data} (hp : ns[id]? = some n) : ns.modify id (fun _ => n) = ns := by
  apply ext_getElem?
  intro o
  rw [getElem?_modify]
  split
  · rename_i he
    obtain rfl := Std.LawfulEqOrd.eq_of_compare he
    rw [hp]
    rfl
  · rfl

variable [DecidableEq Data]

theorem updateValueNode_cases (updated : updateValueNode tgt ns = .ok (t, chg)) :
    (valueNode ns tgt.1 = none ∧ t = ns ∧ chg = false) ∨
      ∃ n r, ns[tgt.1]? = some n ∧ n.isValue = true ∧
        applyUpdate tgt.2 tgt.1 n = .ok (r, chg) ∧
        t = ns.modify tgt.1 fun _ => r := by
  unfold updateValueNode at updated
  cases hf : valueNode ns tgt.1 with
  | none =>
    simp only [hf] at updated
    cases updated
    exact .inl ⟨rfl, rfl, rfl⟩
  | some n =>
    simp only [hf] at updated
    obtain ⟨⟨r, _⟩, hap, ⟨⟩⟩ := Lib.bind_eq_ok.mp updated
    obtain ⟨hp, hiv⟩ := valueNode_eq_some.mp hf
    exact .inr ⟨n, r, hp, hiv, hap, rfl⟩

theorem updateValueNode_reached (hre : Reached kinds phase s0 ns) (hsd : tgt.2.Sound kinds phase)
    (updated : updateValueNode tgt ns = .ok (t, chg)) :
    Reached kinds phase s0 t := by
  obtain ⟨-, rfl, -⟩ | ⟨n, r, hp, hiv, hap, rfl⟩ := updateValueNode_cases updated
  · exact hre
  · have hj := hre.judged _ n hp hiv
    have hh := applyUpdate_updated hiv hj hsd hap
    refine ⟨judged_modify hre.judged hh.judged, ?_, ?_⟩
    · exact hre.below.trans (fun first next => first.trans next) (.modify HNode.Below.refl hp hh.below)
    · rintro rfl
      exact (hre.types rfl).trans (fun first next => first.trans next)
        (.modify HNode.SameTypes.refl hp (applyUpdate_sameTypes hj hsd hap))

theorem updateValueNode_idle (hj : Judged kinds ns) (hsd : tgt.2.Sound kinds phase)
    (updated : updateValueNode tgt ns = .ok (t, false)) :
    t = ns ∧ SettledAt ns tgt := by
  obtain ⟨missing, rfl, -⟩ | ⟨n, r, hp, hiv, hap, rfl⟩ := updateValueNode_cases updated
  · exact ⟨rfl, fun n hf => nomatch missing.symm.trans hf⟩
  · have hh := applyUpdate_updated hiv (hj _ n hp hiv) hsd hap
    obtain ⟨rfl, hset⟩ := hh.idle rfl
    refine ⟨modify_self hp, ?_⟩
    intro o hf
    obtain rfl := Option.some_inj.mp (hp.symm.trans (valueNode_eq_some.mp hf).1)
    exact hset

theorem updateValueNode_descends (hsd : ∀ tgt ∈ updates, tgt.2.Sound kinds phase) :
    Lib.Descends updateValueNode updates (Reached kinds phase s0) (rankOf kinds.card) where
  keeps tgt hm _ _ _ hre updated := updateValueNode_reached hre (hsd tgt hm) updated
  idle tgt hm _ _ hre updated :=
    (updateValueNode_idle hre.judged (hsd tgt hm) updated).1
  lowers tgt hm ns t hre updated := by
    obtain ⟨-, -, ⟨⟩⟩ | ⟨n, r, hp, hiv, hap, rfl⟩ := updateValueNode_cases updated
    have hh := applyUpdate_updated hiv (hre.judged _ n hp hiv) (hsd tgt hm) hap
    exact rankOf_modify_lt hp (hh.lowers rfl)

theorem updateValueNode_bounded (hsd : ∀ tgt ∈ updates, tgt.2.Sound kinds phase)
    (hset : ∀ tgt ∈ updates, SettledAt top tgt) :
    Lib.Bounded updateValueNode (Reached kinds phase s0) (Pointwise HNode.Below) updates top := by
  intro tgt hm ns hre below
  unfold updateValueNode
  cases hf : valueNode ns tgt.1 with
  | none => exact ⟨ns, false, rfl, below⟩
  | some n =>
    obtain ⟨hp, hiv⟩ := valueNode_eq_some.mp hf
    have rel := below.valueNode (fun hh => hh.isValue) tgt.1
    rw [hf] at rel
    generalize topFound : valueNode top tgt.1 = upper at rel
    cases rel with
    | @some _ upper hh =>
      obtain ⟨r, chg, hap, resultBelow⟩ : ∃ r chg,
          applyUpdate tgt.2 tgt.1 n = .ok (r, chg) ∧ r.Below upper :=
        applyUpdate_below hiv (hre.judged _ n hp hiv) (hsd tgt hm)
          (hset tgt hm upper topFound) hh
      refine ⟨_, chg, by simp only [hap, Lib.ok_bind]; rfl, ?_⟩
      exact below.modify_left hp (valueNode_eq_some.mp topFound).1 resultBelow

/-- Updates change nothing exactly if all their nodes are settled. -/
theorem applyUpdates_idle_iff (hj : Judged kinds ns)
    (hsd : ∀ tgt ∈ updates, tgt.2.Sound kinds phase) :
    applyUpdates updates ns = .ok (ns, false) ↔ ∀ tgt ∈ updates, SettledAt ns tgt := by
  constructor
  · intro idle tgt hm
    have hcl := ((updateValueNode_descends hsd).closed_of_pass (.refl hj phase) idle).2
    exact (updateValueNode_idle hj (hsd tgt hm) (hcl tgt hm)).2
  · intro hset
    apply Lib.Closed.pass
    intro tgt hm
    unfold updateValueNode
    cases hf : valueNode ns tgt.1 with
    | none => rfl
    | some n =>
      obtain ⟨hp, hiv⟩ := valueNode_eq_some.mp hf
      have hap : applyUpdate tgt.2 tgt.1 n = .ok (n, false) :=
        applyUpdate_of_settled hiv (hj _ n hp hiv) (hsd tgt hm) (hset tgt hm n hf)
      simp only [hap, Lib.ok_bind, modify_self hp]
      rfl

end Updates

end Ostadix.Hgraph
