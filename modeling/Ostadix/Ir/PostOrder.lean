import Mathlib.Data.List.Range
import Ostadix.Ir.ScopeSources

/-! # The order of a canonical plan

The plan of a program validates, its nodes are the instructions in preorder, and its topological
order is the left-to-right postorder of the program. The numbers of a traversal are compared in
two ways: every edge leads from an earlier to a later node of the postorder, and a node that stands
after a larger one is an ancestor of it, so it waits for a structural edge. -/

namespace Ostadix.Ir

open Lib List

/-! ## Postorder of a forest -/

mutual

/-- The ids of an instruction tree in postorder, when its root has the id `start` and ids are given
in preorder. -/
def postOrderNode (start : Nat) : OIr → List Nat
  | .text _ | .load _ => [start]
  | .store _ expr => postOrderNode (start + 1) expr ++ [start]
  | .invoke _ _ args | .nativeLeaf _ args => postOrderNodes (start + 1) args ++ [start]
  | .exec _ _ _ backend body =>
      (if backend.isQuote then [] else postOrderNodes (start + 1) body) ++ [start]

def postOrderNodes (start : Nat) : List OIr → List Nat
  | [] => []
  | node :: nodes =>
      postOrderNode start node ++ postOrderNodes (start + (flattenNodeForPlan node).length) nodes

end

def OIrProgram.postOrder (program : OIrProgram) : List Nat :=
  postOrderNodes 0 program.nodes

/-! ## Operands -/

/-- The planned operands of an instruction. -/
def OIr.operands : OIr → List OIr
  | .text _ | .load _ => []
  | .store _ expr => [expr]
  | .invoke _ _ args | .nativeLeaf _ args => args
  | .exec _ _ _ backend body => if backend.isQuote then [] else body

theorem flattenNode_eq (n : OIr) : flattenNodeForPlan n = n :: flattenNodesForPlan n.operands := by
  cases n with
  | exec =>
    simp only [flattenNodeForPlan, OIr.operands]
    split
    · rfl
    · rfl
  | _ => simp [flattenNodeForPlan, OIr.operands, flattenNodesForPlan]

theorem postOrderNode_eq (st0 : Nat) (n : OIr) :
    postOrderNode st0 n = postOrderNodes (st0 + 1) n.operands ++ [st0] := by
  cases n with
  | exec =>
    simp only [postOrderNode, OIr.operands]
    split
    · rfl
    · rfl
  | _ => simp [postOrderNode, OIr.operands, postOrderNodes]

theorem sizeOf_operand {n op : OIr} (hm : op ∈ n.operands) : sizeOf op < sizeOf n := by
  cases n with
  | text | load => cases hm
  | store =>
    rw [mem_singleton.mp hm]
    simp only [OIr.store.sizeOf_spec]
    omega
  | invoke =>
    have hlt := sizeOf_lt_of_mem hm
    simp only [OIr.operands] at hlt
    simp only [OIr.invoke.sizeOf_spec]
    omega
  | nativeLeaf =>
    have hlt := sizeOf_lt_of_mem hm
    simp only [OIr.operands] at hlt
    simp only [OIr.nativeLeaf.sizeOf_spec]
    omega
  | exec =>
    simp only [OIr.operands] at hm
    split at hm
    · cases hm
    · have hlt := sizeOf_lt_of_mem hm
      simp only [OIr.exec.sizeOf_spec]
      omega

/-- Induction over a forest: a node whose operands have the property has it too. -/
theorem forest_induction {property : List OIr → Prop} (nil : property [])
    (cons : ∀ n ns, property n.operands → property ns → property (n :: ns))
    (ns : List OIr) : property ns := by
  have ofNode : ∀ size n, sizeOf n < size → property (OIr.operands n) := by
    intro size
    induction size with
    | zero => exact fun n hsm => absurd hsm (Nat.not_lt_zero _)
    | succ size ih =>
      intro n hsm
      have hlt : ∀ op ∈ n.operands, property op.operands := by
        intro op hm
        have := sizeOf_operand hm
        exact ih op (by omega)
      generalize n.operands = ops at hlt
      induction ops with
      | nil => exact nil
      | cons first tl ihRest =>
        exact cons first tl (hlt first mem_cons_self) (ihRest (forall_mem_cons.mp hlt).2)
  induction ns with
  | nil => exact nil
  | cons n ns ih => exact cons n ns (ofNode (sizeOf n + 1) n (by omega)) ih

theorem postOrder_perm (ns : List OIr) (st0 : Nat) :
    (postOrderNodes st0 ns).Perm (List.range' st0 (flattenNodesForPlan ns).length) := by
  induction ns using forest_induction generalizing st0 with
  | nil => exact .nil
  | cons n ns ihOperands ihNodes =>
    rw [postOrderNodes, postOrderNode_eq, flattenNodesForPlan, length_append,
      ← range'_append_1, flattenNode_eq]
    refine .append ?_ (by simpa using ihNodes _)
    rw [length_cons, range'_succ]
    exact (perm_append_singleton _ _).trans ((ihOperands (st0 + 1)).cons st0)

variable {done : List Nat} {scopes : List Scope} {nodes : List OIr} {added : PlanEdge → Prop}

theorem mem_postOrder {st0 id : Nat} : id ∈ postOrderNodes st0 nodes ↔
      st0 ≤ id ∧ id < st0 + (flattenNodesForPlan nodes).length := by
  rw [(postOrder_perm nodes st0).mem_iff, mem_range'_1]

theorem postOrder_nodup (ns : List OIr) (st0 : Nat) : (postOrderNodes st0 ns).Nodup :=
  (postOrder_perm ns st0).nodup_iff.mpr nodup_range'

/-! ## Structural edges -/

/-- The pairs of a child and its parent in a forest below `parent`. -/
inductive Child : Option Nat → Nat → List OIr → Nat → Nat → Prop
  | root {parent start node nodes} : Child (some parent) start (node :: nodes) start parent
  | inside {parent start node nodes child above} :
      Child (some start) (start + 1) node.operands child above →
      Child parent start (node :: nodes) child above
  | behind {parent start node nodes child above} :
      Child parent (start + (flattenNodeForPlan node).length) nodes child above →
      Child parent start (node :: nodes) child above

theorem Child.mem {par : Option Nat} {st0 child above : Nat}
    (pair : Child par st0 nodes child above) : child ∈ postOrderNodes st0 nodes := by
  rw [mem_postOrder]
  induction pair with
  | root => simp [flattenNodesForPlan, flattenNode_eq]
  | inside =>
    simp only [flattenNodesForPlan, flattenNode_eq, length_append, length_cons]
    omega
  | behind =>
    simp only [flattenNodesForPlan, length_append]
    omega

/-- The last node of a nonempty forest in postorder is a root. -/
theorem last_root (hnil : nodes ≠ []) (st0 par : Nat) :
    ∃ s last, postOrderNodes st0 nodes = s ++ [last] ∧
      Child (some par) st0 nodes last par := by
  induction nodes generalizing st0 with
  | nil => exact absurd rfl hnil
  | cons n nodes ih =>
    cases nodes with
    | nil =>
      refine ⟨postOrderNodes (st0 + 1) n.operands, st0, ?_, .root⟩
      simp [postOrderNodes, postOrderNode_eq]
    | cons =>
      obtain ⟨s, last, order, hch⟩ := ih (cons_ne_nil _ _) (st0 + (flattenNodeForPlan n).length)
      refine ⟨postOrderNode st0 n ++ s, last, ?_, .behind hch⟩
      rw [postOrderNodes, order, append_assoc]

theorem split_append {α : Type} {left right s t : List α} {n : α}
    (split : left ++ right = s ++ n :: t) :
    (∃ tl, left = s ++ n :: tl ∧ t = tl ++ right) ∨
      ∃ tl, s = left ++ tl ∧ right = tl ++ n :: t := by
  rcases append_eq_append_iff.mp split with ⟨tl, before', right'⟩ | ⟨tl, left', after'⟩
  · exact .inr ⟨tl, before', right'⟩
  · cases tl with
    | nil => exact .inr ⟨[], by simpa using left'.symm, by simpa using after'.symm⟩
    | cons first tl =>
      obtain ⟨rfl, rfl⟩ := List.cons.inj after'
      exact .inl ⟨tl, left', rfl⟩

/-- A node that the postorder puts behind a larger one has a child that is not yet done. -/
theorem waits_for_child (ns : List OIr) (par : Option Nat) (st0 : Nat) {s t : List Nat} {n hl : Nat}
    (split : postOrderNodes st0 ns = s ++ n :: t) (behind : hl ∈ t) (hlt : hl < n) :
    ∃ child, Child par st0 ns child hl ∧ child ∉ s := by
  induction ns using forest_induction generalizing par st0 s t with
  | nil => simp [postOrderNodes] at split
  | cons first tl ihOperands ihRest =>
    have hne := postOrder_nodup (first :: tl) st0
    rw [postOrderNodes, postOrderNode_eq] at split hne
    rcases split_append split with ⟨tail, inFirst, rfl⟩ | ⟨tail, rfl, inRest⟩
    · rcases split_append inFirst with ⟨tail', inOperands, rfl⟩ | ⟨tail', rfl, isFirst⟩
      · have hi : n ∈ postOrderNodes (st0 + 1) first.operands := by
          simp [inOperands]
        rw [mem_postOrder] at hi
        simp only [append_assoc, mem_append, mem_singleton] at behind
        rcases behind with sibling | rfl | inRest
        · obtain ⟨child, hch, outside⟩ := ihOperands (some st0) (st0 + 1) inOperands sibling
          exact ⟨child, .inside hch, outside⟩
        · -- the root waits for its last operand
          have hnil : first.operands ≠ [] := by
            intro none
            simp [none, postOrderNodes] at inOperands
          obtain ⟨_, last, order, hch⟩ := last_root hnil (hl + 1) hl
          refine ⟨last, .inside hch, fun early => ?_⟩
          have operandsDistinct := postOrder_nodup first.operands (hl + 1)
          rw [inOperands] at operandsDistinct
          have late : last ∈ n :: tail' := by
            have ends : (s ++ n :: tail').getLast? = some last := by
              rw [← inOperands, order, getLast?_append_of_ne_nil _ (by simp)]
              rfl
            rw [getLast?_append_of_ne_nil _ (by simp)] at ends
            exact mem_of_getLast? ends
          exact (nodup_append.mp operandsDistinct).2.2 _ early _ late rfl
        · rw [mem_postOrder, flattenNode_eq, length_cons] at inRest
          omega
      · cases tail' with
        | nil =>
          obtain ⟨rfl, rfl⟩ := List.cons.inj isFirst
          rw [nil_append, mem_postOrder] at behind
          omega
        | cons => simp at isFirst
    · obtain ⟨child, hch, outside⟩ := ihRest par _ inRest behind
      refine ⟨child, .behind hch, fun early => ?_⟩
      rcases mem_append.mp early with inFirst | early
      · exact (nodup_append.mp hne).2.2 _ inFirst _ hch.mem rfl
      · exact outside early

/-! ## Bindings in scope -/

/-- Every binding in scope is one of the nodes `done`. -/
def Bound (done : List Nat) (scopes : List Scope) : Prop :=
  ∀ scope ∈ scopes, ∀ (name : String) (id : Nat), scope[name]? = some id → id ∈ done

theorem Bound.mono {done done' : List Nat} (hb : Bound done scopes) (more : done ⊆ done') :
    Bound done' scopes :=
  fun sc hm name id binds => more (hb sc hm name id binds)

theorem Bound.tail (hb : Bound done scopes) : Bound done scopes.tail :=
  fun sc hm => hb sc (mem_of_mem_tail hm)

theorem Bound.push (hb : Bound done scopes) : Bound done (∅ :: scopes) := by
  intro sc hm name id binds
  rcases mem_cons.mp hm with rfl | hm
  · simp at binds
  · exact hb sc hm name id binds

variable {id : Nat} {name : String} {edge : PlanEdge}

theorem Bound.bind (hb : Bound done scopes) (isDone : id ∈ done) :
    Bound done (scopes.modifyHead (·.insert name id)) := by
  cases scopes with
  | nil => exact hb
  | cons inn =>
    intro sc hm o src binds
    rcases mem_cons.mp hm with rfl | hm
    · rw [Std.ExtTreeMap.getElem?_insert] at binds
      split at binds
      · cases binds
        exact isDone
      · exact hb inn mem_cons_self o src binds
    · exact hb sc (mem_cons_of_mem _ hm) o src binds

theorem mem_of_lookup (hb : Bound done scopes) (hf : lookup scopes name = some id) : id ∈ done := by
  obtain ⟨sc, hm, binds⟩ := exists_of_findSome?_eq_some hf
  exact hb sc hm name id binds

theorem mem_of_selectedSources (hb : Bound done scopes) {selected : String → Bool}
    (hm : id ∈ selectedSources scopes selected) : id ∈ done := by
  rw [selectedSources, mem_insertionSort, mem_map] at hm
  obtain ⟨⟨_, _⟩, kept, rfl⟩ := hm
  rw [mem_filter, mem_visible] at kept
  exact mem_of_lookup hb kept.1

theorem mem_of_shimScopeSources {exts : Externals} {backend : BackendInterface}
    {bd : List OIr} {qrefs : Std.ExtTreeMap Nat QuoteReferences} (hb : Bound done scopes)
    (hm : id ∈ shimScopeSources exts scopes backend bd qrefs) : id ∈ done := by
  rw [shimScopeSources] at hm
  split at hm
  · split at hm
    · cases hm
    · exact mem_of_selectedSources hb hm
  · dsimp only at hm
    split at hm
    · exact mem_of_selectedSources hb hm
    · exact mem_of_selectedSources hb hm

/-! ## Edges of the builder -/

/-- `source` stands before `target` in `order`. -/
def Before (order : List Nat) (source target : Nat) : Prop :=
  ∃ before after, order = before ++ target :: after ∧ source ∈ before

theorem Before.append {order : List Nat} {src tgt : Nat}
    (s : Before order src tgt) (more : List Nat) : Before (order ++ more) src tgt := by
  obtain ⟨front, back, rfl, hm⟩ := s
  exact ⟨front, back ++ more, by simp, hm⟩

theorem before_last {order : List Nat} {src : Nat} (hm : src ∈ order) (tgt : Nat) :
    Before (order ++ [tgt]) src tgt :=
  ⟨order, [], rfl, hm⟩

/-- A list of edges grows by edges of the kind `added`. -/
structure Grown (added : PlanEdge → Prop) (edges edges' : List PlanEdge) : Prop where
  kept : ∀ edge ∈ edges, edge ∈ edges'
  fresh : ∀ edge ∈ edges', edge ∈ edges ∨ added edge

theorem Grown.refl (added : PlanEdge → Prop) (es : List PlanEdge) : Grown added es es :=
  ⟨fun _ hm => hm, fun _ hm => .inl hm⟩

theorem Grown.trans {first x2 third : List PlanEdge} (left : Grown added first x2)
    (right : Grown added x2 third) : Grown added first third  where
  kept e hm := right.kept e (left.kept e hm)
  fresh e hm := by
    rcases right.fresh e hm with old | new
    · exact left.fresh e old
    · exact .inr new

theorem Grown.mono {added added' : PlanEdge → Prop} {es edges' : List PlanEdge}
    (hgn : Grown added es edges') (weaker : ∀ e, added e → added' e) :
    Grown added' es edges' :=
  ⟨hgn.kept, fun e hm => (hgn.fresh e hm).imp_right (weaker e)⟩

namespace PlanBuilder

variable (b : PlanBuilder) (src tgt : Nat) (kind : PlanEdgeKind)

@[simp] theorem addEdge_nodes : (b.addEdge src tgt kind).nodes = b.nodes := by
  rw [addEdge]
  split <;> rfl

@[simp] theorem addEdge_scopes : (b.addEdge src tgt kind).scopes = b.scopes := by
  rw [addEdge]
  split <;> rfl

theorem mem_addEdge : edge ∈ (b.addEdge src tgt kind).edges ↔
    edge ∈ b.edges ∨ edge = ⟨src, tgt, kind⟩ := by
  rw [addEdge]
  split
  next hp =>
    constructor
    · exact .inl
    · rintro (old | rfl)
      · exact old
      · exact hp
  next => simp

theorem grown_addEdge (justified : added ⟨src, tgt, kind⟩) :
    Grown added b.edges (b.addEdge src tgt kind).edges where
  kept edge hm := (b.mem_addEdge src tgt kind).mpr (.inl hm)
  fresh edge hm := by
    rcases (b.mem_addEdge src tgt kind).mp hm with old | rfl
    · exact .inl old
    · exact .inr justified

@[simp] theorem addEdgeFrom_nodes (src : Option Nat) :
    (b.addEdgeFrom src tgt kind).nodes = b.nodes := by
  cases src <;> simp [addEdgeFrom]

@[simp] theorem addEdgeFrom_scopes (src : Option Nat) :
    (b.addEdgeFrom src tgt kind).scopes = b.scopes := by
  cases src <;> simp [addEdgeFrom]

theorem grown_addEdgeFrom (src : Option Nat)
    (justified : ∀ id, src = some id → added ⟨id, tgt, kind⟩) :
    Grown added b.edges (b.addEdgeFrom src tgt kind).edges := by
  cases src with
  | none => exact .refl added b.edges
  | some id => exact b.grown_addEdge id tgt kind (justified id rfl)

@[simp] theorem addEdgesFrom_nodes (srcs : List Nat) :
    (b.addEdgesFrom srcs tgt).nodes = b.nodes := by
  induction srcs generalizing b with
  | nil => rfl
  | cons first rest ih => exact (ih _).trans (b.addEdge_nodes first tgt .data)

@[simp] theorem addEdgesFrom_scopes (srcs : List Nat) :
    (b.addEdgesFrom srcs tgt).scopes = b.scopes := by
  induction srcs generalizing b with
  | nil => rfl
  | cons first rest ih => exact (ih _).trans (b.addEdge_scopes first tgt .data)

theorem grown_addEdgesFrom {srcs : List Nat} (justified : ∀ id ∈ srcs, added ⟨id, tgt, .data⟩) :
    Grown added b.edges (b.addEdgesFrom srcs tgt).edges := by
  induction srcs generalizing b with
  | nil => exact .refl added b.edges
  | cons first rest ih =>
    refine (b.grown_addEdge first tgt .data (justified first mem_cons_self)).trans ?_
    exact ih _ (forall_mem_cons.mp justified).2

@[simp] theorem popScope_pushScope : b.pushScope.popScope = b :=
  rfl

end PlanBuilder

/-! ## What adding a forest does -/

/-- The plan nodes of instructions numbered on from `start`. -/
def numbered (externals : Externals) (start : Nat) (nodes : List OIr) : List PlanNode :=
  (nodes.zipIdx start).map fun numbered => ⟨numbered.2, planKind externals numbered.1⟩

/-- An edge of a forest with the postorder `order`, behind the nodes `done` and below `parent`. -/
def Justified (done order : List Nat) (parent : Option Nat) (edge : PlanEdge) : Prop :=
  Before (done ++ order) edge.source edge.target ∨
    (parent = some edge.target ∧ edge.source ∈ order)

/-- `builder'` comes from `builder` by adding the forest `nodes` below `parent`, when the nodes
`done` are complete. -/
structure Built (externals : Externals) (done : List Nat) (parent : Option Nat) (forest : List OIr)
    (builder builder' : PlanBuilder) : Prop where
  nodes : builder'.nodes =
    builder.nodes ++ numbered externals builder.nextId (flattenNodesForPlan forest)
  grown : Grown (Justified done (postOrderNodes builder.nextId forest) parent)
    builder.edges builder'.edges
  structural : ∀ child above, Child parent builder.nextId forest child above →
    ⟨child, above, .structural⟩ ∈ builder'.edges
  bound : Bound (done ++ postOrderNodes builder.nextId forest) builder'.scopes

/-- `builder'` has the root `node` with the edges that do not concern its operands. -/
structure Opened (externals : Externals) (done : List Nat) (parent : Option Nat) (node : OIr)
    (builder builder' : PlanBuilder) : Prop where
  nodes : builder'.nodes = builder.nodes ++ [⟨builder.nextId, planKind externals node⟩]
  grown : Grown (Justified done (postOrderNode builder.nextId node) parent)
    builder.edges builder'.edges
  structural : ∀ above, parent = some above →
    ⟨builder.nextId, above, .structural⟩ ∈ builder'.edges
  scopes : builder'.scopes = builder.scopes

section

variable {exts : Externals} {done : List Nat} {par prev : Option Nat} {n : OIr}
variable {b builder' : PlanBuilder}

/-- An edge into the root of a tree from a complete node. -/
theorem justified_root {src : Nat} (hm : src ∈ done) (st0 : Nat) (n : OIr) (kind : PlanEdgeKind) :
    Justified done (postOrderNode st0 n) par ⟨src, st0, kind⟩ := by
  left
  rw [postOrderNode_eq, ← append_assoc]
  exact before_last (mem_append_left _ hm) st0

theorem opened_openNode (hear : ∀ id, prev = some id → id ∈ done) : Opened exts done par n b
      (b.openNode exts n par prev) := by
  have root : b.nextId ∈ postOrderNode b.nextId n := by
    simp [postOrderNode_eq]
  have sequence : ∀ built : PlanBuilder,
      Grown (Justified done (postOrderNode b.nextId n) par) built.edges
        (built.addEdgeFrom prev b.nextId .sequence).edges := by
    intro built
    refine built.grown_addEdgeFrom _ _ prev fun id hk => ?_
    exact justified_root (hear id hk) b.nextId n _
  cases par with
  | none =>
    exact ⟨by simp [PlanBuilder.openNode, PlanBuilder.pushNode],
      sequence (b.pushNode (planKind exts n)), by simp,
      by simp [PlanBuilder.openNode, PlanBuilder.pushNode]⟩
  | some above =>
    have structural : Grown (Justified done (postOrderNode b.nextId n) (some above))
        b.edges ((b.pushNode (planKind exts n)).addEdge b.nextId above .structural).edges :=
      (b.pushNode (planKind exts n)).grown_addEdge _ _ _ (.inr ⟨rfl, root⟩)
    refine ⟨by simp [PlanBuilder.openNode, PlanBuilder.pushNode],
      structural.trans (sequence _), ?_, by simp [PlanBuilder.openNode, PlanBuilder.pushNode]⟩
    rintro _ ⟨⟩
    refine (sequence _).kept _ ?_
    exact (PlanBuilder.mem_addEdge _ _ _ _).mpr (.inr rfl)

section

variable (hop : Opened exts done par n b builder')

include hop

theorem Opened.then {builder'' : PlanBuilder}
    (grown : Grown (Justified done (postOrderNode b.nextId n) par) builder'.edges builder''.edges)
    (nodes : builder''.nodes = builder'.nodes) (scopes : builder''.scopes = builder'.scopes) :
    Opened exts done par n b builder'' where
  nodes := nodes.trans hop.nodes
  grown := hop.grown.trans grown
  structural above hk := grown.kept _ (hop.structural above hk)
  scopes := scopes.trans hop.scopes

/-- A data edge into the root from a complete node. -/
theorem Opened.addEdgeFrom (src : Option Nat) (hk : ∀ id, src = some id → id ∈ done) :
    Opened exts done par n b (builder'.addEdgeFrom src b.nextId .data) :=
  hop.then (builder'.grown_addEdgeFrom b.nextId .data src fun id hf =>
    justified_root (hk id hf) b.nextId n .data) (by simp) (by simp)

theorem Opened.addEdgesFrom (srcs : List Nat) (hk : ∀ id ∈ srcs, id ∈ done) :
    Opened exts done par n b (builder'.addEdgesFrom srcs b.nextId) :=
  hop.then (builder'.grown_addEdgesFrom b.nextId fun id hm =>
    justified_root (hk id hm) b.nextId n .data) (by simp) (by simp)

theorem Opened.recordQuote (id : Nat) (expr : OIr) :
    Opened exts done par n b (builder'.recordQuote exts id expr) := by
  have he : (builder'.recordQuote exts id expr).nodes = builder'.nodes ∧
      (builder'.recordQuote exts id expr).edges = builder'.edges ∧
      (builder'.recordQuote exts id expr).scopes = builder'.scopes := by
    cases expr with
    | exec =>
      simp only [PlanBuilder.recordQuote]
      split <;> simp
    | _ => simp [PlanBuilder.recordQuote]
  exact hop.then (he.2.1 ▸ .refl _ _) he.1 he.2.2

/-- Close a root after its operands were added in a scope of their own. -/
theorem Opened.close {inn : PlanBuilder}
    (built : Built exts done (some b.nextId) n.operands builder'.pushScope inn) :
    Built exts done par [n] b inn.popScope := by
  have st0 : builder'.pushScope.nextId = b.nextId + 1 := by
    simp [PlanBuilder.nextId, PlanBuilder.pushScope, hop.nodes]
  have order : postOrderNodes b.nextId [n] =
      postOrderNodes (b.nextId + 1) n.operands ++ [b.nextId] := by
    simp [postOrderNodes, postOrderNode_eq]
  obtain ⟨nodes, grown, structural, boundInner⟩ := built
  rw [st0] at nodes grown structural boundInner
  constructor
  case nodes =>
    have : inn.popScope.nodes = inn.nodes := rfl
    rw [this, nodes]
    simp [PlanBuilder.pushScope, hop.nodes, flattenNodesForPlan, flattenNode_eq, numbered]
  case grown =>
    have out := hop.grown
    rw [postOrderNode_eq, ← order] at out
    refine out.trans (grown.mono ?_)
    rintro e (s | ⟨parentIs, hm⟩)
    · left
      rw [order, ← append_assoc]
      exact s.append _
    · left
      rw [order, ← append_assoc, ← Option.some.inj parentIs]
      exact before_last (mem_append_right _ hm) _
  case structural =>
    intro child above hch
    cases hch with
    | root => exact grown.kept _ (hop.structural _ rfl)
    | inside hch => exact structural child above hch
    | behind hch => cases hch
  case bound =>
    refine .mono boundInner.tail ?_
    rw [order, ← append_assoc]
    exact subset_append_left _ _

end

theorem Built.bind (built : Built exts done par [n] b builder') (name : String) :
    Built exts done par [n] b (builder'.bind name b.nextId) where
  nodes := built.nodes
  grown := built.grown
  structural := built.structural
  bound := by
    refine built.bound.bind (mem_append_right _ ?_)
    simp [postOrderNodes, postOrderNode_eq]

theorem Built.cons {builder'' : PlanBuilder} (first : Built exts done par [n] b builder')
    (tl : Built exts (done ++ postOrderNodes b.nextId [n]) par nodes builder' builder'') :
    Built exts done par (n :: nodes) b builder'' := by
  have st0 : builder'.nextId = b.nextId + (flattenNodeForPlan n).length := by
    simp [PlanBuilder.nextId, first.nodes, numbered, flattenNodesForPlan]
  have order : postOrderNodes b.nextId (n :: nodes) =
      postOrderNodes b.nextId [n] ++ postOrderNodes builder'.nextId nodes := by
    simp [postOrderNodes, st0]
  constructor
  case nodes =>
    rw [tl.nodes, first.nodes, st0]
    simp [flattenNodesForPlan, numbered, zipIdx_append, Nat.add_comm]
  case grown =>
    refine .trans (first.grown.mono ?_) (tl.grown.mono ?_)
    · rintro e (s | ⟨parentIs, hm⟩)
      · exact .inl (by rw [order, ← append_assoc]; exact s.append _)
      · exact .inr ⟨parentIs, by rw [order]; exact mem_append_left _ hm⟩
    · rintro e (s | ⟨parentIs, hm⟩)
      · exact .inl (by rwa [order, ← append_assoc])
      · exact .inr ⟨parentIs, by rw [order]; exact mem_append_right _ hm⟩
  case structural =>
    intro child above hch
    cases hch with
    | root => exact tl.grown.kept _ (first.structural _ _ .root)
    | inside hch => exact tl.grown.kept _ (first.structural _ _ (.inside hch))
    | behind hch => exact tl.structural child above (st0 ▸ hch)
  case bound =>
    rw [order, ← append_assoc]
    exact tl.bound

end

/-! ## The traversal -/

theorem built_addNode {exts : Externals} {n : OIr} (ops : ∀ done par prev b, Bound done b.scopes →
      (∀ id, prev = some id → id ∈ done) →
      Built exts done par n.operands b
        (PlanBuilder.addNodes exts par prev n.operands b))
    {par prev : Option Nat} {b : PlanBuilder}
    (hb : Bound done b.scopes) (hear : ∀ id, prev = some id → id ∈ done) :
    Built exts done par [n] b (PlanBuilder.addNode exts par prev n b) := by
  have hop : Opened exts done par n b _ := opened_openNode hear
  have hi : ∀ built : PlanBuilder, built.scopes = b.scopes →
      Built exts done (some b.nextId) n.operands built.pushScope
        (.addNodes exts (some b.nextId) none n.operands built.pushScope) := by
    intro built he
    refine ops done _ none _ ?_ (by simp)
    exact (he.symm ▸ hb).push
  have scopes := hop.scopes
  cases n with
  | text => exact hop.close (hi _ scopes)
  | load name =>
    have loaded := hop.addEdgeFrom (lookup _ name) fun id => mem_of_lookup (scopes ▸ hb)
    exact loaded.close (hi _ loaded.scopes)
  | store name expr =>
    have hr := hop.recordQuote b.nextId expr
    exact (hr.close (hi _ hr.scopes)).bind name
  | invoke =>
    rw [PlanBuilder.addNode]
    split
    · have captured := hop.addEdgesFrom (visibleScopeSources _) fun id =>
        mem_of_selectedSources (scopes ▸ hb)
      exact captured.close (hi _ captured.scopes)
    · exact hop.close (hi _ scopes)
  | nativeLeaf => exact hop.close (hi _ scopes)
  | exec lang envId attr backend bd =>
    have fin : ∀ built, Opened exts done par (.exec lang envId attr backend bd) b built →
        Built exts done par [.exec lang envId attr backend bd] b
          (let built := built.addEdgeFrom
            ((attrCapabilityBinding exts attr).bind (lookup built.scopes)) b.nextId .data
          if backend.isQuote then built
          else (PlanBuilder.addNodes exts (some b.nextId) none bd
            built.pushScope).popScope) := by
      intro built hop
      have hau := hop.addEdgeFrom
        ((attrCapabilityBinding exts attr).bind (lookup built.scopes)) fun id hf => by
          obtain ⟨name, -, hf⟩ := Option.bind_eq_some_iff.mp hf
          exact mem_of_lookup (hop.scopes ▸ hb) hf
      have hcl := hau.close (hi _ hau.scopes)
      cases quoted : backend.isQuote with
      | true => simpa [OIr.operands, quoted, PlanBuilder.addNodes] using hcl
      | false => simpa [OIr.operands, quoted] using hcl
    rw [PlanBuilder.addNode]
    refine fin _ ?_
    split
    · exact hop.addEdgesFrom _ fun id => mem_of_shimScopeSources (scopes ▸ hb)
    · exact hop

theorem built_addNodes (exts : Externals) (ns : List OIr) (done : List Nat)
    (par prev : Option Nat) (b : PlanBuilder) (hb : Bound done b.scopes)
    (hear : ∀ id, prev = some id → id ∈ done) :
    Built exts done par ns b (PlanBuilder.addNodes exts par prev ns b) := by
  induction ns using forest_induction generalizing done par prev b with
  | nil =>
    refine ⟨by simp [PlanBuilder.addNodes, flattenNodesForPlan, numbered], .refl _ _, ?_, ?_⟩
    · intro child above bad
      cases bad
    · simpa [PlanBuilder.addNodes, postOrderNodes] using hb
  | cons n ns ihOperands ihNodes =>
    have first : Built exts done par [n] b _ := built_addNode ihOperands hb hear
    refine first.cons (ihNodes _ par _ _ first.bound ?_)
    rintro id ⟨⟩
    simp [postOrderNodes, postOrderNode_eq]

theorem addRoots_eq (exts : Externals) (ns : List OIr) (prev : Option Nat) (b : PlanBuilder) :
    (PlanBuilder.addRoots exts prev ns b).2 = PlanBuilder.addNodes exts none prev ns b := by
  induction ns generalizing prev b with
  | nil => rfl
  | cons n ns ih => exact ih _ _

/-! ## The canonical plan -/

/-- The ids the roots of a forest get, numbered on from `start`. -/
def rootIds (start : Nat) : List OIr → List Nat
  | [] => []
  | node :: nodes => start :: rootIds (start + (flattenNodeForPlan node).length) nodes

theorem addRoots_ids (exts : Externals) (ns : List OIr) {prev : Option Nat}
    {b : PlanBuilder} (hb : Bound done b.scopes) (hear : ∀ id, prev = some id → id ∈ done) :
    (PlanBuilder.addRoots exts prev ns b).1 = rootIds b.nextId ns := by
  induction ns generalizing done prev b with
  | nil => rfl
  | cons n ns ih =>
    have first := built_addNodes exts [n] done none prev b hb hear
    have st0 : (PlanBuilder.addNode exts none prev n b).nextId =
        b.nextId + (flattenNodeForPlan n).length := by
      have := congrArg List.length first.nodes
      simpa [numbered, flattenNodesForPlan, PlanBuilder.addNodes, PlanBuilder.nextId] using this
    rw [rootIds, ← st0]
    refine congrArg (b.nextId :: ·) (ih first.bound ?_)
    rintro id ⟨⟩
    simp [postOrderNodes, postOrderNode_eq]

theorem rootIds_length (st0 : Nat) (ns : List OIr) : (rootIds st0 ns).length = ns.length := by
  induction ns generalizing st0 with
  | nil => rfl
  | cons n ns ih => simp [rootIds, ih]

theorem rootIds_bounds {st0 id : Nat} (hm : id ∈ rootIds st0 nodes) :
    st0 ≤ id ∧ id < st0 + (flattenNodesForPlan nodes).length := by
  induction nodes generalizing st0 with
  | nil => cases hm
  | cons n nodes ih =>
    simp only [flattenNodesForPlan, flattenNode_eq, length_append, length_cons]
    rcases mem_cons.mp hm with rfl | hl
    · omega
    · have := ih hl
      simp only [flattenNode_eq, length_cons] at this
      omega

theorem rootIds_nodup (st0 : Nat) (ns : List OIr) : (rootIds st0 ns).Nodup := by
  induction ns generalizing st0 with
  | nil => exact nodup_nil
  | cons n ns ih =>
    refine nodup_cons.mpr ⟨fun hl => ?_, ih _⟩
    have := rootIds_bounds hl
    simp only [flattenNode_eq, length_cons] at this
    omega

theorem bound_new : Bound [] PlanBuilder.new.scopes := by
  intro sc hm name id binds
  rw [mem_singleton.mp hm] at binds
  simp at binds

section

variable (externals : Externals) (program : OIrProgram)

theorem built_plan : Built externals [] none program.nodes .new
    (PlanBuilder.addRoots externals none program.nodes .new).2 := by
  rw [addRoots_eq]
  exact built_addNodes externals program.nodes [] none none .new bound_new (by simp)

theorem plan_nodes : (program.plan externals).nodes = numbered externals 0 program.flattenForPlan :=
  (built_plan externals program).nodes

theorem plan_length : (program.plan externals).nodes.length = program.flattenForPlan.length := by
  simp [plan_nodes, numbered]

theorem plan_roots : (program.plan externals).roots = rootIds 0 program.nodes :=
  addRoots_ids externals program.nodes bound_new (by simp)

theorem plan_edge_before (hm : edge ∈ (program.plan externals).edges) :
    Before program.postOrder edge.source edge.target := by
  rcases (built_plan externals program).grown.fresh edge hm with bad | justified
  · cases bad
  · rcases justified with s | ⟨bad, -⟩
    · exact s
    · cases bad

theorem mem_postOrder_iff :
    id ∈ program.postOrder ↔ id < (program.plan externals).nodes.length := by
  rw [OIrProgram.postOrder, mem_postOrder, plan_length]
  simp [OIrProgram.flattenForPlan]

theorem plan_edge_bounds (hm : edge ∈ (program.plan externals).edges) :
    edge.source < (program.plan externals).nodes.length ∧
      edge.target < (program.plan externals).nodes.length := by
  obtain ⟨_, _, order, early⟩ := plan_edge_before externals program hm
  simp only [← mem_postOrder_iff, order]
  exact ⟨mem_append_left _ early, by simp⟩

theorem plan_schedule : Kahn.schedule (List.range (program.plan externals).nodes.length)
      (program.plan externals).dependencies = program.postOrder := by
  have hne := postOrder_nodup program.nodes 0
  refine Kahn.schedule_eq ?_ nodup_range ?_ ?_ ?_
  · rw [plan_length, range_eq_range']
    exact postOrder_perm program.nodes 0
  · intro s n t split src hm
    obtain ⟨e, isEdge, he⟩ := mem_map.mp hm
    obtain ⟨rfl, rfl⟩ := Prod.mk.inj he
    obtain ⟨front, back, order, early⟩ := plan_edge_before externals program isEdge
    have once : (front ++ e.target :: back).Nodup := order ▸ hne
    obtain ⟨-, unrepeated, apart⟩ := nodup_append.mp once
    have notFront : e.target ∉ front := fun hag => apart _ hag _ (by simp) rfl
    have notBack : e.target ∉ back := (nodup_cons.mp unrepeated).1
    rw [order, append_cons_inj_of_notMem notFront notBack] at split
    exact split.1 ▸ early
  · rintro ⟨src, _⟩ hm
    obtain ⟨e, isEdge, he⟩ := mem_map.mp hm
    obtain ⟨rfl, rfl⟩ := Prod.mk.inj he
    exact mem_range.mpr (plan_edge_bounds externals program isEdge).2
  · intro s n t split hl behind hlt
    obtain ⟨child, hch, outside⟩ := waits_for_child program.nodes none 0 split behind hlt
    refine ⟨child, mem_map.mpr ⟨⟨child, hl, .structural⟩, ?_, rfl⟩, outside⟩
    exact (built_plan externals program).structural child hl hch

theorem plan_topologicalOrder :
    (program.plan externals).topologicalOrder = .ok program.postOrder := by
  have everyNode : program.postOrder.length = (program.plan externals).nodes.length := by
    rw [plan_length]
    simpa [OIrProgram.postOrder, OIrProgram.flattenForPlan] using
      (postOrder_perm program.nodes 0).length_eq
  simp [ExecutionPlan.topologicalOrder, plan_schedule, everyNode, bailIf]

theorem rootPosition_isSome (plan : ExecutionPlan) (id : Nat) :
    (plan.rootPosition id).isSome ↔ id ∈ plan.roots := by
  rw [ExecutionPlan.rootPosition, Option.isSome_map, find?_isSome]
  constructor
  · rintro ⟨⟨_, i⟩, hm, he⟩
    rw [← of_decide_eq_true he]
    exact (mem_zipIdx' (mem_reverse.mp hm)).2 ▸ getElem_mem _
  · intro hm
    obtain ⟨i, _, rfl⟩ := getElem_of_mem hm
    refine ⟨(plan.roots[i], i), mem_reverse.mpr ?_, by simp⟩
    simp [mk_mem_zipIdx_iff_getElem?]

theorem plan_validateIdentities : (program.plan externals).validateIdentities = .ok () := by
  refine forM_eq_ok.mpr ?_
  rintro ⟨n, i⟩ hm
  rw [plan_nodes, mem_zipIdx_iff_getElem?] at hm
  have he : n.id = i := by
    obtain ⟨_, -, rfl⟩ := by simpa [numbered] using hm
    rfl
  simp [bailIf, he]

theorem validateRoots_ok {plan : ExecutionPlan} {seen roots : List Nat}
    (hi : ∀ root ∈ roots, root < plan.nodes.length) (hne : roots.Nodup)
    (unseen : ∀ root ∈ roots, root ∉ seen) : plan.validateRoots seen roots = .ok () := by
  induction roots generalizing seen with
  | nil => rfl
  | cons root roots ih =>
    obtain ⟨fresh, hne⟩ := nodup_cons.mp hne
    have tl : plan.validateRoots (root :: seen) roots = .ok () := by
      refine ih (fun o hm => hi o (.tail _ hm)) hne ?_
      intro o hm hag
      rcases mem_cons.mp hag with rfl | hag
      · exact fresh hm
      · exact unseen o (.tail _ hm) hag
    have hb := hi root (.head _)
    have new := unseen root (.head _)
    simp [ExecutionPlan.validateRoots, bailIf, new, Nat.not_le.mpr hb, tl]

theorem plan_roots_inside {root : Nat} (hm : root ∈ (program.plan externals).roots) :
    root < (program.plan externals).nodes.length := by
  rw [plan_roots] at hm
  rw [plan_length]
  simpa [OIrProgram.flattenForPlan] using (rootIds_bounds hm).2

theorem plan_roots_nodup : (program.plan externals).roots.Nodup := by
  rw [plan_roots]
  exact rootIds_nodup 0 program.nodes

theorem plan_validateEdges : (program.plan externals).validateEdges = .ok () := by
  refine forM_eq_ok.mpr fun e hm => ?_
  obtain ⟨src, tgt⟩ := plan_edge_bounds externals program hm
  simp [bailIf, Nat.not_le.mpr src, Nat.not_le.mpr tgt]

theorem plan_rootSchedule : (program.plan externals).rootSchedule =
    .ok (program.postOrder.filterMap (program.plan externals).rootPosition) := by
  -- Both lists have no repetition, so it is enough that they have the same members.
  have same : (program.postOrder.filter (· ∈ (program.plan externals).roots)).Perm
      (program.plan externals).roots := by
    refine (perm_ext_iff_of_nodup ((postOrder_nodup program.nodes 0).filter _)
      (plan_roots_nodup externals program)).mpr fun id => ?_
    simp only [mem_filter, decide_eq_true_eq]
    refine ⟨And.right, fun hm => ⟨?_, hm⟩⟩
    exact (mem_postOrder_iff externals program).mpr (plan_roots_inside externals program hm)
  have everyRoot : (program.postOrder.filterMap
      (program.plan externals).rootPosition).length = (program.plan externals).roots.length := by
    rw [length_filterMap_eq_countP, ← same.length_eq, ← countP_eq_length_filter]
    refine congrArg (List.countP · program.postOrder) (funext fun id => ?_)
    exact Bool.eq_iff_iff.mpr ((rootPosition_isSome _ id).trans (by simp))
  simp [ExecutionPlan.rootSchedule, plan_topologicalOrder, everyRoot, bailIf]

theorem plan_validate : (program.plan externals).validate program.nodes.length = .ok () := by
  have roots : (program.plan externals).roots.length = program.nodes.length := by
    rw [plan_roots, rootIds_length]
  have hne : (program.plan externals).validateRoots [] (program.plan externals).roots = .ok () :=
    validateRoots_ok (fun _ => plan_roots_inside externals program)
      (plan_roots_nodup externals program) (by simp)
  simp [ExecutionPlan.validate, roots, bailIf, plan_validateIdentities, hne,
    plan_validateEdges, plan_topologicalOrder, plan_rootSchedule]

/-- The plan of a program is valid, has one node for each planned instruction in preorder, and its
topological order is the postorder of the instruction trees. -/
theorem plan_schedules_postOrder :
    (program.plan externals).validate program.nodes.length = .ok () ∧
      (program.plan externals).nodes = numbered externals 0 program.flattenForPlan ∧
      (program.plan externals).topologicalOrder = .ok program.postOrder :=
  ⟨plan_validate externals program, plan_nodes externals program,
    plan_topologicalOrder externals program⟩

end

end Ostadix.Ir
