import Ostadix.Hgraph.Crossing
import Ostadix.Lib.Chaotic
import Mathlib.Data.Finset.Card
import Mathlib.Algebra.Group.Nat.Defs

/-! # The type and fidelity solver

Two phases refine the facts of value nodes until no edge changes anything. An edge is given here by
the slot updates it asks for, in the order in which the source makes them; all updates of an edge
are computed from the nodes before the first of them is made. The diagnostic trace of the source is
left out. -/

namespace Ostadix.Hgraph

open Value

abbrev NodeId := Nat
abbrev EdgeId := Nat

/-! ## Graphs -/

inductive HNodeKind where
  | value
  | synthetic
deriving DecidableEq

/-- The facts that the solver reads and refines. -/
structure HNode (Data : Type) where
  kind : HNodeKind
  domain : DomainFlags
  rep : RepFlags
  value : Option (OValue Data)
  fidelityAssessment : Option FidelityAssessmentV2
  fidelity : Option Fidelity
deriving DecidableEq

inductive PortRole where
  | input
  | output
  | inOut
deriving DecidableEq

structure Port where
  node : NodeId
  role : PortRole
deriving DecidableEq

/-- Relations on which the solver does nothing are `other`. -/
inductive OpKind where
  | additive
  | multiplicative
  | bitwise
  | ordered
  | bounded (value : Int)
  | abiFixed (dom : DomainFlags) (rep : RepFlags)
  | dereferenceable
  | fieldAccess (field : String)
  | dataFlow
  | backendCrossing (fromLang toLang : String)
  | other (name : String)
deriving DecidableEq

structure HEdge where
  id : EdgeId
  kind : OpKind
  ports : List Port
deriving DecidableEq

abbrev Nodes (Data : Type) := Std.ExtTreeMap NodeId (HNode Data)

structure HGraph (Data : Type) where
  nodes : Nodes Data
  edges : Std.ExtTreeMap EdgeId HEdge

/-- `edge_ids` with the edges: in the order of their numbers. -/
def HGraph.edgeList {Data : Type} (graph : HGraph Data) : List (EdgeId × HEdge) :=
  graph.edges.toList

def PortRole.isInput : PortRole → Bool
  | input | inOut => true
  | output => false

def PortRole.isOutput : PortRole → Bool
  | output | inOut => true
  | input => false

def HEdge.inputs (edge : HEdge) : List NodeId :=
  (edge.ports.filter (·.role.isInput)).map (·.node)

def HEdge.outputs (edge : HEdge) : List NodeId :=
  (edge.ports.filter (·.role.isOutput)).map (·.node)

variable {Data : Type}

def HNode.isValue (node : HNode Data) : Bool :=
  node.kind = .value

def valueNode (nodes : Nodes Data) (id : NodeId) : Option (HNode Data) :=
  nodes[id]?.filter (·.isValue)

def inputValueNodes (nodes : Nodes Data) (edge : HEdge) : List (HNode Data) :=
  edge.inputs.filterMap (valueNode nodes)

/-! ## Failures -/

structure BudgetDiagnostics where
  completedPasses : Nat
  derivedPassBound : Nat
  appliedPassLimit : Nat
  limitIsBelowDerivedBound : Bool
deriving DecidableEq

inductive SolveError (Data : Type) where
  | invalidFidelityAssessment (node : NodeId) (reason : FidelityBoundsError)
  | inconsistentFidelityProjection (node : NodeId)
  | invalidDataFlowShape (edge : EdgeId) (valueInputs valueOutputs nonValuePorts : Nat)
  | duplicateDataFlowDestination (edge : EdgeId) (node : NodeId)
  | multipleDataFlowProducers (node : NodeId) (first second : EdgeId)
  | conflictingMaterializedValue (edge : EdgeId) (node : NodeId) (existing incoming : OValue Data)
  | budgetExhausted (diagnostics : BudgetDiagnostics)
  | panic
deriving DecidableEq

abbrev SolveResult (Data : Type) := Except (SolveError Data)

def orPanic {α : Type} : Option α → SolveResult Data α
  | some value => .ok value
  | none => .error .panic

/-! ## Slots -/

/-- What an edge merges into a slot of a node. -/
inductive SlotUpdate (Data : Type) where
  | domain (mask : DomainFlags)
  | rep (mask : RepFlags)
  | value (edge : EdgeId) (incoming : Option (OValue Data))
  | fidelity (incoming : FidelityAssessmentV2)
deriving DecidableEq

/-- Merge of the slots that hold an optional judgment. -/
def mergeFidelity : Option Fidelity → Option Fidelity → Option Fidelity
  | some existing, some incoming => some (existing.compose incoming)
  | none, incoming => incoming
  | existing, none => existing

def mergeAssessment : Option FidelityAssessmentV2 → FidelityAssessmentV2 →
    SolveResult Data FidelityAssessmentV2
  | some existing, incoming => orPanic (existing.andThen incoming)
  | none, incoming => .ok incoming

variable [DecidableEq Data]

/-- `update_slot` with the merged value: the slot changes if the value differs. -/
def updateSlot {α : Type} [DecidableEq α] (slot next : α) : α × Bool :=
  if slot = next then (slot, false) else (next, true)

def writeValueOnce (node : HNode Data) (edge : EdgeId) (id : NodeId)
    (incoming : Option (OValue Data)) : SolveResult Data (HNode Data × Bool) :=
  match incoming, node.value with
  | none, _ => .ok (node, false)
  | some incoming, some existing =>
      if existing ≠ incoming then .error (.conflictingMaterializedValue edge id existing incoming)
      else .ok (node, false)
  | some incoming, none =>
      let (value, changed) := updateSlot node.value (some incoming)
      .ok ({ node with value }, changed)

def applyFidelityToNode (node : HNode Data) (incoming : FidelityAssessmentV2) :
    SolveResult Data (HNode Data × Bool) := do
  let merged ← mergeAssessment node.fidelityAssessment incoming
  let (assessment, assessmentChanged) := updateSlot node.fidelityAssessment (some merged)
  let projected ← orPanic (merged.possibleFidelity)
  let (fidelity, fidelityChanged) :=
    updateSlot node.fidelity (mergeFidelity node.fidelity (some projected))
  return ({ node with fidelityAssessment := assessment, fidelity },
    assessmentChanged || fidelityChanged)

def applyUpdate (update : SlotUpdate Data) (id : NodeId) (node : HNode Data) :
    SolveResult Data (HNode Data × Bool) :=
  match update with
  | .domain mask =>
      let (domain, changed) := updateSlot node.domain (node.domain &&& mask)
      .ok ({ node with domain }, changed)
  | .rep mask =>
      let (rep, changed) := updateSlot node.rep (node.rep &&& mask)
      .ok ({ node with rep }, changed)
  | .value edge incoming => writeValueOnce node edge id incoming
  | .fidelity incoming => applyFidelityToNode node incoming

/-- One update; that of a node that is no value is skipped. -/
def updateValueNode (target : NodeId × SlotUpdate Data) (nodes : Nodes Data) :
    SolveResult Data (Nodes Data × Bool) :=
  match valueNode nodes target.1 with
  | none => .ok (nodes, false)
  | some node => do
      let (node, changed) ← applyUpdate target.2 target.1 node
      return (nodes.modify target.1 fun _ => node, changed)

def applyUpdates (updates : List (NodeId × SlotUpdate Data)) (nodes : Nodes Data) :
    SolveResult Data (Nodes Data × Bool) :=
  Lib.pass updateValueNode updates nodes

/-! ## Type and value rules -/

def toNodes (ids : List NodeId) (update : SlotUpdate Data) : List (NodeId × SlotUpdate Data) :=
  ids.map (·, update)

def applyDomainToAll (edge : HEdge) (mask : DomainFlags) : List (NodeId × SlotUpdate Data) :=
  toNodes (edge.ports.map (·.node)) (.domain mask)

def applyDomainToInputs (edge : HEdge) (mask : DomainFlags) : List (NodeId × SlotUpdate Data) :=
  toNodes edge.inputs (.domain mask)

def applyDomainToOutputs (edge : HEdge) (mask : DomainFlags) : List (NodeId × SlotUpdate Data) :=
  toNodes edge.outputs (.domain mask)

def applyRepToOutputs (edge : HEdge) (mask : RepFlags) : List (NodeId × SlotUpdate Data) :=
  toNodes edge.outputs (.rep mask)

def materializeBoundedOutputs (edge : HEdge) (value : Int) : List (NodeId × SlotUpdate Data) :=
  toNodes edge.outputs (.value edge.id (some (.bigInt value)))

def minRepForBigint (value : Int) : RepFlags :=
  if -2 ^ 7 ≤ value ∧ value < 2 ^ 7 then .i8
  else if -2 ^ 15 ≤ value ∧ value < 2 ^ 15 then .i16
  else if -2 ^ 31 ≤ value ∧ value < 2 ^ 31 then .i32
  else if -2 ^ 63 ≤ value ∧ value < 2 ^ 63 then .i64
  else .big

/-- The numeric domains that all value ports allow. -/
def numericIntersection (nodes : Nodes Data) (edge : HEdge) : DomainFlags :=
  (edge.ports.filterMap fun port => valueNode nodes port.node).foldl
    (fun acc node => acc &&& node.domain &&& .numeric) .numeric

def propagateDataflowTypeValue (nodes : Nodes Data) (edge : HEdge) : List (NodeId × SlotUpdate Data) :=
  match (inputValueNodes nodes edge).head? with
  | none => []
  | some input => edge.outputs.flatMap fun id =>
      [(id, .domain input.domain), (id, .rep input.rep), (id, .value edge.id input.value)]

def typeUpdates (nodes : Nodes Data) (edge : HEdge) : List (NodeId × SlotUpdate Data) :=
  match edge.kind with
  | .additive | .multiplicative => applyDomainToAll edge (numericIntersection nodes edge)
  | .bitwise => applyDomainToAll edge (DomainFlags.integer ||| DomainFlags.bitfield)
  | .ordered =>
      applyDomainToInputs edge (DomainFlags.numeric ||| DomainFlags.bool) ++
        applyDomainToOutputs edge DomainFlags.bool ++ applyRepToOutputs edge RepFlags.bool
  | .bounded value =>
      applyDomainToOutputs edge DomainFlags.integer ++
        applyRepToOutputs edge (minRepForBigint value) ++ materializeBoundedOutputs edge value
  | .abiFixed dom rep => edge.ports.flatMap fun port =>
      [(port.node, .domain dom), (port.node, .rep rep)]
  | .fieldAccess _ => applyDomainToInputs edge DomainFlags.struct
  | .dereferenceable => applyDomainToAll edge DomainFlags.pointer
  | .dataFlow => propagateDataflowTypeValue nodes edge
  | .backendCrossing .. | .other _ => []

/-! ## Fidelity rules -/

def fidelityAssessmentFor (registry : BackendRegistry) (node : HNode Data)
    (fromLang toLang : String) : SolveResult Data FidelityAssessmentV2 :=
  if !node.isValue then .ok .unsupported
  else if node.value.any OValue.isNative then .ok .nativeCapsule
  else
    match registry.get toLang with
    | none => .ok .unsupported
    | some toSpec =>
        if (registry.get fromLang).any (·.name = toSpec.name) then .ok .lossless
        else
          match node.value with
          | some value =>
              .ok (.fromConcrete (fidelityForValueWithCapabilities toSpec.valueCapabilities value))
          | none =>
              orPanic (fidelityAssessmentForAbstract node.domain node.rep toSpec.valueCapabilities)

/-- What a crossing adds to the losses of its input. -/
def crossingFidelity (registry : BackendRegistry) (nodes : Nodes Data) (edge : HEdge)
    (fromLang toLang : String) : SolveResult Data FidelityAssessmentV2 :=
  match (inputValueNodes nodes edge).head? with
  | none => .ok .unsupported
  | some node => do
      let crossing ← fidelityAssessmentFor registry node fromLang toLang
      orPanic ((node.fidelityAssessment.getD .lossless).andThen crossing)

def dataflowFidelity (nodes : Nodes Data) (edge : HEdge) : Option FidelityAssessmentV2 := do
  let input ← (inputValueNodes nodes edge).head?
  input.fidelityAssessment <|> input.fidelity.map .fromConcrete

def fidelityUpdates (registry : BackendRegistry) (nodes : Nodes Data) (edge : HEdge) :
    SolveResult Data (List (NodeId × SlotUpdate Data)) :=
  match edge.kind with
  | .backendCrossing fromLang toLang => do
      let fidelity ← crossingFidelity registry nodes edge fromLang toLang
      return toNodes edge.outputs (.fidelity fidelity)
  | .dataFlow =>
      match dataflowFidelity nodes edge with
      | none => .ok []
      | some incoming => .ok (toNodes edge.outputs (.fidelity incoming))
  | _ => .ok []

inductive SolvePhase where
  | typeAndValue
  | fidelity
deriving DecidableEq

def propagate (registry : BackendRegistry) (phase : SolvePhase) (edge : HEdge) (nodes : Nodes Data) :
    SolveResult Data (Nodes Data × Bool) :=
  match phase with
  | .typeAndValue => applyUpdates (typeUpdates nodes edge) nodes
  | .fidelity => do applyUpdates (← fidelityUpdates registry nodes edge) nodes

/-! ## Checks before the first pass -/

def validateAssessment (id : NodeId) (node : HNode Data) : SolveResult Data Unit :=
  match node.fidelityAssessment with
  | none => .ok ()
  | some assessment =>
      match assessment.tryPossibleFidelity with
      | .error reason => .error (.invalidFidelityAssessment id reason)
      | .ok projected =>
          if node.fidelity ≠ some projected then .error (.inconsistentFidelityProjection id) else .ok ()

def validateFidelityAssessments (nodes : Nodes Data) : SolveResult Data Unit :=
  nodes.toList.forM fun (id, node) => validateAssessment id node

def hydrateNode (node : HNode Data) : HNode Data :=
  if node.isValue ∧ node.fidelityAssessment = none then
    { node with fidelityAssessment := node.fidelity.map .fromConcrete }
  else node

def hydrateFidelityAssessments (nodes : Nodes Data) : Nodes Data :=
  nodes.map fun _ node => hydrateNode node

/-- The first node that is listed twice. -/
def firstDuplicate : List NodeId → List NodeId → Option NodeId
  | [], _ => none
  | id :: ids, seen => if id ∈ seen then some id else firstDuplicate ids (id :: seen)

def recordProducers (edge : EdgeId) :
    List NodeId → List (NodeId × EdgeId) → SolveResult Data (List (NodeId × EdgeId))
  | [], producers => .ok producers
  | id :: ids, producers =>
      match producers.lookup id with
      | none => recordProducers edge ids ((id, edge) :: producers)
      | some first =>
          if first ≠ edge then .error (.multipleDataFlowProducers id first edge)
          else recordProducers edge ids ((id, edge) :: producers)

def validateDataflowEdge (nodes : Nodes Data) (id : EdgeId) (edge : HEdge)
    (producers : List (NodeId × EdgeId)) : SolveResult Data (List (NodeId × EdgeId)) :=
  if edge.kind ≠ .dataFlow then .ok producers
  else
    let isValue (node : NodeId) := (valueNode nodes node).isSome
    let valueInputs := edge.inputs.filter isValue
    let valueOutputs := edge.outputs.filter isValue
    let nonValuePorts := edge.ports.filter fun port => !isValue port.node
    if valueInputs.length ≠ 1 ∨ valueOutputs = [] ∨ nonValuePorts ≠ [] then
      .error (.invalidDataFlowShape id valueInputs.length valueOutputs.length nonValuePorts.length)
    else
      match firstDuplicate valueOutputs [] with
      | some node => .error (.duplicateDataFlowDestination id node)
      | none => recordProducers id (valueOutputs.mergeSort (· ≤ ·)) producers

def validateDataflowConstraints (nodes : Nodes Data) (edges : List (EdgeId × HEdge)) :
    SolveResult Data Unit := do
  let _ ← edges.foldlM (fun producers (id, edge) => validateDataflowEdge nodes id edge producers) []

/-! ## Solving -/

/-- Saturating arithmetic of a 64-bit target. -/
def saturate (value : Nat) : Nat :=
  min value (2 ^ 64 - 1)

/-- The losses that a node names. -/
def HNode.fidelityKinds (node : HNode Data) : Losses :=
  (match node.fidelity with
    | some (.structural lost) => lost.losses
    | _ => ∅) ∪
  match node.fidelityAssessment with
  | some (.structural definite possible) => possible.losses ∪ optionalLosses definite
  | _ => ∅

def existingFidelityKinds (nodes : Nodes Data) : Losses :=
  nodes.toList.foldl (fun kinds entry => kinds ∪ entry.2.fidelityKinds) ∅

/-- Slot changes that a node admits: sixteen flags twice, the three growing judgments and the
value. -/
def perNodeHeight (nodes : Nodes Data) : Nat :=
  let fidelityHeight :=
    saturate (saturate ((existingFidelityKinds nodes).card + generatedLosses.length) + 3)
  saturate (saturate (saturate (16 + 16) + saturate (fidelityHeight * 3)) + 1)

/-- The slot changes of all nodes, and a last pass without a change for each phase. -/
def derivedIterationBudget (graph : HGraph Data) : Nat :=
  max (saturate (saturate (graph.nodes.size * perNodeHeight graph.nodes) + 2)) 1

def maxSolvePasses : Nat := 1000000

def budgetExhausted (derivedPassBound appliedPassLimit : Nat) : SolveError Data :=
  .budgetExhausted
    { completedPasses := appliedPassLimit
      derivedPassBound
      appliedPassLimit
      limitIsBelowDerivedBound := appliedPassLimit < derivedPassBound }

/-- Both phases share one limit on the passes. -/
def solveTypesWithLimits (registry : BackendRegistry) (graph : HGraph Data)
    (derivedPassBound appliedPassLimit : Nat) : SolveResult Data (HGraph Data) := do
  validateFidelityAssessments graph.nodes
  validateDataflowConstraints graph.nodes graph.edgeList
  let exhausted := budgetExhausted derivedPassBound appliedPassLimit
  let edges := graph.edgeList.map (·.2)
  let (typed, left) ← Lib.settle exhausted (propagate registry .typeAndValue) edges appliedPassLimit
    (hydrateFidelityAssessments graph.nodes)
  let (judged, _) ← Lib.settle exhausted (propagate registry .fidelity) edges left typed
  return { graph with nodes := judged }

def solveTypes (registry : BackendRegistry) (graph : HGraph Data) : SolveResult Data (HGraph Data) :=
  let derivedPassBound := derivedIterationBudget graph
  solveTypesWithLimits registry graph derivedPassBound (min derivedPassBound maxSolvePasses)

end Ostadix.Hgraph
