import Mathlib.Order.Nat
import Ostadix.Ir.Oir
import Ostadix.Lib.Kahn

/-! # Execution plans

A plan is a dependency graph over the instructions of a program: nodes numbered in preorder, the
roots, and edges of three kinds. Its own order is the topological order that takes the smallest
node first. -/

namespace Ostadix.Ir

open Lib

abbrev PlanNodeId := Nat

inductive PlanEdgeKind where
  | structural
  | sequence
  | data
deriving DecidableEq

inductive PlanRequestKind where
  | instantiate
  | realise
  | dryActivate
  | activate
deriving DecidableEq

def PlanRequestKind.label : PlanRequestKind → String
  | .instantiate => "instantiate"
  | .realise => "realise"
  | .dryActivate => "dry_activate"
  | .activate => "activate"

inductive PlanScheduleKind where
  | force
  | lazy
  | autonomous
deriving DecidableEq

def PlanScheduleKind.label : PlanScheduleKind → String
  | .force => "force"
  | .lazy => "lazy"
  | .autonomous => "autonomous"

structure PlanEdge where
  source : PlanNodeId
  target : PlanNodeId
  kind : PlanEdgeKind
deriving DecidableEq

inductive PlanNodeKind where
  | text
  | load (name : String)
  | store (name : String)
  | nativeI64 (descriptor : Option String) (argumentCount : Nat)
  | call (fnName : String) (mode : InvokeMode) (argCount : Nat)
  | request (fnName : String) (kind : PlanRequestKind) (argCount : Nat)
  | group (mode : GroupMode) (memberCount : Nat)
  | schedule (fnName : String) (kind : PlanScheduleKind) (argCount : Nat)
  | exec (lang : String) (envId : UInt32) (attr : Option String) (backend : BackendInterface)
deriving DecidableEq

structure PlanNode where
  id : PlanNodeId
  kind : PlanNodeKind
deriving DecidableEq

structure ExecutionPlan where
  roots : List PlanNodeId
  nodes : List PlanNode
  edges : List PlanEdge
deriving DecidableEq

namespace ExecutionPlan

def dependencies (plan : ExecutionPlan) : List (PlanNodeId × PlanNodeId) :=
  plan.edges.map fun edge => (edge.source, edge.target)

/-- The edges of a plan are within bounds whenever this is asked; see `validate`. -/
def topologicalOrder (plan : ExecutionPlan) : Except String (List PlanNodeId) := do
  let order := Kahn.schedule (List.range plan.nodes.length) plan.dependencies
  bailIf (order.length ≠ plan.nodes.length) "execution plan dependency graph contains a cycle"
  return order

/-- The position of a root; a repeated root has its last one. -/
def rootPosition (plan : ExecutionPlan) (id : PlanNodeId) : Option Nat :=
  (plan.roots.zipIdx.reverse.find? fun root => root.1 = id).map Prod.snd

def rootSchedule (plan : ExecutionPlan) : Except String (List Nat) := do
  let schedule := (← plan.topologicalOrder).filterMap plan.rootPosition
  bailIf (schedule.length ≠ plan.roots.length) "execution plan did not schedule every root"
  return schedule

def validateIdentities (plan : ExecutionPlan) : Except String Unit :=
  plan.nodes.zipIdx.forM fun (node, index) =>
    bailIf (node.id ≠ index) s!"execution plan node identity mismatch at {index}: got {node.id}"

def validateRoots (plan : ExecutionPlan) : List PlanNodeId → List PlanNodeId → Except String Unit
  | _, [] => .ok ()
  | seen, root :: roots => do
      bailIf (plan.nodes.length ≤ root) s!"execution plan root {root} is out of bounds"
      bailIf (root ∈ seen) s!"execution plan root {root} is duplicated"
      plan.validateRoots (root :: seen) roots

def validateEdges (plan : ExecutionPlan) : Except String Unit :=
  plan.edges.forM fun edge =>
    bailIf (plan.nodes.length ≤ edge.source ∨ plan.nodes.length ≤ edge.target)
      s!"execution plan edge {edge.source} -> {edge.target} is out of bounds"

/-- Plan identity, edge bounds, acyclicity, and root coverage. -/
def validate (plan : ExecutionPlan) (rootCount : Nat) : Except String Unit := do
  bailIf (plan.roots.length ≠ rootCount)
    s!"execution plan has {plan.roots.length} roots for {rootCount} OIR instructions"
  plan.validateIdentities
  plan.validateRoots [] plan.roots
  plan.validateEdges
  let _ ← plan.topologicalOrder
  let _ ← plan.rootSchedule

end ExecutionPlan

end Ostadix.Ir
