import Ostadix.Ocore.Hir

/-! # Typed SSA MIR and its builder

Mutable locals and statics are explicit memory places; a load from one produces a new value.
A function under construction is a list of blocks, one of which is current: instructions and
terminators go to the current block. -/

namespace Ostadix.Ocore

abbrev ValueId := Nat
abbrev BlockId := Nat

/-! ## Instructions and blocks -/

inductive PlaceBase where
  | local (id : LocalId)
  | static (id : StaticId)
  | pointer (value : ValueId)
deriving DecidableEq

inductive Projection where
  | field (offset : UInt64)
  | index (index : ValueId) (elementSize : UInt64)
deriving DecidableEq

structure Place where
  base : PlaceBase
  projections : List Projection
  ty : TypeId
deriving DecidableEq

inductive MirAsmOperand where
  | in (register : String) (value : ValueId)
  | out (register : String) (target : Place)
  | inOut (register : String) (input : ValueId) (output : Place)
deriving DecidableEq

inductive Instruction where
  | const (dst : ValueId) (value : UInt64)
  | functionAddress (dst : ValueId) (function : FunctionId)
  | addressOf (dst : ValueId) (place : Place)
  | load (dst : ValueId) (place : Place) (volatile : Bool)
  | store (place : Place) (value : ValueId) (volatile : Bool)
  | copy (destination source : Place) (size : UInt64)
  | unary (dst : ValueId) (op : UnaryOp) (operand : ValueId)
  | binary (dst : ValueId) (op : BinaryOp) (lhs rhs : ValueId)
  | cast (dst value : ValueId) (source target : TypeId)
  | call (dst : Option ValueId) (function : FunctionId) (args : List ValueId)
  | callIndirect (dst : Option ValueId) (callee : ValueId) (args : List ValueId)
  | intrinsic (dst : Option ValueId) (intrinsic : Intrinsic) (args : List ValueId)
  | phi (dst : ValueId) (incoming : List (BlockId × ValueId))
  | asm (template : String) (operands : List MirAsmOperand) (options : List String)
deriving DecidableEq

inductive Terminator where
  | pending
  | unreachable
  | return (value : Option ValueId)
  | jump (target : BlockId)
  | branch (condition : ValueId) (thenBlock elseBlock : BlockId)
deriving DecidableEq

structure BasicBlock where
  instructions : List Instruction
  terminator : Terminator
deriving DecidableEq

structure MirFunction where
  source : FunctionId
  localTypes : List TypeId
  values : List TypeId
  blocks : List BasicBlock
  entry : BlockId
deriving DecidableEq

structure MirStatic where
  source : StaticId
deriving DecidableEq

structure MirProgram where
  functions : List MirFunction
  statics : List MirStatic
deriving DecidableEq

/-- The block a builder starts with and every new block. -/
def BasicBlock.empty : BasicBlock :=
  ⟨[], .pending⟩

/-- Append a projection and retype the place. -/
def Place.project (place : Place) (projection : Projection) (ty : TypeId) : Place :=
  { place with projections := place.projections ++ [projection], ty }

/-! ## The builder -/

/-- `panic` stands for every way in which the source stops without a diagnostic: an index out of
bounds, a failed `unwrap` or `expect`, or an endless recursion over the type table. -/
inductive LowerError where
  | diagnostic (diagnostic : Diagnostic)
  | panic
deriving DecidableEq

/-- `loops` holds the break and the continue target of the enclosing loops, innermost first. -/
structure FunctionBuilder where
  localTypes : List TypeId
  values : List TypeId
  blocks : List BasicBlock
  current : BlockId
  loops : List (BlockId × BlockId)
deriving DecidableEq

abbrev BuilderM := StateT FunctionBuilder (Except LowerError)

/-- What a builder reads: the program and the function it lowers. -/
structure LowerContext where
  program : HirProgram
  source : FunctionId
  function : HirFunction

def orPanic {α : Type} : Option α → BuilderM α
  | some value => pure value
  | none => throw .panic

namespace LowerContext

def types (cx : LowerContext) : TypeContext :=
  cx.program.types

def error {α : Type} (cx : LowerContext) (span : Span) (message : String) : BuilderM α :=
  throw (.diagnostic ⟨cx.function.qualifiedName, span, message⟩)

def typeAt (cx : LowerContext) (ty : TypeId) : BuilderM HirType :=
  orPanic cx.types.types[ty]?

def primitive (cx : LowerContext) (name : String) : BuilderM TypeId :=
  orPanic (cx.types.primitive name)

def layout (cx : LowerContext) (ty : TypeId) : BuilderM Layout :=
  orPanic (cx.types.layout ty)

def isScalar (cx : LowerContext) (ty : TypeId) : BuilderM Bool :=
  orPanic (cx.types.isScalar ty)

end LowerContext

namespace FunctionBuilder

/-- The block `block`. The builder only asks for blocks it has created. -/
def block (builder : FunctionBuilder) (block : BlockId) : BasicBlock :=
  builder.blocks.getD block .empty

def terminated (builder : FunctionBuilder) (block : BlockId) : Bool :=
  (builder.block block).terminator != .pending

/-- Change the current block. -/
def modifyCurrent (builder : FunctionBuilder) (change : BasicBlock → BasicBlock) :
    FunctionBuilder :=
  { builder with blocks := builder.blocks.modify builder.current change }

/-- Make `block` the current block. -/
def goTo (builder : FunctionBuilder) (block : BlockId) : FunctionBuilder :=
  { builder with current := block }

end FunctionBuilder

def newValue (ty : TypeId) : BuilderM ValueId :=
  modifyGet fun builder =>
    (builder.values.length, { builder with values := builder.values ++ [ty] })

def newBlock : BuilderM BlockId :=
  modifyGet fun builder =>
    (builder.blocks.length, { builder with blocks := builder.blocks ++ [.empty] })

def emit (instruction : Instruction) : BuilderM Unit :=
  modify fun builder => builder.modifyCurrent fun block =>
    { block with instructions := block.instructions ++ [instruction] }

def terminate (terminator : Terminator) : BuilderM Unit :=
  modify fun builder => builder.modifyCurrent fun block => { block with terminator }

def setCurrent (block : BlockId) : BuilderM Unit :=
  modify fun builder => builder.goTo block

def currentTerminated : BuilderM Bool := do
  let builder ← get
  return builder.terminated builder.current

/-- Jump on unless the current block is closed already. -/
def jumpUnlessTerminated (target : BlockId) : BuilderM Unit := do
  if !(← currentTerminated) then terminate (.jump target)

def pushLoop (breakTarget continueTarget : BlockId) : BuilderM Unit :=
  modify fun builder => { builder with loops := (breakTarget, continueTarget) :: builder.loops }

def popLoop : BuilderM Unit :=
  modify fun builder => { builder with loops := builder.loops.tail }

def innermostLoop : BuilderM (BlockId × BlockId) := do
  orPanic (← get).loops.head?

/-- A new value and its defining instruction. -/
def defineValue (ty : TypeId) (instruction : ValueId → Instruction) : BuilderM ValueId := do
  let dst ← newValue ty
  emit (instruction dst)
  return dst

def constValue (value : UInt64) (ty : TypeId) : BuilderM ValueId :=
  defineValue ty (.const · value)

/-- The placeholder a diverging expression returns: the last value defined. -/
def divergedValue : BuilderM ValueId := do
  match (← get).values.length with
  | 0 => throw .panic
  | count + 1 => return count

/-- Run `first`; unless it has terminated the current block, go on with `next`. This is the
check that follows almost every recursive call of the lowering. -/
def unlessDiverged {α β : Type} (first : BuilderM α) (diverged next : α → BuilderM β) :
    BuilderM β := do
  let value ← first
  if ← currentTerminated then diverged value else next value

/-- Run the steps in order until one of them terminates the current block. -/
def untilDiverged : List (BuilderM Unit) → BuilderM Unit
  | [] => pure ()
  | step :: steps => unlessDiverged step (fun _ => pure ()) fun _ => untilDiverged steps

end Ostadix.Ocore
