import Mathlib.Algebra.Group.Nat.Defs
import Mathlib.Data.List.Basic

/-! # Typed HIR of native O-core computation

The part of the HIR that the MIR lowering reads: the type table with its layouts, and typed
functions, statements and expressions. -/

namespace Ostadix.Ocore

abbrev TypeId := Nat
abbrev StructId := Nat
abbrev EnumId := Nat
abbrev FunctionId := Nat
abbrev StaticId := Nat
abbrev LocalId := Nat

structure Span where
  start : Nat
  stop : Nat
  line : Nat
  column : Nat
deriving DecidableEq

structure Diagnostic where
  file : String
  span : Span
  message : String
deriving DecidableEq

/-! ## Types and layouts -/

structure Layout where
  size : UInt64
  align : UInt64
deriving DecidableEq

inductive Abi where
  | oCore
  | c
  | sysV64
  | interrupt
deriving DecidableEq

inductive HirType where
  | bool
  | int (signed : Bool) (bits : UInt16)
  | usize
  | isize
  | float (bits : UInt16)
  | void
  | never
  | pointer (mutable : Bool) (pointee : TypeId)
  | array (element : TypeId) (len : UInt64)
  | struct (id : StructId)
  | enum (id : EnumId)
  | function (params : List TypeId) (result : TypeId) (abi : Abi)
deriving DecidableEq

structure StructField where
  ty : TypeId
  offset : UInt64
deriving DecidableEq

structure StructType where
  fields : List StructField
  layout : Layout
deriving DecidableEq

structure EnumVariant where
  payload : List TypeId
deriving DecidableEq

structure EnumType where
  variants : List EnumVariant
  tagSize : UInt64
  payloadOffset : UInt64
  layout : Layout
deriving DecidableEq

structure TypeContext where
  types : List HirType
  structs : List StructType
  enums : List EnumType
  primitiveNames : List (String × TypeId)
deriving DecidableEq

def checkedMul (left right : UInt64) : Option UInt64 :=
  if left.toNat * right.toNat < 2 ^ 64 then some (left * right) else none

def alignUp (value align : UInt64) : UInt64 :=
  (value + align - 1) &&& ~~~(align - 1)

namespace TypeContext

def primitive (context : TypeContext) (name : String) : Option TypeId :=
  context.primitiveNames.lookup name

/-- `layout`, following at most `fuel` array element types. -/
def layoutWithin (context : TypeContext) : Nat → TypeId → Option Layout
  | 0, _ => none
  | fuel + 1, ty =>
      match context.types[ty]? with
      | none => none
      | some .bool | some (.int _ 8) => some ⟨1, 1⟩
      | some (.int _ 16) => some ⟨2, 2⟩
      | some (.int _ 32) | some (.float 32) => some ⟨4, 4⟩
      | some (.int _ 64) | some (.float 64) | some .usize | some .isize | some (.pointer ..)
      | some (.function ..) => some ⟨8, 8⟩
      | some (.int ..) | some (.float _) => none
      | some .void | some .never => some ⟨0, 1⟩
      | some (.array element len) => do
          let element ← context.layoutWithin fuel element
          return ⟨← checkedMul element.size len, element.align⟩
      | some (.struct id) => context.structs[id]?.map (·.layout)
      | some (.enum id) => context.enums[id]?.map (·.layout)

/-- `none` where the source panics or, on a table whose array types form a cycle, does not
return: a chain of element types without a repetition is no longer than the table. -/
def layout (context : TypeContext) (ty : TypeId) : Option Layout :=
  context.layoutWithin context.types.length ty

/-- `none` where the index is out of bounds. -/
def isScalar (context : TypeContext) (ty : TypeId) : Option Bool :=
  context.types[ty]?.map fun
    | .bool | .int .. | .usize | .isize | .float _ | .pointer .. | .function .. => true
    | .void | .never | .array .. | .struct _ | .enum _ => false

end TypeContext

/-! ## Expressions -/

inductive UnaryOp where
  | neg
  | not
  | bitNot
  | deref
  | addressOf (mutable : Bool)
deriving DecidableEq

inductive BinaryOp where
  | add | sub | mul | div | rem
  | bitAnd | bitOr | bitXor | shiftLeft | shiftRight
  | eq | notEq | less | lessEq | greater | greaterEq
  | logicalAnd | logicalOr
deriving DecidableEq

inductive Intrinsic where
  | volatileLoad | volatileStore
  | atomicLoad | atomicStore | atomicExchange | atomicCompareExchange | atomicFetchAdd
  | in8 | in16 | in32 | out8 | out16 | out32
  | enableInterrupts | disableInterrupts | halt | invalidatePage
  | syscall (number : UInt8)
deriving DecidableEq

inductive HirConstValue where
  | integer (value : UInt64)
  | function (function : FunctionId)
  | bool (value : Bool)
  | bytes (bytes : List UInt8)
  | array (values : List HirConstValue)
  | repeat (value : HirConstValue) (len : UInt64)
  | struct (structId : StructId) (fields : List HirConstValue)
  | enum (enumId : EnumId) (variant : Nat) (args : List HirConstValue)
  | zero

mutual

inductive HirExpr where
  | mk (kind : HirExprKind) (ty : TypeId) (span : Span)

inductive HirExprKind where
  | constant (value : HirConstValue)
  | local (id : LocalId)
  | static (id : StaticId)
  | function (function : FunctionId)
  | enumVariant (enumId : EnumId) (variant : Nat) (args : List HirExpr)
  | array (values : List HirExpr)
  | arrayRepeat (value : HirExpr) (len : UInt64)
  | struct (structId : StructId) (fields : List (Nat × HirExpr))
  | unary (op : UnaryOp) (operand : HirExpr)
  | binary (op : BinaryOp) (lhs rhs : HirExpr)
  | assign (op : Option BinaryOp) (target value : HirExpr)
  | call (function : FunctionId) (args : List HirExpr)
  | callIndirect (callee : HirExpr) (args : List HirExpr)
  | intrinsic (intrinsic : Intrinsic) (args : List HirExpr)
  | field (base : HirExpr) (field : Nat) (offset : UInt64)
  | index (base index : HirExpr)
  | cast (value : HirExpr) (target : TypeId)
  | asm (template : String) (operands : List HirAsmOperand) (options : List String)

inductive HirAsmOperand where
  | in (register : String) (value : HirExpr)
  | out (register : String) (target : HirExpr)
  | inOut (register : String) (input output : HirExpr)

end

def HirExpr.ty : HirExpr → TypeId
  | mk _ ty _ => ty

/-! ## Statements, functions and programs -/

mutual

inductive HirBlock where
  | mk (stmts : List HirStmt)

inductive HirStmt where
  | let (id : LocalId) (init : HirExpr)
  | expr (expr : HirExpr)
  | if (condition : HirExpr) (thenBlock : HirBlock) (elseBlock : Option HirBlock)
  | while (condition : HirExpr) (body : HirBlock)
  | loop (body : HirBlock)
  | unsafeBlock (block : HirBlock)
  | return (value : Option HirExpr)
  | break
  | continue

end

structure HirLocal where
  ty : TypeId
deriving DecidableEq

structure HirFunction where
  qualifiedName : String
  result : TypeId
  locals : List HirLocal
  body : Option HirBlock

/-- `statics` counts the statics: lowering only numbers them. -/
structure HirProgram where
  types : TypeContext
  functions : List HirFunction
  statics : Nat

end Ostadix.Ocore
